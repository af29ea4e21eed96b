import Interleave.Proofs.SearchRun
import Interleave.Proofs.Validity

set_option autoImplicit false

/-! Linearizations of a scenario as words of tagged calls, said without the search, and the
search against them: on a valid scenario it lists all of them, each once and in order. -/

namespace Interleave.Scenario

/-- A total order of all calls. Its calls of one thread are those of the thread in program
order, and no call of a thread waits for one that the order puts after it. -/
structure IsLinearization (scenario : Scenario) (calls : List Call) : Prop where
  declared : ∀ call ∈ calls, ∃ thread ∈ scenario.threads, call.thread = some thread.index
  program : ∀ thread ∈ scenario.threads,
    calls.filter (fun call => call.thread == some thread.index) = thread.calls
  ordered : ∀ pair ∈ scenario.order, ∀ earlier later : Nat,
    calls[earlier]?.bind Call.thread = some pair.1 →
    calls[later]?.bind Call.thread = some pair.2 → earlier < later

/-- The position that each call advances. -/
def word (scenario : Scenario) (calls : List Call) : List Nat :=
  calls.filterMap (fun call => call.thread.bind scenario.positionOf?)

/-- No call of the pair's second thread stands before one of its first. -/
def KeepsPair (pair : Nat × Nat) (calls : List Call) : Prop :=
  calls.Pairwise (fun earlier later =>
    ¬(earlier.thread = some pair.2 ∧ later.thread = some pair.1))

theorem keepsPair_iff {pair : Nat × Nat} (different : pair.1 ≠ pair.2) (calls : List Call) :
    KeepsPair pair calls ↔ ∀ earlier later : Nat,
      calls[earlier]?.bind Call.thread = some pair.1 →
      calls[later]?.bind Call.thread = some pair.2 → earlier < later := by
  unfold KeepsPair
  rw [List.pairwise_iff_getElem]
  constructor
  · intro keeps earlier later first second
    obtain ⟨left, atLeft, leftThread⟩ := Option.bind_eq_some_iff.mp first
    obtain ⟨right, atRight, rightThread⟩ := Option.bind_eq_some_iff.mp second
    obtain ⟨leftBound, rfl⟩ := List.getElem?_eq_some_iff.mp atLeft
    obtain ⟨rightBound, rfl⟩ := List.getElem?_eq_some_iff.mp atRight
    rcases Nat.lt_trichotomy earlier later with less | same | greater
    · exact less
    · subst same
      exact absurd (Option.some.inj (leftThread.symm.trans rightThread)) different
    · exact absurd ⟨rightThread, leftThread⟩ (keeps later earlier rightBound leftBound greater)
  · rintro before left right leftBound rightBound less ⟨leftThread, rightThread⟩
    have reversed := before right left
      (by rw [List.getElem?_eq_getElem rightBound]; exact rightThread)
      (by rw [List.getElem?_eq_getElem leftBound]; exact leftThread)
    omega

namespace Valid

variable {scenario : Scenario}

theorem pair_ne (valid : scenario.Valid) {pair : Nat × Nat} (member : pair ∈ scenario.order) :
    pair.1 ≠ pair.2 := by
  obtain ⟨rank, increasing⟩ := valid.ranked
  intro same
  have less := increasing pair member
  rw [same] at less
  exact Nat.lt_irrefl _ less

private theorem thread_ext (valid : scenario.Valid) {left right : Nat} {first second : Thread}
    (atLeft : scenario.threads[left]? = some first)
    (atRight : scenario.threads[right]? = some second) (same : first.index = second.index) :
    left = right := by
  apply position_unique scenario valid.distinct first.index
  · simp only [indices, List.getElem?_map, atLeft, Option.map_some]
  · simp only [indices, List.getElem?_map, atRight, Option.map_some, same]

private theorem index_at (valid : scenario.Valid) {position : Nat} {thread : Thread}
    (atPosition : scenario.threads[position]? = some thread) :
    scenario.positionOf? thread.index = some position := by
  rw [positionOf?_eq_some_iff scenario valid.distinct]
  simp only [indices, List.getElem?_map, atPosition, Option.map_some]

end Valid

/-! ### The plan of a scenario -/

section

variable {scenario : Scenario} {position : Nat} {thread : Thread}

private theorem body_ofScenario (atPosition : scenario.threads[position]? = some thread) :
    Search.body (Plan.ofScenario scenario) position = thread.calls.toArray := by
  simp only [Search.body, Plan.ofScenario, Array.getD_eq_getD_getElem?, List.getElem?_toArray,
    List.getElem?_map, atPosition, Option.map_some, Option.getD_some]

theorem bodyLength_ofScenario (atPosition : scenario.threads[position]? = some thread) :
    (Plan.ofScenario scenario).bodyLength position = thread.calls.length := by
  rw [Plan.bodyLength, body_ofScenario atPosition, List.size_toArray]

theorem bodies_size (scenario : Scenario) :
    (Plan.ofScenario scenario).bodies.size = scenario.threads.length := by
  simp only [Plan.ofScenario, List.size_toArray, List.length_map]

theorem exists_thread {position : Nat}
    (bound : position < (Plan.ofScenario scenario).bodies.size) :
    ∃ thread, scenario.threads[position]? = some thread := by
  rw [bodies_size] at bound
  exact ⟨_, List.getElem?_eq_getElem bound⟩

/-- A position waits for another when the order has the pair of their indices. -/
theorem mem_planPredecessors (valid : scenario.Valid) {before : Nat} {other : Thread}
    (atBefore : scenario.threads[before]? = some other)
    (atPosition : scenario.threads[position]? = some thread) :
    before ∈ (Plan.ofScenario scenario).predecessors.getD position [] ↔
      (other.index, thread.index) ∈ scenario.order := by
  change before ∈ scenario.predecessors.getD position [] ↔ _
  rw [mem_predecessors]
  exact mem_positionPairs_iff_index scenario valid.distinct atBefore atPosition

private theorem exists_thread_of_waits (valid : scenario.Valid) {before : Nat}
    (waits : before ∈ (Plan.ofScenario scenario).predecessors.getD position []) :
    ∃ other, scenario.threads[before]? = some other := by
  obtain ⟨_pair, _member, atBefore, _atAfter⟩ :=
    (mem_predecessors_iff scenario valid.distinct before position).mp waits
  have bound := (List.getElem?_eq_some_iff.mp atBefore).1
  rw [indices_length] at bound
  exact ⟨_, List.getElem?_eq_getElem bound⟩

end

/-! ### From walks to linearizations -/

section

variable {scenario : Scenario}

private theorem mem_replay {choices : List Nat} {call : Call}
    (member : call ∈ (Plan.ofScenario scenario).replay choices) :
    ∃ position thread, position ∈ choices ∧ scenario.threads[position]? = some thread ∧
      call ∈ thread.calls := by
  induction choices with
  | nil => cases member
  | cons latest choices ih =>
      unfold Plan.replay at member
      split at member
      · rename_i found foundAt
        rcases List.mem_cons.mp member with rfl | later
        · obtain ⟨room, inBody⟩ := Array.getElem?_eq_some_iff.mp foundAt
          cases threadAt : scenario.threads[latest]? with
          | none =>
              have empty : Search.body (Plan.ofScenario scenario) latest = #[] := by
                simp [Search.body, Plan.ofScenario, Array.getD_eq_getD_getElem?, threadAt]
              simp only [empty] at room
              exact absurd room (Nat.not_lt_zero _)
          | some thread =>
              rw [body_ofScenario threadAt, List.getElem?_toArray] at foundAt
              exact ⟨latest, thread, List.mem_cons_self, threadAt,
                List.mem_of_getElem? foundAt⟩
        · obtain ⟨position, thread, inChoices, threadAt, inCalls⟩ := ih later
          exact ⟨position, thread, List.mem_cons_of_mem _ inChoices, threadAt, inCalls⟩
      · obtain ⟨position, thread, inChoices, threadAt, inCalls⟩ := ih member
        exact ⟨position, thread, List.mem_cons_of_mem _ inChoices, threadAt, inCalls⟩

theorem replay_cons (valid : scenario.Valid) {choices : List Nat} {position : Nat}
    (enabled : (Plan.ofScenario scenario).Enabled choices position) :
    ∃ thread call, scenario.threads[position]? = some thread ∧
      thread.calls[choices.count position]? = some call ∧ call.thread = some thread.index ∧
      (Plan.ofScenario scenario).replay (position :: choices) =
        call :: (Plan.ofScenario scenario).replay choices := by
  obtain ⟨thread, threadAt⟩ := exists_thread enabled.bounded
  have room := enabled.1
  rw [bodyLength_ofScenario threadAt] at room
  have callAt : thread.calls[choices.count position]? =
      some thread.calls[choices.count position] := List.getElem?_eq_getElem room
  refine ⟨thread, _, threadAt, callAt, ?_, ?_⟩
  · exact valid.tagged thread (List.mem_of_getElem? threadAt) _ (List.getElem_mem room)
  · simp only [Plan.replay, body_ofScenario threadAt, List.getElem?_toArray, callAt]

private theorem filter_replay (valid : scenario.Valid) {choices : List Nat}
    (walk : (Plan.ofScenario scenario).Walk choices) {position : Nat} {thread : Thread}
    (threadAt : scenario.threads[position]? = some thread) :
    ((Plan.ofScenario scenario).replay choices).filter
        (fun call => call.thread == some thread.index) =
      (thread.calls.take (choices.count position)).reverse := by
  induction walk with
  | start => rfl
  | @advance choices latest _earlier enabled ih =>
      obtain ⟨other, call, otherAt, callAt, callThread, replayed⟩ := replay_cons valid enabled
      rw [replayed, List.filter_cons, callThread, List.count_cons, ih]
      by_cases same : latest = position
      · subst same
        have threads : other = thread := Option.some.inj (otherAt.symm.trans threadAt)
        subst threads
        rw [if_pos (beq_self_eq_true _), beq_self_eq_true, if_pos rfl, List.take_add_one, callAt,
          Option.toList_some, List.reverse_append, List.reverse_singleton, List.singleton_append]
      · have different : other.index ≠ thread.index := fun indices =>
          same (valid.thread_ext otherAt threadAt indices)
        rw [if_neg (by simpa using different), if_neg (by simpa using same), Nat.add_zero]

private theorem word_replay (valid : scenario.Valid) {choices : List Nat}
    (walk : (Plan.ofScenario scenario).Walk choices) :
    scenario.word ((Plan.ofScenario scenario).replay choices) = choices := by
  induction walk with
  | start => rfl
  | advance _earlier enabled ih =>
      obtain ⟨thread, call, threadAt, _callAt, callThread, replayed⟩ := replay_cons valid enabled
      unfold word at ih ⊢
      rw [replayed, List.filterMap_cons, callThread, Option.bind_some, valid.index_at threadAt, ih]

/-- What a position waited for when it advanced is finished ever after. -/
theorem finished_of_mem {plan : Plan} {choices : List Nat} (walk : plan.Walk choices)
    {position before : Nat} (member : position ∈ choices)
    (waits : before ∈ plan.predecessors.getD position []) : plan.Finished choices before := by
  induction walk with
  | start => cases member
  | @advance choices latest earlier enabled ih =>
      have old : plan.Finished choices before := by
        rcases List.mem_cons.mp member with rfl | later
        · exact enabled.2 before waits
        · exact ih later
      have whole := (Plan.Walk.advance earlier enabled).count_le before
      unfold Plan.Finished at old ⊢
      rw [List.count_cons] at whole ⊢
      omega

private theorem replay_keepsPair (valid : scenario.Valid) {choices : List Nat}
    (walk : (Plan.ofScenario scenario).Walk choices) {pair : Nat × Nat}
    (member : pair ∈ scenario.order) :
    KeepsPair pair ((Plan.ofScenario scenario).replay choices).reverse := by
  unfold KeepsPair
  rw [List.pairwise_reverse]
  induction walk with
  | start => exact List.Pairwise.nil
  | @advance choices latest earlier enabled ih =>
      obtain ⟨thread, call, threadAt, _callAt, callThread, replayed⟩ := replay_cons valid enabled
      rw [replayed, List.pairwise_cons]
      refine ⟨?_, ih⟩
      rintro other inside ⟨otherThread, latestThread⟩
      obtain ⟨position, owner, chosen, ownerAt, inCalls⟩ := mem_replay inside
      have ownerTag := valid.tagged owner (List.mem_of_getElem? ownerAt) other inCalls
      have first : pair.1 = thread.index :=
        Option.some.inj (latestThread.symm.trans callThread)
      have second : pair.2 = owner.index :=
        Option.some.inj (otherThread.symm.trans ownerTag)
      have waits : latest ∈ (Plan.ofScenario scenario).predecessors.getD position [] := by
        rw [mem_planPredecessors valid threadAt ownerAt, ← first, ← second]
        exact member
      have done := finished_of_mem earlier chosen waits
      unfold Plan.Finished at done
      have room := enabled.1
      omega

/-- No maximal walk stops early: of the positions that are not finished, one of least rank
waits for none. -/
theorem finished_of_maximal (valid : scenario.Valid) {choices : List Nat}
    (walk : (Plan.ofScenario scenario).Walk choices)
    (maximal : (Plan.ofScenario scenario).Maximal choices) {position : Nat} {thread : Thread}
    (threadAt : scenario.threads[position]? = some thread) :
    (Plan.ofScenario scenario).Finished choices position := by
  obtain ⟨rank, increasing⟩ := valid.ranked
  generalize height : rank thread.index = bound
  induction bound using Nat.strong_induction_on generalizing position thread with
  | _ bound ih =>
      by_contra unfinished
      apply maximal position
      refine ⟨lt_of_le_of_ne (walk.count_le position) unfinished, ?_⟩
      intro before waits
      obtain ⟨other, otherAt⟩ := exists_thread_of_waits valid waits
      have pair := (mem_planPredecessors valid otherAt threadAt).mp waits
      have lower := increasing _ pair
      rw [height] at lower
      exact ih _ lower otherAt rfl

theorem isLinearization_of_maximal (valid : scenario.Valid) {choices : List Nat}
    (walk : (Plan.ofScenario scenario).Walk choices)
    (maximal : (Plan.ofScenario scenario).Maximal choices) :
    scenario.IsLinearization ((Plan.ofScenario scenario).replay choices).reverse := by
  refine ⟨?_, ?_, ?_⟩
  · intro call member
    obtain ⟨position, thread, _chosen, threadAt, inCalls⟩ :=
      mem_replay (List.mem_reverse.mp member)
    have inThreads := List.mem_of_getElem? threadAt
    exact ⟨thread, inThreads, valid.tagged thread inThreads call inCalls⟩
  · intro thread inThreads
    obtain ⟨position, threadAt⟩ := List.mem_iff_getElem?.mp inThreads
    have done := finished_of_maximal valid walk maximal threadAt
    unfold Plan.Finished at done
    rw [bodyLength_ofScenario threadAt] at done
    rw [List.filter_reverse, filter_replay valid walk threadAt, List.reverse_reverse, done,
      List.take_length]
  · intro pair member
    exact (keepsPair_iff (valid.pair_ne member) _).mp (replay_keepsPair valid walk member)

/-! ### From linearizations to walks -/

theorem filter_of_replay (valid : scenario.Valid) {choices : List Nat}
    (walk : (Plan.ofScenario scenario).Walk choices) {earlier : List Call}
    (replayed : (Plan.ofScenario scenario).replay choices = earlier.reverse) {position : Nat}
    {thread : Thread} (threadAt : scenario.threads[position]? = some thread) :
    earlier.filter (fun call => call.thread == some thread.index) =
        thread.calls.take (choices.count position) ∧
      (thread.calls.take (choices.count position)).length = choices.count position := by
  constructor
  · have filtered := filter_replay valid walk threadAt
    rw [replayed, List.filter_reverse] at filtered
    exact List.reverse_injective filtered
  · have bound := walk.count_le position
    rw [bodyLength_ofScenario threadAt] at bound
    rw [List.length_take]
    omega

theorem finished_of_linear (valid : scenario.Valid) {calls : List Call}
    (linear : scenario.IsLinearization calls) {choices : List Nat}
    (walk : (Plan.ofScenario scenario).Walk choices) {earlier later : List Call} {call : Call}
    (split : calls = earlier ++ call :: later)
    (replayed : (Plan.ofScenario scenario).replay choices = earlier.reverse) {before : Nat}
    {other : Thread} (otherAt : scenario.threads[before]? = some other) {index : Nat}
    (callThread : call.thread = some index) (pair : (other.index, index) ∈ scenario.order) :
    (Plan.ofScenario scenario).Finished choices before := by
  have different := valid.pair_ne pair
  have keeps := (keepsPair_iff different calls).mpr (linear.ordered _ pair)
  unfold KeepsPair at keeps
  rw [split, List.pairwise_append, List.pairwise_cons] at keeps
  have none : (call :: later).filter (fun call => call.thread == some other.index) = [] := by
    rw [List.filter_eq_nil_iff]
    intro next member same
    rw [beq_iff_eq] at same
    rcases List.mem_cons.mp member with rfl | rest
    · exact different (Option.some.inj (same.symm.trans callThread))
    · exact keeps.2.1.1 next rest ⟨callThread, same⟩
  obtain ⟨sofar, count⟩ := filter_of_replay valid walk replayed otherAt
  have whole := linear.program other (List.mem_of_getElem? otherAt)
  rw [split, List.filter_append, none, List.append_nil, sofar] at whole
  unfold Plan.Finished
  rw [bodyLength_ofScenario otherAt, ← count, whole]

/-- Every beginning of a linearization is the replay of a walk. -/
theorem exists_walk (valid : scenario.Valid) {calls : List Call}
    (linear : scenario.IsLinearization calls) (earlier later : List Call)
    (split : calls = earlier ++ later) :
    ∃ choices, (Plan.ofScenario scenario).Walk choices ∧
      (Plan.ofScenario scenario).replay choices = earlier.reverse := by
  induction earlier using List.reverseRecOn generalizing later with
  | nil => exact ⟨[], .start, rfl⟩
  | append_singleton earlier call ih =>
      rw [List.append_assoc, List.singleton_append] at split
      obtain ⟨choices, walk, replayed⟩ := ih (call :: later) split
      have inCalls : call ∈ calls := by
        rw [split]
        exact List.mem_append_right _ List.mem_cons_self
      obtain ⟨thread, inThreads, callThread⟩ := linear.declared call inCalls
      obtain ⟨position, threadAt⟩ := List.mem_iff_getElem?.mp inThreads
      obtain ⟨sofar, count⟩ := filter_of_replay valid walk replayed threadAt
      have program := linear.program thread inThreads
      rw [split, List.filter_append, List.filter_cons, callThread,
        if_pos (beq_self_eq_true _), sofar] at program
      have callAt : thread.calls[choices.count position]? = some call := by
        rw [← program, List.getElem?_append_right (by rw [count]), count, Nat.sub_self,
          List.getElem?_cons_zero]
      have room := (List.getElem?_eq_some_iff.mp callAt).1
      have enabled : (Plan.ofScenario scenario).Enabled choices position := by
        refine ⟨by rw [bodyLength_ofScenario threadAt]; exact room, ?_⟩
        intro before waits
        obtain ⟨other, otherAt⟩ := exists_thread_of_waits valid waits
        exact finished_of_linear valid linear walk split replayed otherAt callThread
          ((mem_planPredecessors valid otherAt threadAt).mp waits)
      obtain ⟨owner, added, ownerAt, addedAt, _tag, stepped⟩ := replay_cons valid enabled
      have owners : owner = thread := Option.some.inj (ownerAt.symm.trans threadAt)
      subst owners
      have same : added = call := Option.some.inj (addedAt.symm.trans callAt)
      subst same
      refine ⟨position :: choices, walk.advance enabled, ?_⟩
      rw [stepped, replayed, List.reverse_append, List.reverse_singleton, List.singleton_append]

private theorem exists_maximal (valid : scenario.Valid) {calls : List Call}
    (linear : scenario.IsLinearization calls) :
    ∃ choices, (Plan.ofScenario scenario).Walk choices ∧
      (Plan.ofScenario scenario).Maximal choices ∧
      ((Plan.ofScenario scenario).replay choices).reverse = calls := by
  obtain ⟨choices, walk, replayed⟩ := exists_walk valid linear calls []
    (List.append_nil calls).symm
  refine ⟨choices, walk, ?_, by rw [replayed, List.reverse_reverse]⟩
  intro position enabled
  obtain ⟨thread, threadAt⟩ := exists_thread enabled.bounded
  have filtered := filter_replay valid walk threadAt
  rw [replayed, List.filter_reverse] at filtered
  have whole := linear.program thread (List.mem_of_getElem? threadAt)
  rw [List.reverse_injective filtered] at whole
  have room := enabled.1
  rw [bodyLength_ofScenario threadAt] at room
  have short := congrArg List.length whole
  rw [List.length_take] at short
  omega

end

/-! ### The search -/

private theorem toList_sequenceOf (plan : Plan) (choices : List Nat) :
    (plan.sequenceOf choices).toList = (plan.replay choices).reverse := by
  simp [Plan.sequenceOf, CallSequence.ofList, CallSequence.ofArray, CallSequence.toList]

theorem mem_leaves_iff_walk {plan : Plan} {choices : List Nat} :
    choices ∈ plan.leaves plan.total [] ↔ plan.Walk choices ∧ plan.Maximal choices := by
  have leaves : choices ∈ plan.leaves plan.total [] ↔
      plan.Walk choices ∧ plan.Maximal choices ∧ [] <:+ choices :=
    Plan.mem_leaves_iff .start
  rw [leaves]
  exact ⟨fun all => ⟨all.1, all.2.1⟩, fun both => ⟨both.1, both.2, List.nil_suffix⟩⟩

theorem linearizations_found {scenario : Scenario} {limit : Nat}
    {found : List (CallSequence Call)} (returned : scenario.linearizations limit = .ok found) :
    found = ((Plan.ofScenario scenario).leaves (Plan.ofScenario scenario).total []).map
      (Plan.ofScenario scenario).sequenceOf := by
  have enumerated := linearizations_eq scenario limit
  rw [returned] at enumerated
  dsimp only at enumerated
  split at enumerated
  · exact Except.ok.inj enumerated
  · cases enumerated

theorem mem_linearizations_iff {scenario : Scenario} (valid : scenario.Valid) {limit : Nat}
    {found : List (CallSequence Call)} (returned : scenario.linearizations limit = .ok found)
    (calls : List Call) :
    calls ∈ found.map CallSequence.toList ↔ scenario.IsLinearization calls := by
  rw [linearizations_found returned, List.map_map, List.mem_map]
  constructor
  · rintro ⟨choices, leaf, rfl⟩
    obtain ⟨walk, maximal⟩ := mem_leaves_iff_walk.mp leaf
    rw [Function.comp_apply, toList_sequenceOf]
    exact isLinearization_of_maximal valid walk maximal
  · intro linear
    obtain ⟨choices, walk, maximal, replayed⟩ := exists_maximal valid linear
    refine ⟨choices, mem_leaves_iff_walk.mpr ⟨walk, maximal⟩, ?_⟩
    rw [Function.comp_apply, toList_sequenceOf]
    exact replayed

theorem linearizations_sorted {scenario : Scenario} (valid : scenario.Valid) {limit : Nat}
    {found : List (CallSequence Call)} (returned : scenario.linearizations limit = .ok found) :
    (found.map (fun sequence => scenario.word sequence.toList)).Pairwise (· < ·) := by
  set plan := Plan.ofScenario scenario with planEq
  have words : ∀ choices ∈ plan.leaves plan.total [],
      scenario.word (plan.sequenceOf choices).toList = choices.reverse := by
    intro choices leaf
    rw [toList_sequenceOf, word, List.filterMap_reverse]
    exact congrArg List.reverse (word_replay valid (mem_leaves_iff_walk.mp leaf).1)
  have increasing : (plan.leaves plan.total []).Pairwise (fun left right =>
      left.reverse < right.reverse) := Plan.leaves_sorted .start
  rw [linearizations_found returned, ← planEq, List.map_map, List.pairwise_map]
  apply increasing.imp_of_mem
  intro left right leftLeaf rightLeaf less
  rw [Function.comp_apply, Function.comp_apply, words left leftLeaf, words right rightLeaf]
  exact less

theorem exists_linearizations (scenario : Scenario) :
    ∃ limit found, scenario.linearizations limit = .ok found := by
  set plan := Plan.ofScenario scenario with planEq
  refine ⟨(plan.leaves plan.total []).length,
    (plan.leaves plan.total []).map plan.sequenceOf, ?_⟩
  rw [linearizations_eq, ← planEq]
  exact if_pos (Nat.le_refl _)

/-- Read as words of tagged calls, the sequences that the search returns are exactly the
linearizations. None occurs twice, and the words of positions they advance increase. -/
theorem linearizations_exact {members : Members Json} {scenario : Scenario} {limit : Nat}
    {found : List (CallSequence Call)} (accepted : Scenario.read members = .ok scenario)
    (returned : scenario.linearizations limit = .ok found) :
    (∀ calls, calls ∈ found.map CallSequence.toList ↔ scenario.IsLinearization calls) ∧
    (found.map CallSequence.toList).Nodup ∧
    (found.map (fun sequence => scenario.word sequence.toList)).Pairwise (· < ·) := by
  have valid := valid_of_read accepted
  have sorted := linearizations_sorted valid returned
  refine ⟨mem_linearizations_iff valid returned, ?_, sorted⟩
  apply List.Nodup.of_map scenario.word
  rw [List.map_map]
  exact sorted.imp (fun less same => absurd less (by rw [same]; exact List.lt_irrefl _))

/-- Two threads with calls; the one declared last has none and comes before the first. -/
def pairDocument : Members Json :=
  [("sequences", .array
    [.object [("index", .natural 4), ("invocations",
      .array [.object [("method", .string "put")], .object [("method", .string "put")]])],
    .object [("index", .natural 7), ("invocations",
      .array [.object [("method", .string "take")]])],
    .object [("index", .natural 2)]]),
  ("order", .array [.array [.natural 2, .natural 4]])]

def pairScenario : Scenario :=
  { Scenario.empty with
    threads := [⟨4, [⟨"put", [], false, some 4⟩, ⟨"put", [], false, some 4⟩]⟩,
      ⟨7, [⟨"take", [], false, some 7⟩]⟩, ⟨2, []⟩]
    order := [(2, 4)] }

def pairOrderings : List (CallSequence Call) :=
  [[4, 4, 7], [4, 7, 4], [7, 4, 4]].map (fun threads =>
    CallSequence.ofList (threads.map (fun index =>
      ⟨if index = 4 then "put" else "take", [], false, some index⟩)))

theorem linearizations_exact_pair :
    Scenario.read pairDocument = .ok pairScenario ∧
    pairScenario.linearizations 3 = .ok pairOrderings ∧
    (∀ calls, calls ∈ pairOrderings.map CallSequence.toList ↔
      pairScenario.IsLinearization calls) ∧
    (pairOrderings.map CallSequence.toList).Nodup ∧
    (pairOrderings.map (fun sequence => pairScenario.word sequence.toList)).Pairwise
      (· < ·) := by
  have accepted : Scenario.read pairDocument = .ok pairScenario := by rfl
  have returned : pairScenario.linearizations 3 = .ok pairOrderings := by cbv
  exact ⟨accepted, returned, linearizations_exact accepted returned⟩

end Interleave.Scenario

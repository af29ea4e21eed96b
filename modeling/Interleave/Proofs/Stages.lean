import Interleave.Proofs.Execution
import Interleave.Proofs.Linearization

set_option autoImplicit false

/-! The stages of a native program: the initial thread, the concurrent threads, the final
thread. A legal order goes from a stage to a later one, and the executions of the program are
the orders of all calls that never return to an earlier stage. -/

namespace Interleave

def Placement.stage : Placement → Nat
  | .initial => 0
  | .concurrent => 1
  | .final => 2

private theorem Placement.stage_injective : Function.Injective Placement.stage := by
  intro left right same
  cases left <;> cases right <;> first | rfl | cases same

/-- The words that interleave the calls of some threads: their calls are all on these threads,
and those of each one are in program order. -/
structure Covers (threads : List Thread) (calls : List Call) : Prop where
  declared : ∀ call ∈ calls, ∃ index ∈ threads.map Thread.index, call.thread = some index
  program : ∀ thread ∈ threads,
    calls.filter (fun call => call.thread == some thread.index) = thread.calls

/-- Indices are distinct and every call carries the index of its thread. -/
structure WellTagged (threads : List Thread) : Prop where
  distinct : (threads.map Thread.index).Nodup
  tagged : ∀ thread ∈ threads, ∀ call ∈ thread.calls, call.thread = some thread.index

namespace WellTagged

theorem filter {threads : List Thread} (wellTagged : WellTagged threads) (keep : Thread → Bool) :
    WellTagged (threads.filter keep) :=
  ⟨wellTagged.distinct.sublist (List.filter_sublist.map _),
    fun thread member => wellTagged.tagged thread (List.mem_of_mem_filter member)⟩

theorem rest {before after : List Thread} {thread : Thread} {call : Call} {calls : List Call}
    (wellTagged : WellTagged (before ++ thread :: after)) (next : thread.calls = call :: calls) :
    WellTagged (before ++ ⟨thread.index, calls⟩ :: after) := by
  have all := wellTagged.tagged
  refine ⟨by simpa using wellTagged.distinct, ?_⟩
  intro other member
  rcases List.mem_append.mp member with first | last
  · exact all other (List.mem_append_left _ first)
  · rcases List.mem_cons.mp last with rfl | last
    · intro inner inside
      exact all thread (by simp) inner (by rw [next]; exact List.mem_cons_of_mem _ inside)
    · exact all other (List.mem_append_right _ (List.mem_cons_of_mem _ last))

theorem index_ne {before after : List Thread} {thread other : Thread}
    (wellTagged : WellTagged (before ++ thread :: after)) (member : other ∈ before ++ after) :
    other.index ≠ thread.index := by
  have distinct := wellTagged.distinct
  rw [List.map_append, List.map_cons, List.nodup_middle, List.nodup_cons, ← List.map_append]
    at distinct
  intro same
  exact distinct.1 (List.mem_map.mpr ⟨other, member, same⟩)

theorem ext {threads : List Thread} (wellTagged : WellTagged threads) {left right : Thread}
    (leftMember : left ∈ threads) (rightMember : right ∈ threads)
    (same : left.index = right.index) : left = right :=
  List.inj_on_of_nodup_map wellTagged.distinct leftMember rightMember same

theorem filter_own {threads : List Thread} (wellTagged : WellTagged threads) {thread : Thread}
    (member : thread ∈ threads) :
    thread.calls.filter (fun call => call.thread == some thread.index) = thread.calls := by
  rw [List.filter_eq_self]
  intro call inCalls
  rw [wellTagged.tagged thread member call inCalls]
  exact beq_self_eq_true _

theorem filter_other {threads : List Thread} (wellTagged : WellTagged threads)
    {thread : Thread} {index : Nat} (member : thread ∈ threads) (other : thread.index ≠ index) :
    thread.calls.filter (fun call => call.thread == some index) = [] := by
  rw [List.filter_eq_nil_iff]
  intro call inCalls
  rw [wellTagged.tagged thread member call inCalls]
  simpa using other

end WellTagged

theorem covers_cons_iff {before after : List Thread} {thread : Thread} {call : Call}
    {left calls : List Call} (wellTagged : WellTagged (before ++ thread :: after))
    (next : thread.calls = call :: left) :
    Covers (before ++ thread :: after) (call :: calls) ↔
      Covers (before ++ ⟨thread.index, left⟩ :: after) calls := by
  have callThread : call.thread = some thread.index :=
    wellTagged.tagged thread (by simp) call (by rw [next]; exact List.mem_cons_self)
  have own : (call :: calls).filter (fun call => call.thread == some thread.index) =
      call :: calls.filter (fun call => call.thread == some thread.index) :=
    List.filter_cons_of_pos (by rw [callThread]; exact beq_self_eq_true _)
  have others : ∀ other ∈ before ++ after,
      (call :: calls).filter (fun call => call.thread == some other.index) =
        calls.filter (fun call => call.thread == some other.index) := by
    intro other member
    have different := wellTagged.index_ne member
    exact List.filter_cons_of_neg (by rw [callThread]; simpa using Ne.symm different)
  have indices : (before ++ thread :: after).map Thread.index =
      (before ++ ⟨thread.index, left⟩ :: after).map Thread.index := by simp
  constructor
  · intro covers
    constructor
    · intro other member
      rw [← indices]
      exact covers.declared other (List.mem_cons_of_mem _ member)
    · intro other member
      rcases List.mem_append.mp member with early | late
      · rw [← others other (List.mem_append_left _ early)]
        exact covers.program other (List.mem_append_left _ early)
      · rcases List.mem_cons.mp late with rfl | late
        · have whole := covers.program thread (by simp)
          rw [own, next] at whole
          exact List.cons.inj whole |>.2
        · rw [← others other (List.mem_append_right _ late)]
          exact covers.program other (List.mem_append_right _ (List.mem_cons_of_mem _ late))
  · intro covers
    constructor
    · intro other member
      rcases List.mem_cons.mp member with rfl | member
      · exact ⟨thread.index, by simp, callThread⟩
      · rw [indices]
        exact covers.declared other member
    · intro other member
      rcases List.mem_append.mp member with early | late
      · rw [others other (List.mem_append_left _ early)]
        exact covers.program other (List.mem_append_left _ early)
      · rcases List.mem_cons.mp late with rfl | late
        · rw [own, next]
          exact congrArg _ (covers.program ⟨other.index, left⟩ (by simp))
        · rw [others other (List.mem_append_right _ late)]
          exact covers.program other (List.mem_append_right _ (List.mem_cons_of_mem _ late))

theorem covers_of_merges {threads : List Thread} (wellTagged : WellTagged threads)
    {calls : List Call} (merges : Merges (threads.map Thread.calls) calls) :
    Covers threads calls := by
  generalize strandsEq : threads.map Thread.calls = strands at merges
  induction merges generalizing threads with
  | done empty =>
      refine ⟨fun call impossible => absurd impossible List.not_mem_nil, ?_⟩
      intro thread member
      exact (empty _ (by rw [← strandsEq]; exact List.mem_map_of_mem member)).symm
  | pick _later ih =>
      obtain ⟨first, tail, rfl, rfl, tailEq⟩ := List.map_eq_append_iff.mp strandsEq
      obtain ⟨thread, last, rfl, next, rfl⟩ := List.map_eq_cons_iff.mp tailEq
      exact (covers_cons_iff wellTagged next).mpr (ih (wellTagged.rest next) (by simp))

theorem merges_of_covers {threads : List Thread} (wellTagged : WellTagged threads)
    {calls : List Call} (covers : Covers threads calls) :
    Merges (threads.map Thread.calls) calls := by
  induction calls generalizing threads with
  | nil =>
      apply Merges.done
      intro strand member
      obtain ⟨thread, inThreads, rfl⟩ := List.mem_map.mp member
      exact (covers.program thread inThreads).symm
  | cons call calls ih =>
      obtain ⟨index, inIndices, callThread⟩ := covers.declared call List.mem_cons_self
      obtain ⟨thread, inThreads, rfl⟩ := List.mem_map.mp inIndices
      obtain ⟨first, last, rfl⟩ := List.append_of_mem inThreads
      have next := covers.program thread inThreads
      rw [List.filter_cons_of_pos (by rw [callThread]; exact beq_self_eq_true _)] at next
      have rest := ih (wellTagged.rest next.symm) ((covers_cons_iff wellTagged next.symm).mp covers)
      rw [List.map_append, List.map_cons] at rest ⊢
      rw [← next]
      exact rest.pick

/-- Calls that are all on one thread can be interleaved in one way only. -/
theorem covers_iff_of_length_le_one {threads : List Thread} (wellTagged : WellTagged threads)
    (short : threads.length ≤ 1) (calls : List Call) :
    Covers threads calls ↔ calls = threads.flatMap Thread.calls := by
  cases threads with
  | nil =>
      constructor
      · intro covers
        cases calls with
        | nil => rfl
        | cons call calls =>
            obtain ⟨index, impossible, _tag⟩ := covers.declared call List.mem_cons_self
            cases impossible
      · intro none
        rw [none]
        exact ⟨by simp, by simp⟩
  | cons thread others =>
      have none : others = [] := by
        rw [List.length_cons] at short
        exact List.eq_nil_of_length_eq_zero (by omega)
      subst none
      rw [List.flatMap_cons, List.flatMap_nil, List.append_nil]
      constructor
      · intro covers
        have whole := covers.program thread List.mem_cons_self
        rw [List.filter_eq_self.mpr] at whole
        · exact whole
        · intro call member
          obtain ⟨index, inIndices, tag⟩ := covers.declared call member
          rw [List.map_singleton, List.mem_singleton] at inIndices
          rw [tag, inIndices]
          exact beq_self_eq_true _
      · intro same
        subst same
        have tags := wellTagged.tagged thread List.mem_cons_self
        refine ⟨fun call member => ⟨thread.index, by simp, tags call member⟩, ?_⟩
        intro other member
        rw [List.mem_singleton] at member
        subst member
        exact wellTagged.filter_own List.mem_cons_self

namespace Scenario

/-! ### Initial and final threads -/

theorem unique?_eq_some_iff (items : List Nat) (only : Nat) :
    unique? items = some only ↔ items = [only] := by
  unfold unique?
  split
  · simp
  · rename_i several
    constructor
    · intro impossible
      cases impossible
    · intro same
      exact absurd same (several only)

def only? (scenario : Scenario) (side : Nat × Nat → Nat) : Option Nat :=
  if scenario.order.isEmpty then none
  else unique? (scenario.indices.filter
    (fun index => scenario.order.all (fun pair => side pair != index)))

theorem initial?_eq (scenario : Scenario) : scenario.initial? = scenario.only? Prod.snd := rfl

theorem final?_eq (scenario : Scenario) : scenario.final? = scenario.only? Prod.fst := rfl

theorem only?_iff {scenario : Scenario} {side : Nat × Nat → Nat} {index : Nat}
    (found : scenario.only? side = some index) (other : Nat) :
    (other ∈ scenario.indices ∧ ∀ pair ∈ scenario.order, side pair ≠ other) ↔
      other = index := by
  have single : scenario.indices.filter
      (fun index => scenario.order.all (fun pair => side pair != index)) = [index] := by
    unfold only? at found
    split at found
    · cases found
    · exact (unique?_eq_some_iff _ _).mp found
  rw [← List.mem_singleton, ← single, List.mem_filter, List.all_eq_true]
  simp only [bne_iff_ne]

/-! ### Order and stages -/

theorem initial_of_placement {scenario : Scenario} {index : Nat}
    (placed : scenario.placement index = .initial) : scenario.initial? = some index := by
  unfold placement at placed
  split at placed
  · assumption
  · split at placed
    · cases placed
    · cases placed

theorem placement_of_initial {scenario : Scenario} {index : Nat}
    (initial : scenario.initial? = some index) : scenario.placement index = .initial :=
  if_pos initial

theorem final_of_placement {scenario : Scenario} {index : Nat}
    (placed : scenario.placement index = .final) : scenario.final? = some index := by
  unfold placement at placed
  split at placed
  · cases placed
  · split at placed
    · assumption
    · cases placed

theorem placement_of_final {scenario : Scenario} {index : Nat}
    (final : scenario.final? = some index) (other : scenario.initial? ≠ some index) :
    scenario.placement index = .final := by
  unfold placement
  rw [if_neg other, if_pos final]

/-- The pairs of a concurrent thread lead out of the initial thread or into the final one. -/
theorem pairs_of_legal {scenario : Scenario} (legal : scenario.illegal? = none) {index : Nat}
    (declared : index ∈ scenario.indices) (placed : scenario.placement index = .concurrent) :
    (∀ pair ∈ scenario.order, pair.2 = index → scenario.initial? = some pair.1) ∧
    (∀ pair ∈ scenario.order, pair.1 = index → scenario.final? = some pair.2) := by
  have allowed := List.find?_eq_none.mp legal index declared
  simp only [isLegal, placed, bne_self_eq_false, Bool.false_or, Bool.not_eq_true',
    Bool.not_eq_false, Bool.and_eq_true, List.all_eq_true, List.mem_filter, beq_iff_eq, and_imp]
    at allowed
  exact ⟨fun pair member same => (allowed.1 pair member same).symm,
    fun pair member same => (allowed.2 pair member same).symm⟩

theorem stage_lt {scenario : Scenario} (valid : scenario.Valid)
    (legal : scenario.illegal? = none) {pair : Nat × Nat} (member : pair ∈ scenario.order) :
    (scenario.placement pair.1).stage < (scenario.placement pair.2).stage := by
  obtain ⟨firstDeclared, secondDeclared⟩ := valid.declared pair member
  have secondOther : scenario.initial? ≠ some pair.2 := fun initial =>
    ((only?_iff initial pair.2).mpr rfl).2 pair member rfl
  have firstOther : scenario.final? ≠ some pair.1 := fun final =>
    ((only?_iff final pair.1).mpr rfl).2 pair member rfl
  cases first : scenario.placement pair.1 with
  | initial =>
      cases second : scenario.placement pair.2 with
      | initial => exact absurd (initial_of_placement second) secondOther
      | concurrent => exact Nat.zero_lt_one
      | final => exact Nat.zero_lt_two
  | concurrent =>
      have final := (pairs_of_legal legal firstDeclared first).2 pair member rfl
      rw [placement_of_final final secondOther]
      exact Nat.one_lt_two
  | final => exact absurd (final_of_placement first) firstOther

/-! ### Staged words -/

def stageOf (scenario : Scenario) (call : Call) : Nat :=
  (call.thread.map (fun index => (scenario.placement index).stage)).getD 0

def threadsAt (scenario : Scenario) (placement : Placement) : List Thread :=
  scenario.threads.filter (fun thread => scenario.placement thread.index == placement)

theorem Valid.wellTagged {scenario : Scenario} (valid : scenario.Valid) :
    WellTagged scenario.threads :=
  ⟨valid.distinct, valid.tagged⟩

theorem stageOf_thread (scenario : Scenario) {call : Call} {index : Nat}
    (tag : call.thread = some index) :
    scenario.stageOf call = (scenario.placement index).stage := by
  unfold stageOf
  rw [tag]
  rfl

private theorem stageOf_le (scenario : Scenario) (call : Call) : scenario.stageOf call ≤ 2 := by
  unfold stageOf
  cases call.thread with
  | none => exact Nat.zero_le 2
  | some index =>
      rw [Option.map_some, Option.getD_some]
      cases scenario.placement index <;> simp [Placement.stage]

theorem mem_threadsAt (scenario : Scenario) (placement : Placement) (thread : Thread) :
    thread ∈ scenario.threadsAt placement ↔
      thread ∈ scenario.threads ∧ scenario.placement thread.index = placement := by
  unfold threadsAt
  rw [List.mem_filter, beq_iff_eq]

private theorem stageOf_covered {scenario : Scenario} {placement : Placement} {calls : List Call}
    (covers : Covers (scenario.threadsAt placement) calls) {call : Call} (member : call ∈ calls) :
    scenario.stageOf call = placement.stage := by
  obtain ⟨index, inIndices, tag⟩ := covers.declared call member
  obtain ⟨thread, inThreads, rfl⟩ := List.mem_map.mp inIndices
  rw [stageOf_thread scenario tag, ((mem_threadsAt _ _ _).mp inThreads).2]

private theorem covers_stage {scenario : Scenario} {calls : List Call}
    (covers : Covers scenario.threads calls) (placement : Placement) :
    Covers (scenario.threadsAt placement)
      (calls.filter (fun call => scenario.stageOf call == placement.stage)) := by
  constructor
  · intro call member
    obtain ⟨inCalls, staged⟩ := List.mem_filter.mp member
    obtain ⟨index, inIndices, tag⟩ := covers.declared call inCalls
    obtain ⟨thread, inThreads, rfl⟩ := List.mem_map.mp inIndices
    rw [beq_iff_eq, stageOf_thread scenario tag] at staged
    refine ⟨thread.index, List.mem_map_of_mem ?_, tag⟩
    exact (mem_threadsAt _ _ _).mpr ⟨inThreads, Placement.stage_injective staged⟩
  · intro thread member
    obtain ⟨inThreads, placed⟩ := (mem_threadsAt _ _ _).mp member
    rw [List.filter_filter, ← covers.program thread inThreads]
    apply List.filter_congr
    intro call _inCalls
    by_cases tag : call.thread = some thread.index
    · rw [stageOf_thread scenario tag, placed, beq_self_eq_true, Bool.and_true]
    · rw [beq_eq_false_iff_ne.mpr tag, Bool.false_and]

/-- Calls of one stage have no call of a thread of another. -/
theorem filter_covered_eq_nil {scenario : Scenario} {placement : Placement} {calls : List Call}
    (covers : Covers (scenario.threadsAt placement) calls) {thread : Thread}
    (other : scenario.placement thread.index ≠ placement) :
    calls.filter (fun call => call.thread == some thread.index) = [] := by
  rw [List.filter_eq_nil_iff]
  intro call member tag
  have staged := stageOf_covered covers member
  rw [stageOf_thread scenario (eq_of_beq tag)] at staged
  exact other (Placement.stage_injective staged)

private theorem eq_stages_of_sorted (scenario : Scenario) {calls : List Call}
    (sorted : calls.Pairwise (fun earlier later =>
      scenario.stageOf earlier ≤ scenario.stageOf later)) :
    calls = calls.filter (fun call => scenario.stageOf call == 0) ++
      calls.filter (fun call => scenario.stageOf call == 1) ++
      calls.filter (fun call => scenario.stageOf call == 2) := by
  induction calls with
  | nil => rfl
  | cons call calls ih =>
      rw [List.pairwise_cons] at sorted
      have rest := ih sorted.2
      have empty : ∀ stage < scenario.stageOf call,
          calls.filter (fun call => scenario.stageOf call == stage) = [] := by
        intro stage below
        rw [List.filter_eq_nil_iff]
        intro other member same
        have above := sorted.1 other member
        rw [eq_of_beq same] at above
        omega
      have bound := stageOf_le scenario call
      generalize stageEq : scenario.stageOf call = stage at empty bound
      simp only [List.filter_cons, stageEq]
      match stage, bound with
      | 0, _ => simpa using rest
      | 1, _ =>
          rw [empty 0 Nat.zero_lt_one] at rest ⊢
          simpa using rest
      | 2, _ =>
          rw [empty 0 Nat.zero_lt_two, empty 1 Nat.one_lt_two] at rest ⊢
          simpa using rest

private theorem pairwise_covered {scenario : Scenario} {placement : Placement} {calls : List Call}
    (covers : Covers (scenario.threadsAt placement) calls) :
    calls.Pairwise (fun earlier later => scenario.stageOf earlier ≤ scenario.stageOf later) := by
  apply List.pairwise_of_forall_mem_list
  intro earlier earlierMember later laterMember
  rw [stageOf_covered covers earlierMember, stageOf_covered covers laterMember]

private theorem declared_covered {scenario : Scenario} {placement : Placement} {calls : List Call}
    (covers : Covers (scenario.threadsAt placement) calls) :
    ∀ call ∈ calls, ∃ index ∈ scenario.threads.map Thread.index, call.thread = some index := by
  intro call member
  obtain ⟨index, inIndices, tag⟩ := covers.declared call member
  exact ⟨index, (List.filter_sublist.map _).subset inIndices, tag⟩

private theorem covers_stages {scenario : Scenario} {initials merged finals : List Call}
    (first : Covers (scenario.threadsAt .initial) initials)
    (second : Covers (scenario.threadsAt .concurrent) merged)
    (third : Covers (scenario.threadsAt .final) finals) :
    Covers scenario.threads (initials ++ merged ++ finals) := by
  constructor
  · intro call member
    rcases List.mem_append.mp member with member | member
    · rcases List.mem_append.mp member with member | member
      · exact declared_covered first call member
      · exact declared_covered second call member
    · exact declared_covered third call member
  · intro thread member
    rw [List.filter_append, List.filter_append]
    cases placed : scenario.placement thread.index with
    | initial =>
        rw [first.program thread ((mem_threadsAt _ _ _).mpr ⟨member, placed⟩),
          filter_covered_eq_nil second (by rw [placed]; decide),
          filter_covered_eq_nil third (by rw [placed]; decide), List.append_nil,
          List.append_nil]
    | concurrent =>
        rw [second.program thread ((mem_threadsAt _ _ _).mpr ⟨member, placed⟩),
          filter_covered_eq_nil first (by rw [placed]; decide),
          filter_covered_eq_nil third (by rw [placed]; decide), List.append_nil,
          List.nil_append]
    | final =>
        rw [third.program thread ((mem_threadsAt _ _ _).mpr ⟨member, placed⟩),
          filter_covered_eq_nil first (by rw [placed]; decide),
          filter_covered_eq_nil second (by rw [placed]; decide), List.append_nil,
          List.nil_append]

/-- Interleavings stage by stage are the interleavings of all threads that never return to an
earlier stage. -/
theorem covers_staged_iff (scenario : Scenario) (calls : List Call) :
    (∃ initials merged finals, Covers (scenario.threadsAt .initial) initials ∧
      Covers (scenario.threadsAt .concurrent) merged ∧
      Covers (scenario.threadsAt .final) finals ∧ calls = initials ++ merged ++ finals) ↔
    Covers scenario.threads calls ∧ calls.Pairwise (fun earlier later =>
      scenario.stageOf earlier ≤ scenario.stageOf later) := by
  constructor
  · rintro ⟨initials, merged, finals, first, second, third, rfl⟩
    refine ⟨covers_stages first second third, ?_⟩
    rw [List.append_assoc, List.pairwise_append, List.pairwise_append]
    refine ⟨pairwise_covered first, ⟨pairwise_covered second, pairwise_covered third, ?_⟩, ?_⟩
    · intro earlier earlierMember later laterMember
      rw [stageOf_covered second earlierMember, stageOf_covered third laterMember]
      decide
    · intro earlier earlierMember later laterMember
      rw [stageOf_covered first earlierMember]
      exact Nat.zero_le _
  · rintro ⟨covers, sorted⟩
    exact ⟨_, _, _, covers_stage covers .initial, covers_stage covers .concurrent,
      covers_stage covers .final, eq_stages_of_sorted scenario sorted⟩

end Scenario

end Interleave

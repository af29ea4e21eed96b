import Interleave.Proofs.Walks

set_option autoImplicit false

/-! The run of the search. What it has found and what it has still to find make up, at every
step, the same list: the leaves of the empty walk. Every step raises a number that is bounded
for the plan, so the steps that the search is granted are enough. -/

namespace Interleave

namespace Plan

variable (plan : Plan)

def replay : List Nat → List Call
  | [] => []
  | position :: choices =>
      match (Search.body plan position)[choices.count position]? with
      | some call => call :: replay choices
      | none => replay choices

theorem replay_suffix (later choices : List Nat) :
    plan.replay choices <:+ plan.replay (later ++ choices) := by
  induction later with
  | nil => exact List.suffix_refl _
  | cons latest later ih =>
      refine ih.trans ?_
      rw [List.cons_append]
      generalize later ++ choices = word
      rw [replay]
      split
      · exact List.suffix_cons _ _
      · exact List.suffix_refl _

def sequenceOf (choices : List Nat) : CallSequence Call :=
  CallSequence.ofList (plan.replay choices).reverse

/-- The leaves below a walk in the branches from `first` on. -/
def branches (choices : List Nat) (first : Nat) : List (List Nat) :=
  (plan.nexts choices first).flatMap (fun position =>
    plan.leaves (plan.total - (choices.length + 1)) (position :: choices))

/-- The leaves that are left once the branch of the latest choice has been searched, on each
level of the walk. -/
def above : List Nat → List (List Nat)
  | [] => []
  | latest :: choices => plan.branches choices (latest + 1) ++ above choices

/-- A number base above twice every position. -/
def base : Nat := 2 * plan.bodies.size + 2

private theorem base_gt (plan : Plan) : 2 * plan.bodies.size < plan.base := by
  unfold base
  omega

/-- A choice is an odd digit, the place to resume at an even one, and digits that are not yet
chosen are zero. -/
def progress (choices : List Nat) (resume : Nat) : Nat :=
  Nat.ofDigits plan.base (2 * resume :: choices.map (fun position => 2 * position + 1)) *
    plan.base ^ (plan.total - choices.length)

end Plan

namespace Search

variable {plan : Plan}

structure Invariant (plan : Plan) (search : Search) : Prop where
  walk : plan.Walk search.choices
  cursors_size : search.cursors.size = plan.bodies.size
  cursor_eq : ∀ position, search.cursor position = search.choices.count position
  path_eq : search.path = plan.replay search.choices
  resume_le : search.resume ≤ plan.bodies.size
  resume_zero : search.fresh = true → search.resume = 0

def pending (plan : Plan) (search : Search) : List (List Nat) :=
  (if search.fresh = true ∧ plan.nexts search.choices 0 = [] then [search.choices] else []) ++
    (plan.branches search.choices search.resume ++ plan.above search.choices)

theorem start_invariant (plan : Plan) : Invariant plan (start plan) := by
  refine ⟨.start, Array.size_replicate, ?_, rfl, Nat.zero_le _, fun _fresh => rfl⟩
  intro position
  simp only [cursor, start, Array.getD_eq_getD_getElem?, Array.getElem?_replicate,
    List.count_nil]
  split <;> rfl

private theorem start_pending (plan : Plan) :
    (start plan).pending plan = plan.leaves plan.total [] := by
  have leaves := Plan.leaves_eq (Plan.Walk.start : plan.Walk [])
  rw [List.length_nil, Nat.sub_zero] at leaves
  rw [leaves]
  simp [pending, start, Plan.branches, Plan.above]

/-! ### What a step can do -/

theorem finished_iff {search : Search} (holds : Invariant plan search) (position : Nat) :
    finished plan search position = true ↔ plan.Finished search.choices position := by
  unfold finished Plan.Finished Plan.bodyLength
  rw [beq_iff_eq, holds.cursor_eq]

theorem enabled?_eq {search : Search} (holds : Invariant plan search) (position : Nat) :
    enabled? plan search position =
      if plan.Enabled search.choices position then
        (body plan position)[search.choices.count position]? else none := by
  unfold enabled?
  rw [holds.cursor_eq]
  have all : (plan.predecessors.getD position []).all (finished plan search) = true ↔
      ∀ before ∈ plan.predecessors.getD position [], plan.Finished search.choices before := by
    rw [List.all_eq_true]
    exact forall₂_congr (fun before _member => finished_iff holds before)
  cases callAt : (body plan position)[search.choices.count position]? with
  | none => simp
  | some call =>
      have room := (Array.getElem?_eq_some_iff.mp callAt).1
      have enabled : plan.Enabled search.choices position ↔
          (plan.predecessors.getD position []).all (finished plan search) = true := by
        rw [all]
        exact ⟨fun both => both.2, fun free => ⟨room, free⟩⟩
      simp only [enabled]

private theorem next?_eq {search : Search} (holds : Invariant plan search) :
    search.next? plan =
      match plan.nexts search.choices search.resume with
      | [] => none
      | position :: _ =>
          (body plan position)[search.choices.count position]?.map
            (fun call => (position, call)) := by
  unfold next? Plan.nexts
  generalize List.range' search.resume (plan.bodies.size - search.resume) = positions
  induction positions with
  | nil => rfl
  | cons position positions ih =>
      rw [List.findSome?_cons, enabled?_eq holds, List.filter_cons]
      by_cases enabled : plan.Enabled search.choices position
      · have room : search.choices.count position < (body plan position).size := enabled.1
        simp only [enabled, if_true, decide_true, Array.getElem?_eq_getElem room,
          Option.map_some]
      · simp only [enabled, if_false, decide_false, Option.map_none, Bool.false_eq_true]
        exact ih

theorem next?_eq_none_iff {search : Search} (holds : Invariant plan search) :
    search.next? plan = none ↔ plan.nexts search.choices search.resume = [] := by
  rw [next?_eq holds]
  cases nexts : plan.nexts search.choices search.resume with
  | nil => simp
  | cons position rest =>
      have member : position ∈ plan.nexts search.choices search.resume := by
        rw [nexts]
        exact List.mem_cons_self
      have room : search.choices.count position < (body plan position).size :=
        (Plan.mem_nexts.mp member).2.1
      simp [Array.getElem?_eq_getElem room]

/-- The three ways of a step: forward into the first branch, back out of a walk whose branches
have all been searched, or an end. -/
theorem step_cases {search : Search} (holds : Invariant plan search) (limit : Nat) :
    (∃ position call, (∃ rest, plan.nexts search.choices search.resume = position :: rest) ∧
      (body plan position)[search.choices.count position]? = some call ∧
      search.step plan limit = .going (search.advance position call)) ∨
    (plan.nexts search.choices search.resume = [] ∧ search.fresh = true ∧
      limit ≤ search.found.size ∧ search.step plan limit = .stopped (.tooMany limit)) ∨
    (plan.nexts search.choices search.resume = [] ∧
      (search.fresh = true → search.found.size < limit) ∧
      search.step plan limit =
        match (if search.fresh then search.record else search).retreat? with
        | some next => .going next
        | none => .done (if search.fresh then search.record else search).found) := by
  have nextEq := next?_eq holds
  cases nexts : plan.nexts search.choices search.resume with
  | cons position rest =>
      left
      have member : position ∈ plan.nexts search.choices search.resume := by
        rw [nexts]
        exact List.mem_cons_self
      have room : search.choices.count position < (body plan position).size :=
        (Plan.mem_nexts.mp member).2.1
      rw [nexts] at nextEq
      simp only [Array.getElem?_eq_getElem room, Option.map_some] at nextEq
      refine ⟨position, (body plan position)[search.choices.count position],
        ⟨rest, rfl⟩, Array.getElem?_eq_getElem room, ?_⟩
      simp only [step, nextEq]
  | nil =>
      right
      rw [nexts] at nextEq
      simp only at nextEq
      by_cases full : search.fresh = true ∧ limit ≤ search.found.size
      · left
        refine ⟨rfl, full.1, full.2, ?_⟩
        simp [step, nextEq, full.1, full.2]
      · right
        refine ⟨rfl, fun fresh => Nat.lt_of_not_le (fun beyond => full ⟨fresh, beyond⟩), ?_⟩
        have goesOn : (search.fresh && decide (limit ≤ search.found.size)) = false := by
          rw [Bool.and_eq_false_iff]
          by_cases fresh : search.fresh = true
          · right
            exact decide_eq_false (fun beyond => full ⟨fresh, beyond⟩)
          · left
            exact Bool.not_eq_true _ ▸ fresh
        simp only [step, nextEq, goesOn]
        rfl

/-! ### Forward -/

theorem Invariant.advance {search : Search} (holds : Invariant plan search) {position : Nat}
    {call : Call} (enabled : plan.Enabled search.choices position)
    (callAt : (body plan position)[search.choices.count position]? = some call) :
    Invariant plan (search.advance position call) := by
  refine ⟨holds.walk.advance enabled, ?_, ?_, ?_, Nat.zero_le _, fun _fresh => rfl⟩
  · simp only [Search.advance, Array.size_modify, holds.cursors_size]
  · intro other
    have old := holds.cursor_eq other
    simp only [cursor, Array.getD_eq_getD_getElem?] at old
    simp only [cursor, Search.advance, Array.getD_eq_getD_getElem?, Array.getElem?_modify,
      List.count_cons]
    by_cases same : position = other
    · subst same
      have inRange : position < search.cursors.size := by
        rw [holds.cursors_size]
        exact enabled.bounded
      rw [Array.getElem?_eq_getElem inRange, Option.getD_some] at old
      simp [inRange, old]
    · simp [same, old]
  · simp only [Search.advance, Plan.replay, callAt, holds.path_eq]

private theorem pending_advance {search : Search} (holds : Invariant plan search) {position : Nat}
    {rest : List Nat} (call : Call)
    (nexts : plan.nexts search.choices search.resume = position :: rest) :
    (search.advance position call).pending plan = search.pending plan := by
  have member : position ∈ plan.nexts search.choices search.resume := by
    rw [nexts]
    exact List.mem_cons_self
  have enabled := (Plan.mem_nexts.mp member).2
  have leaves := Plan.leaves_eq (holds.walk.advance enabled)
  rw [List.length_cons] at leaves
  have notLeaf : ¬(search.fresh = true ∧ plan.nexts search.choices 0 = []) := by
    rintro ⟨_fresh, none⟩
    exact Plan.maximal_iff.mpr none position enabled
  have branch : plan.branches search.choices search.resume =
      plan.leaves (plan.total - (search.choices.length + 1)) (position :: search.choices) ++
        plan.branches search.choices (position + 1) := by
    simp only [Plan.branches]
    rw [nexts, List.flatMap_cons, Plan.nexts_tail nexts]
  simp only [pending, Search.advance, Plan.above, true_and]
  rw [if_neg notLeaf, List.nil_append, branch, leaves]
  simp only [Plan.branches, List.length_cons, List.append_assoc]

/-! ### Back -/

theorem retreat?_eq_some {search next : Search} (back : search.retreat? = some next) :
    ∃ latest choices, search.choices = latest :: choices ∧
      next = { search with
        cursors := search.cursors.modify latest (· - 1)
        path := search.path.tail
        choices
        resume := latest + 1
        fresh := false } := by
  unfold retreat? at back
  cases choicesAt : search.choices with
  | nil =>
      rw [choicesAt] at back
      cases back
  | cons latest choices =>
      rw [choicesAt] at back
      cases back
      exact ⟨latest, choices, rfl, rfl⟩

private theorem retreat?_eq_none {search : Search} (ended : search.retreat? = none) :
    search.choices = [] := by
  unfold retreat? at ended
  cases choicesAt : search.choices with
  | nil => rfl
  | cons latest choices =>
      rw [choicesAt] at ended
      cases ended

private theorem Invariant.retreat {search next : Search} (holds : Invariant plan search)
    (back : search.retreat? = some next) : Invariant plan next := by
  obtain ⟨latest, choices, choicesAt, rfl⟩ := retreat?_eq_some back
  have walk := holds.walk
  rw [choicesAt] at walk
  have enabled := walk.enabled_of_cons
  refine ⟨Plan.Walk.of_append (show plan.Walk ([latest] ++ choices) from walk), ?_, ?_, ?_,
    enabled.bounded, ?_⟩
  · simp only [Array.size_modify, holds.cursors_size]
  · intro other
    have old := holds.cursor_eq other
    rw [choicesAt, List.count_cons] at old
    simp only [cursor, Array.getD_eq_getD_getElem?] at old
    simp only [cursor, Array.getD_eq_getD_getElem?, Array.getElem?_modify]
    by_cases same : latest = other
    · subst same
      have inRange : latest < search.cursors.size := by
        rw [holds.cursors_size]
        exact enabled.bounded
      rw [Array.getElem?_eq_getElem inRange, Option.getD_some] at old
      simp [inRange, old]
    · simp only [beq_iff_eq, same, if_false, Nat.add_zero] at old
      simp [same, old]
  · have room : choices.count latest < (body plan latest).size := enabled.1
    simp only [holds.path_eq, choicesAt, Plan.replay, Array.getElem?_eq_getElem room,
      List.tail_cons]
  · intro impossible
    cases impossible

/-- Where all branches have been searched, a fresh walk is a leaf itself, and the rest is what
the walk before the latest choice has left. -/
theorem pending_of_nexts_eq_nil {search : Search} (holds : Invariant plan search)
    (nexts : plan.nexts search.choices search.resume = []) :
    search.pending plan =
      (if search.fresh = true then [search.choices] else []) ++ plan.above search.choices := by
  have none : plan.branches search.choices search.resume = [] := by
    simp only [Plan.branches, nexts, List.flatMap_nil]
  rw [pending, none, List.nil_append]
  by_cases fresh : search.fresh = true
  · have zero := holds.resume_zero fresh
    rw [zero] at nexts
    rw [if_pos ⟨fresh, nexts⟩, if_pos fresh]
  · rw [if_neg (fun both => fresh both.1), if_neg fresh]

/-! ### Progress -/

/-- The progress before and after a choice has the digits of the earlier choices in common; what
comes before the choice leaves out one digit more. -/
theorem progress_cons {choices : List Nat} (position resume : Nat)
    (space : choices.length < plan.total) :
    plan.progress (position :: choices) resume =
      (2 * resume + plan.base * (2 * position + 1 +
        plan.base * Nat.ofDigits plan.base (choices.map (fun position => 2 * position + 1)))) *
        plan.base ^ (plan.total - (choices.length + 1)) ∧
    ∀ earlier, plan.progress choices earlier =
      (2 * earlier +
        plan.base * Nat.ofDigits plan.base (choices.map (fun position => 2 * position + 1))) *
        (plan.base ^ (plan.total - (choices.length + 1)) * plan.base) := by
  have exponent : plan.total - choices.length = plan.total - (choices.length + 1) + 1 := by omega
  constructor
  · simp only [Plan.progress, List.map_cons, List.length_cons, Nat.ofDigits_cons]
  · intro earlier
    rw [← pow_succ, ← exponent, Plan.progress, Nat.ofDigits_cons]

private theorem progress_advance {choices : List Nat} {resume position : Nat}
    (above : resume ≤ position) (space : choices.length < plan.total) :
    plan.progress choices resume < plan.progress (position :: choices) 0 := by
  obtain ⟨after, before⟩ := progress_cons position 0 space
  rw [after, before]
  generalize Nat.ofDigits plan.base (choices.map (fun position => 2 * position + 1)) = rest
  have positive : 0 < plan.base := Nat.zero_lt_of_lt plan.base_gt
  have powerPositive : 0 < plan.base ^ (plan.total - (choices.length + 1)) := Nat.pow_pos positive
  generalize plan.base ^ (plan.total - (choices.length + 1)) = power at powerPositive
  calc (2 * resume + plan.base * rest) * (power * plan.base)
      < (2 * position + 1 + plan.base * rest) * (power * plan.base) := by
        apply Nat.mul_lt_mul_of_pos_right _ (Nat.mul_pos powerPositive positive)
        omega
    _ = (2 * 0 + plan.base * (2 * position + 1 + plan.base * rest)) * power := by ring

private theorem progress_retreat {choices : List Nat} {resume latest : Nat}
    (bound : resume ≤ plan.bodies.size) (space : choices.length < plan.total) :
    plan.progress (latest :: choices) resume < plan.progress choices (latest + 1) := by
  obtain ⟨before, after⟩ := progress_cons latest resume space
  rw [before, after]
  generalize Nat.ofDigits plan.base (choices.map (fun position => 2 * position + 1)) = rest
  have above := plan.base_gt
  have powerPositive : 0 < plan.base ^ (plan.total - (choices.length + 1)) :=
    Nat.pow_pos (Nat.zero_lt_of_lt above)
  generalize plan.base ^ (plan.total - (choices.length + 1)) = power at powerPositive
  calc (2 * resume + plan.base * (2 * latest + 1 + plan.base * rest)) * power
      < (plan.base + plan.base * (2 * latest + 1 + plan.base * rest)) * power := by
        apply Nat.mul_lt_mul_of_pos_right _ powerPositive
        omega
    _ = (2 * (latest + 1) + plan.base * rest) * (power * plan.base) := by ring

theorem progress_lt {choices : List Nat} {resume : Nat} (walk : plan.Walk choices)
    (bound : resume ≤ plan.bodies.size) :
    plan.progress choices resume < plan.base ^ (plan.total + 1) := by
  have above : 1 < plan.base := by
    unfold Plan.base
    omega
  have small : Nat.ofDigits plan.base
      (2 * resume :: choices.map (fun position => 2 * position + 1)) <
        plan.base ^ (choices.length + 1) := by
    have bounded := Nat.ofDigits_lt_base_pow_length
      (l := 2 * resume :: choices.map (fun position => 2 * position + 1)) above (by
        intro digit member
        rcases List.mem_cons.mp member with rfl | later
        · unfold Plan.base
          omega
        · obtain ⟨position, chosen, rfl⟩ := List.mem_map.mp later
          have inRange := walk.bounded position chosen
          unfold Plan.base
          omega)
    rw [List.length_cons, List.length_map] at bounded
    exact bounded
  have length := walk.length_le
  have exponent : plan.total + 1 = choices.length + 1 + (plan.total - choices.length) := by omega
  rw [exponent, pow_add]
  exact Nat.mul_lt_mul_of_pos_right small (Nat.pow_pos (by omega))

/-! ### Whole steps -/

/-- What has been found, and after it what is still to be found. -/
def account (plan : Plan) (search : Search) : List (CallSequence Call) :=
  search.found.toList ++ (search.pending plan).map plan.sequenceOf

/-- What holds after a step that goes on. -/
structure Follows (plan : Plan) (limit : Nat) (search next : Search) : Prop where
  invariant : Invariant plan next
  account_eq : next.account plan = search.account plan
  within : search.found.size ≤ limit → next.found.size ≤ limit
  progress_lt : plan.progress search.choices search.resume <
    plan.progress next.choices next.resume

/-- A state after its path has been kept where that is due: nothing but what has been found may
have changed. -/
structure Kept (plan : Plan) (limit : Nat) (search kept : Search) : Prop where
  choices_eq : kept.choices = search.choices
  invariant : Invariant plan kept
  account_eq : kept.found.toList ++ (plan.above search.choices).map plan.sequenceOf =
    search.account plan
  within : search.found.size ≤ limit → kept.found.size ≤ limit

private theorem kept_of_nexts_eq_nil {search : Search} {limit : Nat} (holds : Invariant plan search)
    (nexts : plan.nexts search.choices search.resume = [])
    (space : search.fresh = true → search.found.size < limit) :
    Kept plan limit search (if search.fresh then search.record else search) := by
  have accounted := pending_of_nexts_eq_nil holds nexts
  by_cases fresh : search.fresh = true
  · rw [if_pos fresh]
    refine ⟨rfl, ?_, ?_, ?_⟩
    · exact ⟨holds.walk, holds.cursors_size, holds.cursor_eq, holds.path_eq, holds.resume_le,
        holds.resume_zero⟩
    · rw [account, accounted, if_pos fresh, List.map_append, List.map_singleton,
        ← List.append_assoc]
      simp only [record, Array.toList_push, holds.path_eq, Plan.sequenceOf]
    · intro _within
      simp only [record, Array.size_push]
      exact space fresh
  · rw [if_neg fresh]
    refine ⟨rfl, holds, ?_, id⟩
    rw [account, accounted, if_neg fresh, List.nil_append]

/-- A step that goes on enters the first branch that is left, or goes back from a walk that has
none left. -/
theorem going_cases {search next : Search} {limit : Nat} (holds : Invariant plan search)
    (stepped : search.step plan limit = .going next) :
    (∃ position call rest, plan.nexts search.choices search.resume = position :: rest ∧
      (body plan position)[search.choices.count position]? = some call ∧
      next = search.advance position call) ∨
    (plan.nexts search.choices search.resume = [] ∧
      ∃ kept latest, Kept plan limit search kept ∧ kept.retreat? = some next ∧
        search.choices = latest :: next.choices ∧ next.resume = latest + 1 ∧
        next.fresh = false ∧ next.found = kept.found) := by
  rcases step_cases holds limit with
    ⟨position, call, ⟨rest, nexts⟩, callAt, went⟩ | ⟨_nexts, _fresh, _beyond, went⟩ |
      ⟨nexts, space, went⟩
  · rw [went] at stepped
    cases stepped
    exact Or.inl ⟨position, call, rest, nexts, callAt, rfl⟩
  · rw [went] at stepped
    cases stepped
  · have keeps := kept_of_nexts_eq_nil holds nexts space
    rw [went] at stepped
    split at stepped
    · rename_i previous back
      cases stepped
      obtain ⟨latest, choices, choicesAt, rfl⟩ := retreat?_eq_some back
      rw [keeps.choices_eq] at choicesAt
      exact Or.inr ⟨nexts, _, latest, keeps, back, choicesAt, rfl, rfl, rfl⟩
    · cases stepped

theorem done_cases {search : Search} {limit : Nat} {found : Array (CallSequence Call)}
    (holds : Invariant plan search) (stepped : search.step plan limit = .done found) :
    plan.nexts search.choices search.resume = [] ∧ search.choices = [] ∧
      ∃ kept, Kept plan limit search kept ∧ kept.found = found := by
  rcases step_cases holds limit with
    ⟨_position, _call, _first, _callAt, went⟩ | ⟨_nexts, _fresh, _beyond, went⟩ |
      ⟨nexts, space, went⟩
  · rw [went] at stepped
    cases stepped
  · rw [went] at stepped
    cases stepped
  · have keeps := kept_of_nexts_eq_nil holds nexts space
    rw [went] at stepped
    split at stepped
    · cases stepped
    · rename_i ended
      cases stepped
      exact ⟨nexts, keeps.choices_eq ▸ retreat?_eq_none ended, _, keeps, rfl⟩

theorem follows_of_going {search next : Search} {limit : Nat} (holds : Invariant plan search)
    (stepped : search.step plan limit = .going next) : Follows plan limit search next := by
  rcases going_cases holds stepped with
    ⟨position, call, rest, nexts, callAt, rfl⟩ |
      ⟨_nexts, kept, latest, keeps, back, choicesAt, nextResume, nextFresh, nextFound⟩
  · have member : position ∈ plan.nexts search.choices search.resume := by
      rw [nexts]
      exact List.mem_cons_self
    obtain ⟨above, enabled⟩ := Plan.mem_nexts.mp member
    refine ⟨holds.advance enabled callAt, ?_, id,
      progress_advance above (holds.walk.length_lt enabled)⟩
    rw [account, pending_advance holds call nexts]
    rfl
  · have walk := holds.walk
    have accounted := keeps.account_eq
    rw [choicesAt] at walk accounted
    refine ⟨keeps.invariant.retreat back, ?_, ?_, ?_⟩
    · rw [← accounted, account, nextFound, pending, nextFresh, nextResume, Plan.above]
      simp
    · rw [nextFound]
      exact keeps.within
    · rw [choicesAt, nextResume]
      exact progress_retreat holds.resume_le walk.length_le

private theorem account_of_done {search : Search} {limit : Nat} {found : Array (CallSequence Call)}
    (holds : Invariant plan search) (stepped : search.step plan limit = .done found) :
    found.toList = search.account plan ∧
      (search.found.size ≤ limit → found.size ≤ limit) := by
  obtain ⟨_nexts, empty, kept, keeps, rfl⟩ := done_cases holds stepped
  have accounted := keeps.account_eq
  rw [empty, Plan.above, List.map_nil, List.append_nil] at accounted
  exact ⟨accounted, keeps.within⟩

private theorem account_of_stopped {search : Search} {limit : Nat} {error : LinearizationError}
    (holds : Invariant plan search) (stepped : search.step plan limit = .stopped error) :
    error = .tooMany limit ∧ limit < (search.account plan).length := by
  rcases step_cases holds limit with
    ⟨_position, _call, _first, _callAt, went⟩ | ⟨nexts, fresh, beyond, went⟩ |
      ⟨_nexts, _space, went⟩
  · rw [went] at stepped
    cases stepped
  · rw [went] at stepped
    cases stepped
    refine ⟨rfl, ?_⟩
    rw [account, pending_of_nexts_eq_nil holds nexts, if_pos fresh]
    simp only [List.length_append, List.map_append, List.map_cons, List.length_cons,
      Array.length_toList]
    omega
  · rw [went] at stepped
    split at stepped <;> cases stepped

/-! ### Runs -/

/-- The states that the search comes to from its start, whatever steps it is granted. -/
inductive Reached (plan : Plan) (limit : Nat) : Search → Prop where
  | start : Reached plan limit (Search.start plan)
  | step {search next : Search} (earlier : Reached plan limit search)
      (stepped : search.step plan limit = .going next) : Reached plan limit next

theorem Reached.invariant {limit : Nat} {search : Search} (reached : Reached plan limit search) :
    Invariant plan search := by
  induction reached with
  | start => exact start_invariant plan
  | step _earlier stepped holds => exact (follows_of_going holds stepped).invariant

/-- With the steps that its progress still needs, a search ends with all leaves, or stops
because there are more of them than the limit. -/
theorem run_eq (limit : Nat) (all : List (CallSequence Call)) (steps : Nat) (search : Search)
    (holds : Invariant plan search) (accounted : search.account plan = all)
    (within : search.found.size ≤ limit)
    (enough : plan.base ^ (plan.total + 1) ≤
      plan.progress search.choices search.resume + steps) :
    run plan limit steps search =
      if all.length ≤ limit then .ok all.toArray else .error (.tooMany limit) := by
  induction steps generalizing search with
  | zero =>
      have short := progress_lt holds.walk holds.resume_le
      omega
  | succ steps ih =>
      unfold run
      cases stepped : search.step plan limit with
      | going next =>
          have follows := follows_of_going holds stepped
          have further := follows.progress_lt
          exact ih next follows.invariant (follows.account_eq.trans accounted)
            (follows.within within) (by omega)
      | done found =>
          obtain ⟨complete, few⟩ := account_of_done holds stepped
          have count := few within
          rw [← Array.length_toList, complete, accounted] at count
          rw [if_pos count, ← accounted, ← complete, Array.toArray_toList]
      | stopped error =>
          obtain ⟨rfl, many⟩ := account_of_stopped holds stepped
          rw [accounted] at many
          rw [if_neg (by omega)]

end Search

/-- The linearizations of any scenario, valid or not: the calls of all maximal walks, unless
there are more of them than the limit. -/
theorem Scenario.linearizations_eq (scenario : Scenario) (limit : Nat) :
    scenario.linearizations limit =
      let words := (Plan.ofScenario scenario).leaves (Plan.ofScenario scenario).total []
      if words.length ≤ limit then .ok (words.map (Plan.ofScenario scenario).sequenceOf)
      else .error (.tooMany limit) := by
  set plan := Plan.ofScenario scenario
  set words := plan.leaves plan.total []
  have ran := Search.run_eq limit (words.map plan.sequenceOf) (Search.stepBound plan)
    (Search.start plan) (Search.start_invariant plan)
    (by
      rw [Search.account, Search.start_pending]
      rfl)
    (Nat.zero_le _) (by
      unfold Search.stepBound
      rw [Array.size_flatten]
      exact Nat.le_add_left _ _)
  unfold linearizations
  change (Search.run plan limit (Search.stepBound plan) (Search.start plan)).map Array.toList = _
  rw [ran, List.length_map]
  by_cases fits : words.length ≤ limit
  · simp only [if_pos fits, Except.map]
  · simp only [if_neg fits, Except.map]

end Interleave

import Interleave.Proofs.Cycles

set_option autoImplicit false

/-! The states of a sweep that looks for cycles. What a position still waits for is counted
exactly, so no count falls below zero and no position becomes ready twice; and what is left in the
end still waits for something. -/

namespace Interleave.Scenario

namespace Sweep

/-- The states that a sweep comes to before each round, with the positions it has taken so far,
latest first. -/
inductive Reached (successors : Array (List Nat)) : List Nat → Sweep → Prop where
  | start : Reached successors [] (Sweep.start successors)
  | take {gone : List Nat} {sweep next : Sweep} {position : Nat} {ready : List Nat}
      (earlier : Reached successors gone sweep) (readyAt : sweep.ready = position :: ready)
      (stepped : sweep.step? successors = some next) :
      Reached successors (position :: gone) next

/-- Inside a round: the first ready position has been taken, and some of its row released. -/
def within (sweep : Sweep) (ready released : List Nat) : Sweep :=
  released.foldl release { sweep with ready, taken := sweep.taken + 1 }

variable {successors : Array (List Nat)} {gone : List Nat} {sweep : Sweep}

theorem Reached.invariant (proper : Proper successors) (reached : Reached successors gone sweep) :
    Invariant successors gone sweep := by
  induction reached with
  | start => exact start_invariant successors proper
  | take _earlier readyAt stepped holds =>
      obtain ⟨position, ready, also, rfl⟩ := step?_eq_some_iff.mp stepped
      rw [readyAt] at also
      cases also
      exact holds.take proper readyAt

private theorem Reached.exists_run (reached : Reached successors gone sweep) (rounds : Nat) :
    ∃ taken, Reached successors taken (run successors rounds sweep) := by
  induction rounds generalizing gone sweep with
  | zero => exact ⟨gone, reached⟩
  | succ rounds ih =>
      unfold run
      cases stepped : sweep.step? successors with
      | none => exact ⟨gone, reached⟩
      | some next =>
          obtain ⟨position, ready, readyAt, _⟩ := step?_eq_some_iff.mp stepped
          exact ih (.take reached readyAt stepped)

private theorem exists_reached_finish (successors : Array (List Nat)) :
    ∃ gone, Reached successors gone (finish successors) :=
  (Reached.start : Reached successors [] _).exists_run successors.size

/-! ### What a state says -/

theorem Taken.length_le (taken : Taken successors gone) : gone.length ≤ successors.size := by
  rw [← List.toFinset_card_of_nodup taken.nodup, ← Finset.card_range successors.size]
  apply Finset.card_le_card
  intro position member
  exact Finset.mem_range.mpr (taken.bounded position (List.mem_toFinset.mp member))

/-- Those taken and those ready have become ready in this order, each once. -/
theorem Invariant.entered_nodup (holds : Invariant successors gone sweep) :
    (gone.reverse ++ sweep.ready).Nodup := by
  rw [List.nodup_append]
  refine ⟨List.nodup_reverse.mpr holds.taken.nodup, holds.ready_nodup, ?_⟩
  rintro position taken other isReady rfl
  exact ((holds.mem_ready position).mp isReady).2.1 (List.mem_reverse.mp taken)

/-- The entry of the row that is released next still waits, and has not been ready before. -/
theorem Invariant.within_row (proper : Proper successors)
    (holds : Invariant successors gone sweep) {position entry : Nat}
    {ready earlier later : List Nat} (readyAt : sweep.ready = position :: ready)
    (row : successors.getD position [] = earlier ++ entry :: later) :
    entry < (sweep.within ready earlier).waiting.size ∧
    0 < (sweep.within ready earlier).waiting.getD entry 0 ∧
    entry ∉ position :: gone ∧ entry ∉ (sweep.within ready earlier).ready := by
  have inRow : entry ∈ successors.getD position [] := by
    rw [row]
    exact List.mem_append_right _ List.mem_cons_self
  have inRange := proper.bounded position entry inRow
  obtain ⟨waits, fresh, notReady⟩ := holds.waited readyAt inRow
  have distinct := proper.nodup position
  rw [row, List.nodup_append] at distinct
  have notEarlier : entry ∉ earlier := fun member =>
    distinct.2.2 entry member entry List.mem_cons_self rfl
  obtain ⟨_, size, waiting, readyEq⟩ := release_fold earlier
    { sweep with ready, taken := sweep.taken + 1 } distinct.1
    (by
      intro other member
      simp only [holds.waiting_size]
      apply proper.bounded position other
      rw [row]
      exact List.mem_append_left _ member)
  unfold within
  refine ⟨?_, ?_, fresh, ?_⟩
  · rw [size]
    simp only [holds.waiting_size]
    exact inRange
  · rw [waiting entry, if_neg notEarlier, Nat.sub_zero]
    simp only [holds.waiting_eq entry inRange]
    exact Finset.card_pos.mpr ⟨position, waits⟩
  · rw [readyEq, List.mem_append, not_or]
    exact ⟨notReady, fun member => notEarlier (List.mem_filter.mp member).1⟩

theorem Invariant.exists_waiting (holds : Invariant successors gone sweep)
    (stopped : sweep.ready = []) (short : sweep.taken < successors.size) :
    ∃ position < successors.size, 0 < sweep.waiting.getD position 0 := by
  by_contra none
  push Not at none
  have all : Finset.range successors.size ⊆ gone.toFinset := by
    intro position member
    have bound := Finset.mem_range.mp member
    have free := Nat.le_zero.mp (none position bound)
    rw [holds.waiting_eq position bound, Finset.card_eq_zero,
      holds.pending_eq_empty_iff stopped bound] at free
    exact List.mem_toFinset.mpr free
  have count := Finset.card_le_card all
  rw [Finset.card_range, List.toFinset_card_of_nodup holds.taken.nodup, ← holds.taken_eq] at count
  omega

end Sweep

/-! ### Scenarios -/

def predecessorsBut (scenario : Scenario) (gone : List Nat) (position : Nat) : Set Nat :=
  {before | before ∉ gone ∧ ∃ pair ∈ scenario.order,
    scenario.indices[before]? = some pair.1 ∧ scenario.indices[position]? = some pair.2}

variable {scenario : Scenario}

private theorem coe_pending (distinct : scenario.indices.Nodup) (gone : List Nat) (position : Nat) :
    (Sweep.pending scenario.successors gone position : Set Nat) =
      scenario.predecessorsBut gone position := by
  ext before
  have edge := edge_iff distinct before position
  unfold Sweep.Edge at edge
  rw [Finset.mem_coe, Sweep.mem_pending, predecessorsBut, Set.mem_ofPred_eq, ← edge]
  tauto

private theorem checkAcyclic_of_waiting {thread : Thread} {position : Nat}
    (short : (Sweep.finish scenario.successors).taken < scenario.threads.length)
    (first : (List.range scenario.threads.length).find? (fun position =>
      0 < (Sweep.finish scenario.successors).waiting.getD position 0) = some position)
    (threadAt : scenario.threads[position]? = some thread) :
    scenario.checkAcyclic = .error (.cyclicOrder thread.index) := by
  unfold checkAcyclic
  simp only [if_neg (Nat.ne_of_lt short), first, Option.bind_some, threadAt, Option.map_some,
    Option.getD_some]

/-- Before each round of the sweep, the count of a position is the number of its predecessors that
have not been taken, and all that have become ready have done so once. In a round, each entry of
the row still waits when it is released, and has not been ready before. The sweep ends, with no
more positions taken than there are. If it has taken less, it finds a thread that still waits, and
reports that thread. -/
theorem sweep_counts (distinct : scenario.indices.Nodup) :
    (∀ gone sweep, Sweep.Reached scenario.successors gone sweep →
      (∀ position < scenario.threads.length,
        sweep.waiting.getD position 0 = (scenario.predecessorsBut gone position).ncard) ∧
      (gone.reverse ++ sweep.ready).Nodup ∧
      sweep.taken = gone.length ∧ gone.length ≤ scenario.threads.length ∧
      ∀ position ready, sweep.ready = position :: ready →
        ∀ earlier entry later,
          scenario.successors.getD position [] = earlier ++ entry :: later →
          entry < (sweep.within ready earlier).waiting.size ∧
          0 < (sweep.within ready earlier).waiting.getD entry 0 ∧
          entry ∉ position :: gone ∧ entry ∉ (sweep.within ready earlier).ready) ∧
    (∃ gone, Sweep.Reached scenario.successors gone (Sweep.finish scenario.successors) ∧
      (Sweep.finish scenario.successors).ready = [] ∧
      (Sweep.finish scenario.successors).taken ≤ scenario.threads.length) ∧
    ((Sweep.finish scenario.successors).taken < scenario.threads.length →
      ∃ position thread,
        (List.range scenario.threads.length).find? (fun position =>
          0 < (Sweep.finish scenario.successors).waiting.getD position 0) = some position ∧
        scenario.threads[position]? = some thread ∧
        scenario.checkAcyclic = .error (.cyclicOrder thread.index)) := by
  have proper := successors_proper scenario distinct
  have size := successors_size scenario
  obtain ⟨gone, reached⟩ := Sweep.exists_reached_finish scenario.successors
  have holds := reached.invariant proper
  obtain ⟨_, _, stopped⟩ := Sweep.finish_invariant scenario.successors proper
  refine ⟨?_, ⟨gone, reached, stopped, ?_⟩, ?_⟩
  · intro gone sweep reached
    have holds := reached.invariant proper
    refine ⟨?_, holds.entered_nodup, holds.taken_eq, size ▸ holds.taken.length_le, ?_⟩
    · intro position bound
      rw [holds.waiting_eq position (size ▸ bound), ← coe_pending distinct, Set.ncard_coe_finset]
    · intro position ready readyAt earlier entry later row
      exact holds.within_row proper readyAt row
  · rw [← size, holds.taken_eq]
    exact holds.taken.length_le
  · intro short
    obtain ⟨other, otherBound, waits⟩ := holds.exists_waiting stopped
      (by rw [size]; exact short)
    have found : ((List.range scenario.threads.length).find? (fun position =>
        0 < (Sweep.finish scenario.successors).waiting.getD position 0)).isSome = true :=
      List.find?_isSome.mpr
        ⟨other, List.mem_range.mpr (size ▸ otherBound), decide_eq_true waits⟩
    obtain ⟨position, first⟩ := Option.isSome_iff_exists.mp found
    have bound := List.mem_range.mp (List.mem_of_find?_eq_some first)
    have threadAt := List.getElem?_eq_getElem bound
    exact ⟨position, _, first, threadAt, checkAcyclic_of_waiting short first threadAt⟩

/-- A pair given twice, a thread ordered before itself, a thread that is not declared, and one
that the order leaves alone. -/
def knottedScenario : Scenario :=
  { Scenario.empty with
    threads := [⟨3, []⟩, ⟨5, []⟩, ⟨1, []⟩, ⟨4, []⟩]
    order := [(3, 5), (1, 1), (9, 3), (3, 5)] }

/-- The first round takes the first thread and releases the second, which waits for it once. The
thread ordered before itself is left. -/
theorem sweep_counts_knotted :
    knottedScenario.indices.Nodup ∧
    Sweep.Reached knottedScenario.successors [] (Sweep.start knottedScenario.successors) ∧
    (Sweep.start knottedScenario.successors).ready = [0, 3] ∧
    (knottedScenario.predecessorsBut [] 1).ncard = 1 ∧
    knottedScenario.successors.getD 0 [] = [1] ∧
    0 < ((Sweep.start knottedScenario.successors).within [3] []).waiting.getD 1 0 ∧
    (Sweep.finish knottedScenario.successors).taken = 3 ∧
    ∃ thread ∈ knottedScenario.threads,
      knottedScenario.checkAcyclic = .error (.cyclicOrder thread.index) := by
  have distinct : knottedScenario.indices.Nodup := by decide
  have three : (Sweep.finish knottedScenario.successors).taken = 3 := by rfl
  obtain ⟨states, _, stuck⟩ := sweep_counts distinct
  obtain ⟨counts, _, _, _, rows⟩ := states [] _ .start
  obtain ⟨_, thread, _, threadAt, refused⟩ := stuck (by rw [three]; decide)
  refine ⟨distinct, .start, by rfl, ?_, by rfl, (rows 0 [3] (by rfl) [] 1 [] (by rfl)).2.1, three,
    thread, List.mem_of_getElem? threadAt, refused⟩
  exact (counts 1 (by decide)).symm

end Interleave.Scenario

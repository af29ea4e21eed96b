import Interleave.Proofs.Positions

set_option autoImplicit false

/-! Taking threads away. The positions taken so far, latest first, determine the whole state of
a sweep: what each position waits for, and which positions are ready. A sweep that takes every
position numbers them so that each has a greater number than those it waits for. -/

namespace Interleave.Scenario.Sweep

/-- A table of rows without repetition whose entries are rows themselves. -/
structure Proper (successors : Array (List Nat)) : Prop where
  nodup : ∀ position, (successors.getD position []).Nodup
  bounded : ∀ position, ∀ entry ∈ successors.getD position [], entry < successors.size

/-- The predecessors of a position that have not been taken. -/
def pending (successors : Array (List Nat)) (gone : List Nat) (position : Nat) : Finset Nat :=
  (Finset.range successors.size).filter
    (fun before => before ∉ gone ∧ position ∈ successors.getD before [])

theorem mem_pending (successors : Array (List Nat)) (gone : List Nat) (position before : Nat) :
    before ∈ pending successors gone position ↔
      before < successors.size ∧ before ∉ gone ∧ position ∈ successors.getD before [] := by
  rw [pending, Finset.mem_filter, Finset.mem_range]

/-- Orders of taking, latest first: each position goes when none of its predecessors is left. -/
inductive Taken (successors : Array (List Nat)) : List Nat → Prop where
  | none : Taken successors []
  | take {gone : List Nat} {position : Nat} (earlier : Taken successors gone)
      (bound : position < successors.size) (fresh : position ∉ gone)
      (free : pending successors gone position = ∅) : Taken successors (position :: gone)

theorem Taken.nodup {successors : Array (List Nat)} {gone : List Nat}
    (taken : Taken successors gone) : gone.Nodup := by
  induction taken with
  | none => exact List.nodup_nil
  | take _earlier _bound fresh _free ih => exact List.nodup_cons.mpr ⟨fresh, ih⟩

theorem Taken.bounded {successors : Array (List Nat)} {gone : List Nat}
    (taken : Taken successors gone) : ∀ position ∈ gone, position < successors.size := by
  induction taken with
  | none =>
      intro position impossible
      cases impossible
  | take _earlier bound _fresh _free ih =>
      intro position member
      rcases List.mem_cons.mp member with rfl | later
      · exact bound
      · exact ih position later

theorem Taken.mem_of_size_le {successors : Array (List Nat)} {gone : List Nat}
    (taken : Taken successors gone) (all : successors.size ≤ gone.length) {position : Nat}
    (bound : position < successors.size) : position ∈ gone := by
  have full : gone.toFinset = Finset.range successors.size := by
    apply Finset.eq_of_subset_of_card_le
    · intro other member
      exact Finset.mem_range.mpr (taken.bounded other (List.mem_toFinset.mp member))
    · rw [Finset.card_range, List.toFinset_card_of_nodup taken.nodup]
      exact all
  rw [← List.mem_toFinset, full]
  exact Finset.mem_range.mpr bound

theorem Taken.predecessor_mem {successors : Array (List Nat)} {gone : List Nat}
    (taken : Taken successors gone) {position before : Nat} (member : position ∈ gone)
    (bound : before < successors.size) (edge : position ∈ successors.getD before []) :
    before ∈ gone := by
  induction taken with
  | none => cases member
  | @take gone taken _earlier _bound _fresh free ih =>
      rcases List.mem_cons.mp member with rfl | later
      · by_contra missing
        have present : before ∈ pending successors gone position :=
          (mem_pending _ _ _ _).mpr
            ⟨bound, fun inside => missing (List.mem_cons_of_mem _ inside), edge⟩
        rw [free] at present
        exact absurd present (Finset.notMem_empty before)
      · exact List.mem_cons_of_mem _ (ih later)

/-- The number of positions taken before a position ranks it above its predecessors. -/
theorem Taken.exists_rank {successors : Array (List Nat)} {gone : List Nat}
    (taken : Taken successors gone) :
    ∃ rank : Nat → Nat, (∀ position ∈ gone, rank position < gone.length) ∧
      ∀ position ∈ gone, ∀ before < successors.size,
        position ∈ successors.getD before [] → rank before < rank position := by
  induction taken with
  | none =>
      refine ⟨fun _ => 0, ?_, ?_⟩ <;>
      · intro position impossible
        cases impossible
  | @take gone latest earlier bound fresh free ih =>
      obtain ⟨rank, below, increasing⟩ := ih
      have old : ∀ position ∈ gone, Function.update rank latest gone.length position =
          rank position := by
        intro position member
        apply Function.update_of_ne
        intro same
        rw [same] at member
        exact fresh member
      refine ⟨Function.update rank latest gone.length, ?_, ?_⟩
      · intro position member
        rw [List.length_cons]
        rcases List.mem_cons.mp member with rfl | later
        · rw [Function.update_self]
          omega
        · rw [old position later]
          exact (below position later).trans (Nat.lt_succ_self _)
      · intro position member before inRange edge
        have taken : Taken successors (latest :: gone) := .take earlier bound fresh free
        rcases List.mem_cons.mp member with rfl | later
        · have inside : before ∈ gone := by
            by_contra missing
            have present := (mem_pending successors gone position before).mpr
              ⟨inRange, missing, edge⟩
            rw [free] at present
            exact absurd present (Finset.notMem_empty before)
          rw [old before inside, Function.update_self]
          exact below before inside
        · have inside := earlier.predecessor_mem later inRange edge
          rw [old before inside, old position later]
          exact increasing position later before inRange edge

/-! ### One step -/

/-- The state of a sweep that has taken these positions. -/
structure Invariant (successors : Array (List Nat)) (gone : List Nat) (sweep : Sweep) :
    Prop where
  taken : Taken successors gone
  taken_eq : sweep.taken = gone.length
  waiting_size : sweep.waiting.size = successors.size
  waiting_eq : ∀ position < successors.size,
    sweep.waiting.getD position 0 = (pending successors gone position).card
  ready_nodup : sweep.ready.Nodup
  mem_ready : ∀ position, position ∈ sweep.ready ↔
    position < successors.size ∧ position ∉ gone ∧ pending successors gone position = ∅

private theorem release_size (sweep : Sweep) (released : Nat) :
    (release sweep released).waiting.size = sweep.waiting.size := by
  simp only [release, Array.size_setIfInBounds]

private theorem release_waiting (sweep : Sweep) {released : Nat}
    (bound : released < sweep.waiting.size) (position : Nat) :
    (release sweep released).waiting.getD position 0 =
      if released = position then sweep.waiting.getD released 0 - 1
      else sweep.waiting.getD position 0 := by
  simp only [release, Array.getD_eq_getD_getElem?, Array.getElem?_setIfInBounds]
  by_cases same : released = position
  · subst same
    simp [bound]
  · simp [same]

private theorem release_ready (sweep : Sweep) (released : Nat) :
    (release sweep released).ready =
      if sweep.waiting.getD released 0 - 1 = 0 then sweep.ready ++ [released]
      else sweep.ready :=
  rfl

/-- Releasing each entry of a row once lowers its count by one and makes it ready at zero. -/
theorem release_fold (row : List Nat) (sweep : Sweep) (distinct : row.Nodup)
    (bounded : ∀ entry ∈ row, entry < sweep.waiting.size) :
    (row.foldl release sweep).taken = sweep.taken ∧
    (row.foldl release sweep).waiting.size = sweep.waiting.size ∧
    (∀ position, (row.foldl release sweep).waiting.getD position 0 =
      sweep.waiting.getD position 0 - (if position ∈ row then 1 else 0)) ∧
    (row.foldl release sweep).ready = sweep.ready ++
      row.filter (fun entry => sweep.waiting.getD entry 0 - 1 = 0) := by
  induction row generalizing sweep with
  | nil => simp
  | cons head tail ih =>
      rw [List.nodup_cons] at distinct
      have counts := release_waiting sweep (bounded head List.mem_cons_self)
      obtain ⟨taken, sizes, waiting, ready⟩ := ih (release sweep head) distinct.2
        (by
          intro entry member
          rw [release_size]
          exact bounded entry (List.mem_cons_of_mem head member))
      refine ⟨taken, sizes.trans (release_size sweep head), ?_, ?_⟩
      · intro position
        rw [List.foldl_cons, waiting position, counts position]
        by_cases same : head = position
        · subst same
          simp [distinct.1]
        · have notHead : position ≠ head := fun equal => same equal.symm
          simp [same, notHead]
      · have unchanged : tail.filter (fun entry =>
            (release sweep head).waiting.getD entry 0 - 1 = 0) =
              tail.filter (fun entry => sweep.waiting.getD entry 0 - 1 = 0) := by
          apply List.filter_congr
          intro entry member
          have different : head ≠ entry := by
            rintro rfl
            exact distinct.1 member
          rw [counts entry, if_neg different]
        rw [List.foldl_cons, ready, unchanged, release_ready, List.filter_cons]
        by_cases last : sweep.waiting.getD head 0 - 1 = 0
        · rw [if_pos last, if_pos (decide_eq_true last), List.append_assoc,
            List.singleton_append]
        · rw [if_neg last, if_neg (by simpa using last)]

theorem pending_cons (successors : Array (List Nat)) (gone : List Nat) (taken position : Nat) :
    pending successors (taken :: gone) position =
      (pending successors gone position).erase taken := by
  ext before
  simp only [mem_pending, Finset.mem_erase, List.mem_cons, not_or]
  tauto

section

variable {successors : Array (List Nat)} {gone : List Nat} {sweep : Sweep} {position : Nat}
  {ready : List Nat}

private theorem Invariant.ready_head (holds : Invariant successors gone sweep)
    (readyAt : sweep.ready = position :: ready) :
    position < successors.size ∧ position ∉ gone ∧ pending successors gone position = ∅ :=
  (holds.mem_ready position).mp (by rw [readyAt]; exact List.mem_cons_self)

private theorem Invariant.ready_tail (holds : Invariant successors gone sweep)
    (readyAt : sweep.ready = position :: ready) (entry : Nat) :
    entry ∈ ready ↔ entry ≠ position ∧ entry < successors.size ∧ entry ∉ gone ∧
      pending successors gone entry = ∅ := by
  have distinct := holds.ready_nodup
  rw [readyAt, List.nodup_cons] at distinct
  rw [← holds.mem_ready entry, readyAt, List.mem_cons]
  constructor
  · intro member
    refine ⟨?_, Or.inr member⟩
    rintro rfl
    exact distinct.1 member
  · rintro ⟨different, member⟩
    exact member.resolve_left different

/-- An entry of the row of the position taken had the position to wait for, so it was neither
taken nor ready. -/
theorem Invariant.waited (holds : Invariant successors gone sweep)
    (readyAt : sweep.ready = position :: ready) {entry : Nat}
    (edge : entry ∈ successors.getD position []) :
    position ∈ pending successors gone entry ∧ entry ∉ position :: gone ∧ entry ∉ ready := by
  obtain ⟨bound, fresh, free⟩ := holds.ready_head readyAt
  have waited := (mem_pending successors gone entry position).mpr ⟨bound, fresh, edge⟩
  refine ⟨waited, ?_, ?_⟩
  · rw [List.mem_cons, not_or]
    refine ⟨?_, fun taken => fresh (holds.taken.predecessor_mem taken bound edge)⟩
    rintro rfl
    rw [free] at waited
    exact absurd waited (Finset.notMem_empty entry)
  · intro old
    have none := ((holds.ready_tail readyAt entry).mp old).2.2.2
    rw [none] at waited
    exact absurd waited (Finset.notMem_empty position)

/-- Taking a position lowers the count of each entry of its row by one, and no other. -/
theorem Invariant.waiting_released (holds : Invariant successors gone sweep)
    (readyAt : sweep.ready = position :: ready) {entry : Nat}
    (inRange : entry < successors.size) :
    sweep.waiting.getD entry 0 - (if entry ∈ successors.getD position [] then 1 else 0) =
      (pending successors (position :: gone) entry).card := by
  rw [holds.waiting_eq entry inRange, pending_cons]
  by_cases edge : entry ∈ successors.getD position []
  · rw [if_pos edge, Finset.card_erase_of_mem (holds.waited readyAt edge).1]
  · rw [if_neg edge, Nat.sub_zero, Finset.erase_eq_of_notMem]
    exact fun member => edge ((mem_pending _ _ _ _).mp member).2.2

/-- Ready after a position has been taken are those that were, and those of its row that waited
for it alone. -/
theorem Invariant.mem_released_iff (proper : Proper successors)
    (holds : Invariant successors gone sweep) (readyAt : sweep.ready = position :: ready)
    (entry : Nat) :
    entry ∈ ready ++ (successors.getD position []).filter
        (fun entry => sweep.waiting.getD entry 0 - 1 = 0) ↔
      entry < successors.size ∧ entry ∉ position :: gone ∧
        pending successors (position :: gone) entry = ∅ := by
  rw [List.mem_append, List.mem_filter, decide_eq_true_eq]
  by_cases edge : entry ∈ successors.getD position []
  · have inRange := proper.bounded position entry edge
    obtain ⟨_waited, absent, notReady⟩ := holds.waited readyAt edge
    have released := holds.waiting_released readyAt inRange
    rw [if_pos edge] at released
    rw [released, Finset.card_eq_zero]
    constructor
    · rintro (old | ⟨_edge, none⟩)
      · exact absurd old notReady
      · exact ⟨inRange, absent, none⟩
    · rintro ⟨_inRange, _absent, none⟩
      exact Or.inr ⟨edge, none⟩
  · have same : pending successors (position :: gone) entry = pending successors gone entry := by
      rw [pending_cons, Finset.erase_eq_of_notMem]
      exact fun member => edge ((mem_pending _ _ _ _).mp member).2.2
    rw [same, holds.ready_tail readyAt, List.mem_cons, not_or]
    constructor
    · rintro (⟨different, inRange, absent, none⟩ | ⟨inRow, _last⟩)
      · exact ⟨inRange, ⟨different, absent⟩, none⟩
      · exact absurd inRow edge
    · rintro ⟨inRange, ⟨different, absent⟩, none⟩
      exact Or.inl ⟨different, inRange, absent, none⟩

/-- Taking the first ready position, and releasing its row, leads to the state that has taken it
as well. -/
theorem Invariant.take (proper : Proper successors) (holds : Invariant successors gone sweep)
    (readyAt : sweep.ready = position :: ready) :
    Invariant successors (position :: gone)
      ((successors.getD position []).foldl release
        { sweep with ready, taken := sweep.taken + 1 }) := by
  obtain ⟨bound, fresh, free⟩ := holds.ready_head readyAt
  have distinct := holds.ready_nodup
  rw [readyAt, List.nodup_cons] at distinct
  obtain ⟨taken, size, waiting, readyEq⟩ := release_fold (successors.getD position [])
    { sweep with ready, taken := sweep.taken + 1 } (proper.nodup position)
    (by
      intro entry member
      simp only [holds.waiting_size]
      exact proper.bounded position entry member)
  refine ⟨.take holds.taken bound fresh free, ?_, ?_, ?_, ?_, ?_⟩
  · rw [taken, List.length_cons, holds.taken_eq]
  · rw [size]
    exact holds.waiting_size
  · intro entry inRange
    rw [waiting entry]
    exact holds.waiting_released readyAt inRange
  · rw [readyEq, List.nodup_append]
    refine ⟨distinct.2, (proper.nodup position).filter _, ?_⟩
    rintro old oldMember entry entryMember rfl
    exact (holds.waited readyAt (List.mem_filter.mp entryMember).1).2.2 oldMember
  · intro entry
    rw [readyEq]
    exact holds.mem_released_iff proper readyAt entry

theorem step?_eq_some_iff {next : Sweep} :
    sweep.step? successors = some next ↔ ∃ position ready, sweep.ready = position :: ready ∧
      (successors.getD position []).foldl release
        { sweep with ready, taken := sweep.taken + 1 } = next := by
  unfold step?
  cases sweep.ready <;> simp

theorem Invariant.step {next : Sweep} (proper : Proper successors)
    (holds : Invariant successors gone sweep) (stepped : sweep.step? successors = some next) :
    ∃ position, Invariant successors (position :: gone) next := by
  obtain ⟨position, ready, readyAt, rfl⟩ := step?_eq_some_iff.mp stepped
  exact ⟨position, holds.take proper readyAt⟩

end

/-! ### Whole sweeps -/

private theorem count_row (row : List Nat) (waiting : Array Nat) (distinct : row.Nodup)
    (position : Nat) (bound : position < waiting.size) :
    (row.foldl (fun waiting entry => waiting.modify entry (· + 1)) waiting).size =
      waiting.size ∧
    (row.foldl (fun waiting entry => waiting.modify entry (· + 1)) waiting).getD position 0 =
      waiting.getD position 0 + if position ∈ row then 1 else 0 := by
  induction row generalizing waiting with
  | nil => simp
  | cons head tail ih =>
      rw [List.nodup_cons] at distinct
      obtain ⟨size, counts⟩ := ih (waiting.modify head (· + 1)) distinct.2
        (by rw [Array.size_modify]; exact bound)
      rw [Array.size_modify] at size
      refine ⟨size, ?_⟩
      rw [List.foldl_cons, counts]
      simp only [Array.getD_eq_getD_getElem?, Array.getElem?_modify,
        Array.getElem?_eq_getElem bound]
      by_cases same : head = position
      · subst same
        simp [distinct.1]
      · have notHead : position ≠ head := fun equal => same equal.symm
        simp [same, notHead]

private theorem count_rows (successors : Array (List Nat)) (proper : Proper successors)
    (rows : Nat) (position : Nat) (bound : position < successors.size) :
    ((List.range rows).foldl (fun waiting row => (successors.getD row []).foldl
        (fun waiting entry => waiting.modify entry (· + 1)) waiting)
      (Array.replicate successors.size 0)).size = successors.size ∧
    ((List.range rows).foldl (fun waiting row => (successors.getD row []).foldl
        (fun waiting entry => waiting.modify entry (· + 1)) waiting)
      (Array.replicate successors.size 0)).getD position 0 =
        ((Finset.range rows).filter
          (fun before => position ∈ successors.getD before [])).card := by
  induction rows with
  | zero => simp [Array.getD_eq_getD_getElem?, bound]
  | succ rows ih =>
      rw [List.range_succ, List.foldl_append, List.foldl_cons, List.foldl_nil]
      obtain ⟨size, counts⟩ := count_row (successors.getD rows []) _ (proper.nodup rows)
        position (by rw [ih.1]; exact bound)
      refine ⟨size.trans ih.1, ?_⟩
      rw [counts, ih.2, Finset.range_add_one, Finset.filter_insert]
      by_cases edge : position ∈ successors.getD rows []
      · rw [if_pos edge, if_pos edge, Finset.card_insert_of_notMem]
        simp
      · rw [if_neg edge, if_neg edge, Nat.add_zero]

theorem start_invariant (successors : Array (List Nat)) (proper : Proper successors) :
    Invariant successors [] (start successors) := by
  have rows : successors.toList =
      (List.range successors.size).map (fun row => successors.getD row []) := by
    apply List.ext_getElem
    · simp
    · intro position left _right
      simp only [Array.length_toList] at left
      simp [Array.getD_eq_getD_getElem?, left]
  have waitingEq : (start successors).waiting =
      (List.range successors.size).foldl (fun waiting row => (successors.getD row []).foldl
        (fun waiting entry => waiting.modify entry (· + 1)) waiting)
      (Array.replicate successors.size 0) := by
    simp only [start]
    rw [← Array.foldl_toList, rows, List.foldl_map]
  have pendingStart : ∀ position, pending successors [] position =
      (Finset.range successors.size).filter
        (fun before => position ∈ successors.getD before []) := by
    intro position
    simp [pending]
  have waitingAt : ∀ position < successors.size,
      (start successors).waiting.getD position 0 = (pending successors [] position).card := by
    intro position bound
    rw [waitingEq, pendingStart]
    exact (count_rows successors proper successors.size position bound).2
  have sizeEq : (start successors).waiting.size = successors.size := by
    rw [waitingEq]
    cases size : successors.size with
    | zero => simp
    | succ rest =>
        have counted := (count_rows successors proper successors.size 0 (by omega)).1
        rw [size] at counted
        exact counted
  refine ⟨.none, rfl, sizeEq, waitingAt, List.nodup_range.filter _, ?_⟩
  intro position
  have readyEq : (start successors).ready = (List.range successors.size).filter
      (fun position => (start successors).waiting.getD position 0 == 0) := rfl
  rw [readyEq, List.mem_filter, List.mem_range]
  constructor
  · rintro ⟨bound, none⟩
    rw [waitingAt position bound] at none
    exact ⟨bound, List.not_mem_nil, Finset.card_eq_zero.mp (eq_of_beq none)⟩
  · rintro ⟨bound, _absent, free⟩
    refine ⟨bound, ?_⟩
    rw [waitingAt position bound, free, Finset.card_empty]
    rfl

/-- A run stops where nothing is ready, or takes a position in every round. -/
theorem run_invariant (successors : Array (List Nat)) (proper : Proper successors)
    (rounds : Nat) (sweep : Sweep) (gone : List Nat) (holds : Invariant successors gone sweep) :
    ∃ taken, Invariant successors taken (run successors rounds sweep) ∧
      ((run successors rounds sweep).ready = [] ∨ taken.length = gone.length + rounds) := by
  induction rounds generalizing sweep gone with
  | zero => exact ⟨gone, holds, Or.inr rfl⟩
  | succ rounds ih =>
      unfold run
      cases stepped : sweep.step? successors with
      | none =>
          refine ⟨gone, holds, Or.inl ?_⟩
          cases readyAt : sweep.ready with
          | nil => rfl
          | cons position ready =>
              unfold step? at stepped
              rw [readyAt] at stepped
              cases stepped
      | some next =>
          obtain ⟨position, nextHolds⟩ := holds.step proper stepped
          obtain ⟨taken, takenHolds, ended⟩ := ih next (position :: gone) nextHolds
          rw [List.length_cons] at ended
          refine ⟨taken, takenHolds, ended.imp_right ?_⟩
          omega

theorem finish_invariant (successors : Array (List Nat)) (proper : Proper successors) :
    ∃ gone, Invariant successors gone (finish successors) ∧ (finish successors).ready = [] := by
  obtain ⟨gone, holds, ended⟩ := run_invariant successors proper successors.size
    (start successors) [] (start_invariant successors proper)
  refine ⟨gone, holds, ?_⟩
  rcases ended with stopped | all
  · exact stopped
  · rw [List.length_nil, Nat.zero_add] at all
    apply List.eq_nil_iff_forall_not_mem.mpr
    intro position isReady
    obtain ⟨bound, fresh, _free⟩ := (holds.mem_ready position).mp isReady
    exact fresh (holds.taken.mem_of_size_le all.ge bound)

theorem exists_rank_of_finish (successors : Array (List Nat)) (proper : Proper successors)
    (all : (finish successors).taken = successors.size) :
    ∃ rank : Nat → Nat, ∀ before < successors.size, ∀ after ∈ successors.getD before [],
      rank before < rank after := by
  obtain ⟨gone, holds, _stopped⟩ := finish_invariant successors proper
  have complete : ∀ position < successors.size, position ∈ gone := fun position bound =>
    holds.taken.mem_of_size_le (by rw [← holds.taken_eq, all]) bound
  obtain ⟨rank, _below, increasing⟩ := holds.taken.exists_rank
  refine ⟨rank, ?_⟩
  intro before bound after edge
  exact increasing after (complete after (proper.bounded before after edge)) before bound edge

end Interleave.Scenario.Sweep

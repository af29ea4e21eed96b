import Mathlib
import Interleave.CallSequence
import Interleave.Proofs.Attempts

set_option autoImplicit false

/-! Sequences of calls as the plain lists that they see. Every operation is followed on those
lists alone, and a program of steps over registers likewise. What array a sequence lies in, and
from which start it sees it, cannot be told from any answer that it gives. -/

namespace Interleave.CallSequence

variable {α : Type}

/-! ### Plain lists -/

def firstOf : List α → Except SequenceError α
  | [] => .error (.empty .head)
  | first :: _ => .ok first

def restOf : List α → Except SequenceError (List α)
  | [] => .error (.empty .tail)
  | _ :: rest => .ok rest

/-- The first item moved to the end; without one the tail is what fails. -/
def turnOf : List α → Except SequenceError (List α)
  | [] => .error (.empty .tail)
  | first :: rest => .ok (rest ++ [first])

/-! ### Operations on what a sequence sees -/

theorem length_toList (sequence : CallSequence α) : sequence.toList.length = sequence.size := by
  unfold toList size
  rw [List.length_drop, Array.length_toList]

theorem isEmpty_eq (sequence : CallSequence α) :
    sequence.isEmpty = sequence.toList.isEmpty := by
  unfold isEmpty
  rw [← length_toList]
  cases sequence.toList <;> rfl

private theorem head_eq (sequence : CallSequence α) : sequence.head = firstOf sequence.toList := by
  have first : sequence.toList.head? = sequence.items[sequence.start]? := by
    unfold toList
    rw [List.head?_drop, Array.getElem?_toList]
  unfold head
  rw [← first]
  cases sequence.toList <;> rfl

private theorem map_tail (sequence : CallSequence α) :
    sequence.tail.map toList = restOf sequence.toList := by
  unfold tail
  rw [isEmpty_eq]
  cases split : sequence.toList with
  | nil => rfl
  | cons first rest =>
      have later : sequence.items.toList.drop (sequence.start + 1) = rest := by
        rw [← List.tail_drop]
        exact congrArg List.tail split
      change Except.ok (sequence.items.toList.drop (sequence.start + 1)) = .ok rest
      rw [later]

private theorem toList_snoc (sequence : CallSequence α) (item : α) :
    (sequence.snoc item).toList = sequence.toList ++ [item] := by
  unfold snoc ofArray toList
  simp

private theorem map_rotate (sequence : CallSequence α) :
    sequence.rotate.map toList = turnOf sequence.toList := by
  have first := sequence.head_eq
  have rest := sequence.map_tail
  unfold rotate
  cases split : sequence.toList with
  | nil =>
      rw [split] at rest
      cases made : sequence.tail with
      | ok later =>
          rw [made] at rest
          cases rest
      | error error =>
          rw [made] at rest
          cases rest
          rfl
  | cons front others =>
      rw [split] at first rest
      obtain ⟨later, made, rfl⟩ := exists_of_map_ok rest
      rw [made, first]
      exact congrArg Except.ok (later.toList_snoc front)

theorem start_le_of_tail {sequence rest : CallSequence α} (made : sequence.tail = .ok rest) :
    rest.start ≤ rest.items.size := by
  unfold tail isEmpty size at made
  split at made
  · cases made
  · rename_i some
    cases made
    rw [beq_iff_eq] at some
    change sequence.start + 1 ≤ sequence.items.size
    omega

private theorem start_of_rotate {sequence turned : CallSequence α}
    (made : sequence.rotate = .ok turned) :
    turned.start = 0 := by
  obtain ⟨rest, _, made⟩ := exists_of_bind_ok made
  obtain ⟨first, _, made⟩ := exists_of_bind_ok made
  cases made
  rfl

theorem sameValue_iff (same : α → α → Bool) (left right : CallSequence α) :
    left.sameValue same right = true ↔
      List.Forall₂ (fun first second => same first second = true) left.toList right.toList := by
  unfold sameValue
  rw [Bool.and_eq_true, beq_iff_eq, List.all_eq_true, ← length_toList, ← length_toList,
    List.forall₂_iff_zip]
  exact and_congr_right (fun _ => Prod.forall)

/-! ### Answers -/

/-- Whatever is asked of the two, the answers are the same, and what is made of them sees the
same lists again. -/
structure Indistinguishable (left right : CallSequence α) : Prop where
  toList : left.toList = right.toList
  size : left.size = right.size
  isEmpty : left.isEmpty = right.isEmpty
  head : left.head = right.head
  render : ∀ text, left.render text = right.render text
  toJson : ∀ encode, left.toJson encode = right.toJson encode
  sameValue : ∀ same third, left.sameValue same third = right.sameValue same third ∧
    third.sameValue same left = third.sameValue same right
  tail : left.tail.map CallSequence.toList = right.tail.map CallSequence.toList
  snoc : ∀ item, (left.snoc item).toList = (right.snoc item).toList
  rotate : left.rotate.map CallSequence.toList = right.rotate.map CallSequence.toList

theorem indistinguishable_iff {left right : CallSequence α} :
    Indistinguishable left right ↔ left.toList = right.toList := by
  constructor
  · exact Indistinguishable.toList
  · intro same
    have size : left.size = right.size := by rw [← length_toList, same, length_toList]
    exact
      { toList := same
        size := size
        isEmpty := by rw [isEmpty_eq, same, isEmpty_eq]
        head := by rw [head_eq, same, head_eq]
        render := fun text => by unfold render; rw [same]
        toJson := fun encode => by unfold toJson; rw [same]
        sameValue := fun equal third => by unfold sameValue; rw [same, size]; exact ⟨rfl, rfl⟩
        tail := by rw [map_tail, same, map_tail]
        snoc := fun item => by rw [toList_snoc, same, toList_snoc]
        rotate := by rw [map_rotate, same, map_rotate] }

theorem Indistinguishable.equal {left right : CallSequence α}
    (alike : Indistinguishable left right) {same : α → α → Bool}
    (reflexive : ∀ item ∈ right.toList, same item item = true) :
    left.sameValue same right = true := by
  rw [sameValue_iff, alike.toList]
  exact List.forall₂_same.mpr reflexive

/-! ### Rotations -/

def rotations : Nat → CallSequence α → Except SequenceError (CallSequence α)
  | 0, sequence => .ok sequence
  | count + 1, sequence => sequence.rotate >>= rotations count

private theorem rotations_toList {sequence : CallSequence α} (some : sequence.toList ≠ [])
    (count : Nat) :
    ∃ turned, rotations count sequence = .ok turned ∧
      turned.toList = sequence.toList.rotate count := by
  induction count generalizing sequence with
  | zero => exact ⟨sequence, rfl, (List.rotate_zero _).symm⟩
  | succ count ih =>
      obtain ⟨first, rest, split⟩ := List.exists_cons_of_ne_nil some
      have once := sequence.map_rotate
      rw [split] at once
      obtain ⟨turned, made, sees⟩ := exists_of_map_ok once
      have more : turned.toList ≠ [] := by
        rw [← sees]
        exact List.append_ne_nil_of_right_ne_nil _ (List.cons_ne_nil _ _)
      obtain ⟨last, ran, view⟩ := ih more
      refine ⟨last, ?_, ?_⟩
      · unfold rotations
        rw [made]
        exact ran
      · rw [view, ← sees, split, List.rotate_cons_succ]

theorem rotations_size (sequence : CallSequence α) :
    ∃ turned, rotations sequence.size sequence = .ok turned ∧
      Indistinguishable turned sequence := by
  by_cases some : sequence.toList = []
  · have none : sequence.size = 0 := by rw [← length_toList, some, List.length_nil]
    rw [none]
    exact ⟨sequence, rfl, indistinguishable_iff.mpr rfl⟩
  · obtain ⟨turned, ran, view⟩ := rotations_toList some sequence.size
    rw [← length_toList, List.rotate_length] at view
    exact ⟨turned, ran, indistinguishable_iff.mpr view⟩

/-! ### Programs -/

/-- The list that a step makes of the lists in the registers; `none` when it names a register
that is not there. -/
def Step.list? (lists : List (List α)) : Step α → Option (Except SequenceError (List α))
  | .empty => some (.ok [])
  | .ofList items => some (.ok items)
  | .tail register => lists[register]?.map restOf
  | .clone register => lists[register]?.map .ok
  | .snoc register item => lists[register]?.map (fun items => .ok (items ++ [item]))
  | .rotate register => lists[register]?.map turnOf

/-- The lists after a step; one that fails adds none. -/
def Step.runLists (lists : List (List α)) (step : Step α) : List (List α) :=
  match step.list? lists with
  | some (.ok items) => lists ++ [items]
  | _ => lists

def program (steps : List (Step α)) : Registers α := steps.foldl Step.run #[]

/-- The lists after some steps, without any array. -/
def listsOf (steps : List (Step α)) : List (List α) := steps.foldl Step.runLists []

/-- The registers see these lists, and no start lies behind the end of an array. -/
structure Denotes (registers : Registers α) (lists : List (List α)) : Prop where
  within : ∀ sequence ∈ registers, sequence.start ≤ sequence.items.size
  seen : registers.toList.map toList = lists

namespace Denotes

variable {registers : Registers α} {lists : List (List α)}

theorem none : Denotes (#[] : Registers α) [] :=
  ⟨fun _ absent => absurd absent (Array.not_mem_empty _), rfl⟩

theorem register (denotes : Denotes registers lists) (register : Nat) :
    lists[register]? = registers[register]?.map toList := by
  rw [← denotes.seen, List.getElem?_map, Array.getElem?_toList]

theorem map_register (denotes : Denotes registers lists) (register : Nat)
    {operation : CallSequence α → Except SequenceError (CallSequence α)}
    {plain : List α → Except SequenceError (List α)}
    (agree : ∀ sequence, (operation sequence).map toList = plain sequence.toList) :
    (registers[register]?.map operation).map (Except.map toList) =
      lists[register]?.map plain := by
  rw [denotes.register, Option.map_map, Option.map_map]
  exact congrArg (fun made => registers[register]?.map made) (funext agree)

theorem result (denotes : Denotes registers lists) (step : Step α) :
    (step.result? registers).map (Except.map toList) = step.list? lists := by
  cases step with
  | empty => rfl
  | ofList items => rfl
  | tail register => exact denotes.map_register register map_tail
  | clone register => exact denotes.map_register register (fun _ => rfl)
  | snoc register item =>
      exact denotes.map_register register (fun sequence =>
        congrArg Except.ok (sequence.toList_snoc item))
  | rotate register => exact denotes.map_register register map_rotate

private theorem start_le (denotes : Denotes registers lists) {step : Step α}
    {sequence : CallSequence α} (made : step.result? registers = some (.ok sequence)) :
    sequence.start ≤ sequence.items.size := by
  cases step with
  | empty =>
      cases made
      exact Nat.zero_le _
  | ofList items =>
      cases made
      exact Nat.zero_le _
  | tail register =>
      obtain ⟨source, _, result⟩ := Option.map_eq_some_iff.mp made
      exact start_le_of_tail result
  | clone register =>
      obtain ⟨source, found, result⟩ := Option.map_eq_some_iff.mp made
      cases result
      exact denotes.within _ (Array.mem_of_getElem? found)
  | snoc register item =>
      obtain ⟨source, _, result⟩ := Option.map_eq_some_iff.mp made
      cases result
      exact Nat.zero_le _
  | rotate register =>
      obtain ⟨source, _, result⟩ := Option.map_eq_some_iff.mp made
      rw [start_of_rotate result]
      exact Nat.zero_le _

/-- A step does to the registers what it does to the lists. -/
theorem run (denotes : Denotes registers lists) (step : Step α) :
    Denotes (step.run registers) (step.runLists lists) := by
  have result := denotes.result step
  unfold Step.run Step.runLists
  rw [← result]
  cases made : step.result? registers with
  | none => exact denotes
  | some outcome =>
      cases outcome with
      | error error => exact denotes
      | ok sequence =>
          refine ⟨fun other member => ?_, ?_⟩
          · rcases Array.mem_push.mp member with earlier | same
            · exact denotes.within other earlier
            · rw [same]
              exact denotes.start_le made
          · change (registers.push sequence).toList.map toList = lists ++ [sequence.toList]
            rw [Array.toList_push, List.map_append, denotes.seen]
            rfl

theorem foldl (denotes : Denotes registers lists) (steps : List (Step α)) :
    Denotes (steps.foldl Step.run registers) (steps.foldl Step.runLists lists) := by
  induction steps generalizing registers lists with
  | nil => exact denotes
  | cons step steps ih => exact ih (denotes.run step)

end Denotes

private theorem denotes_program (steps : List (Step α)) : Denotes (program steps) (listsOf steps) :=
  Denotes.none.foldl steps

/-- After any program the registers see what the program makes of plain lists, and no start lies
behind the end of an array. A further step makes what its operation makes of the lists, after all
that was there, or fails as it fails on the lists, and then adds no register. The first item is
refused of empty sequences only, a full turn leads back, and sequences that see the same list are
not told apart, whichever programs they come from. -/
theorem program_denotes (steps : List (Step α)) :
    let registers := program steps
    let lists := listsOf steps
    Denotes registers lists ∧
    (∀ step : Step α,
      (step.result? registers).map (Except.map toList) = step.list? lists ∧
      (∀ items, step.list? lists = some (.ok items) →
        listsOf (steps ++ [step]) = lists ++ [items]) ∧
      (∀ error, step.list? lists = some (.error error) →
        program (steps ++ [step]) = registers)) ∧
    (∀ sequence ∈ registers,
      sequence.size = sequence.toList.length ∧
      sequence.isEmpty = sequence.toList.isEmpty ∧
      sequence.head = firstOf sequence.toList ∧
      ∃ turned, rotations sequence.size sequence = .ok turned ∧
        Indistinguishable turned sequence ∧
        ∀ same, (∀ item ∈ sequence.toList, same item item = true) →
          turned.sameValue same sequence = true) ∧
    (∀ others, ∀ left ∈ registers, ∀ right ∈ program others,
      (left.toList = right.toList → Indistinguishable left right) ∧
      ∀ same, left.sameValue same right = true ↔
        List.Forall₂ (fun first second => same first second = true)
          left.toList right.toList) := by
  intro registers lists
  have denotes : Denotes registers lists := denotes_program steps
  refine ⟨denotes, fun step => ⟨denotes.result step, ?_, ?_⟩, fun sequence _ => ?_,
    fun others left _ right _ => ⟨indistinguishable_iff.mpr, fun same => sameValue_iff _ _ _⟩⟩
  · intro items made
    have last : listsOf (steps ++ [step]) = step.runLists lists := List.foldl_concat ..
    rw [last]
    unfold Step.runLists
    rw [made]
  · intro error refused
    have last : program (steps ++ [step]) = step.run registers := List.foldl_concat ..
    rw [last]
    unfold Step.run
    have result := denotes.result step
    rw [refused] at result
    obtain ⟨outcome, made, failed⟩ := Option.map_eq_some_iff.mp result
    rw [made]
    cases outcome with
    | ok sequence => cases failed
    | error error => rfl
  · obtain ⟨turned, ran, alike⟩ := sequence.rotations_size
    exact ⟨sequence.length_toList.symm, sequence.isEmpty_eq, sequence.head_eq, turned, ran, alike,
      fun _ reflexive => alike.equal reflexive⟩

/-! Two ways to the same two items: as the rest of three, seen from the second on, and put one
after the other into an array of their own. -/

def routes : List (Step Nat) :=
  [.ofList [1, 2, 3], .tail 0, .empty, .snoc 2 2, .snoc 3 3, .rotate 1, .rotate 2]

theorem program_denotes_routes :
    let shared : CallSequence Nat := ⟨#[1, 2, 3], 1⟩
    let fresh : CallSequence Nat := ⟨#[2, 3], 0⟩
    listsOf routes = [[1, 2, 3], [2, 3], [], [2], [2, 3], [3, 2]] ∧
    shared ∈ program routes ∧ fresh ∈ program routes ∧ shared.toList = fresh.toList ∧
    Indistinguishable shared fresh := by
  intro shared fresh
  have inShared : shared ∈ program routes := Array.mem_of_getElem? (i := 1) rfl
  have inFresh : fresh ∈ program routes := Array.mem_of_getElem? (i := 4) rfl
  obtain ⟨_, _, _, alike⟩ := program_denotes routes
  exact ⟨rfl, inShared, inFresh, rfl, (alike routes shared inShared fresh inFresh).1 rfl⟩

end Interleave.CallSequence

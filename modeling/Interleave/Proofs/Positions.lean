import Mathlib
import Interleave.Scenario.Order

set_option autoImplicit false

/-! Threads by position. A lookup of an index leads to the last position that has it, which is the
only one when indices are distinct. The tables of the order hold its pairs by position, each pair
once. -/

namespace Interleave.Scenario

def indices (scenario : Scenario) : List Nat := scenario.threads.map Thread.index

theorem indices_length (scenario : Scenario) :
    scenario.indices.length = scenario.threads.length :=
  List.length_map _

theorem position_unique (scenario : Scenario) (distinct : scenario.indices.Nodup)
    (index : Nat) {left right : Nat} (atLeft : scenario.indices[left]? = some index)
    (atRight : scenario.indices[right]? = some index) : left = right :=
  (List.getElem?_inj (List.getElem?_eq_some_iff.mp atLeft).1 distinct).mp
    (atLeft.trans atRight.symm)

/-! ### Lookups -/

private theorem lastPosition_fold (threads : List Thread) (index position : Nat) :
    threads.zipIdx.foldl
        (fun found entry => if entry.1.index = index then some entry.2 else found) none =
          some position ↔
      (threads.map Thread.index)[position]? = some index ∧
        ∀ later, position < later → (threads.map Thread.index)[later]? ≠ some index := by
  -- From the end: the last thread hides all others of its index, and no others.
  induction threads using List.reverseRecOn with
  | nil => simp
  | append_singleton threads last ih =>
      rw [List.zipIdx_append, List.foldl_append, List.map_append, List.map_singleton,
        Nat.zero_add, List.zipIdx_singleton, List.foldl_cons, List.foldl_nil]
      by_cases same : last.index = index
      · rw [if_pos same, Option.some.injEq]
        grind
      · rw [if_neg same, ih]
        grind

/-- Of several threads with one index, the last one is found. -/
theorem lastPosition?_eq_some_iff_last (scenario : Scenario) (index position : Nat) :
    scenario.lastPosition? index = some position ↔
      scenario.indices[position]? = some index ∧
        ∀ later, position < later → scenario.indices[later]? ≠ some index :=
  lastPosition_fold scenario.threads index position

theorem lastPosition?_eq_some_iff (scenario : Scenario) (distinct : scenario.indices.Nodup)
    (index position : Nat) :
    scenario.lastPosition? index = some position ↔
      scenario.indices[position]? = some index := by
  rw [lastPosition?_eq_some_iff_last]
  constructor
  · exact And.left
  · intro atPosition
    refine ⟨atPosition, ?_⟩
    intro later after atLater
    exact absurd (position_unique scenario distinct index atPosition atLater) after.ne

private theorem lastPosition?_lt (scenario : Scenario) {index position : Nat}
    (found : scenario.lastPosition? index = some position) :
    position < scenario.threads.length := by
  rw [← indices_length]
  exact (List.getElem?_eq_some_iff.mp
    ((lastPosition?_eq_some_iff_last scenario index position).mp found).1).1

theorem positionOf?_eq_some_iff (scenario : Scenario) (distinct : scenario.indices.Nodup)
    (index position : Nat) :
    scenario.positionOf? index = some position ↔
      scenario.indices[position]? = some index := by
  unfold positionOf?
  rw [List.findIdx?_eq_some_iff_getElem]
  constructor
  · rintro ⟨bound, found, _first⟩
    simp only [indices, List.getElem?_map, List.getElem?_eq_getElem bound, Option.map_some]
    exact congrArg some (eq_of_beq found)
  · intro atPosition
    obtain ⟨bound, value⟩ := List.getElem?_eq_some_iff.mp atPosition
    simp only [indices, List.length_map, List.getElem_map] at bound value
    refine ⟨bound, beq_iff_eq.mpr value, ?_⟩
    intro earlier before same
    have atEarlier : scenario.indices[earlier]? = some index := by
      simp only [indices, List.getElem?_map, List.getElem?_eq_getElem (before.trans bound),
        Option.map_some]
      exact congrArg some (eq_of_beq same)
    exact absurd (position_unique scenario distinct index atEarlier atPosition) before.ne

/-! ### Tables -/

private theorem mem_addDistinct (row : List Nat) (entry other : Nat) :
    other ∈ addDistinct row entry ↔ other ∈ row ∨ other = entry := by
  unfold addDistinct
  split
  · rename_i present
    have member : entry ∈ row := List.contains_iff_mem.mp present
    constructor
    · exact Or.inl
    · rintro (already | rfl)
      · exact already
      · exact member
  · simp only [List.mem_append, List.mem_singleton]

theorem nodup_addDistinct (row : List Nat) (entry : Nat) (distinct : row.Nodup) :
    (addDistinct row entry).Nodup := by
  unfold addDistinct
  split
  · exact distinct
  · rename_i missing
    rw [List.nodup_append]
    refine ⟨distinct, List.nodup_singleton entry, ?_⟩
    intro other member last inLast same
    rw [List.mem_singleton] at inLast
    subst inLast same
    exact missing (List.contains_iff_mem.mpr member)

/-- The rows after some pairs: each holds exactly the second parts of its pairs, once. -/
structure HoldsPairs (size : Nat) (pairs : List (Nat × Nat)) (rows : Array (List Nat)) :
    Prop where
  size_eq : rows.size = size
  mem_iff : ∀ row < size, ∀ entry, entry ∈ rows.getD row [] ↔ (row, entry) ∈ pairs
  nodup : ∀ row, (rows.getD row []).Nodup

private theorem getD_modify (rows : Array (List Nat)) (first row : Nat)
    (change : List Nat → List Nat) (bound : row < rows.size) :
    (rows.modify first change).getD row [] =
      if first = row then change (rows.getD row []) else rows.getD row [] := by
  simp only [Array.getD_eq_getD_getElem?, Array.getElem?_modify, Array.getElem?_eq_getElem bound]
  split <;> simp

private theorem getD_outside (rows : Array (List Nat)) {row : Nat} (outside : rows.size ≤ row) :
    rows.getD row [] = [] := by
  rw [Array.getD_eq_getD_getElem?, Array.getElem?_eq_none outside, Option.getD_none]

theorem HoldsPairs.add {size : Nat} {pairs : List (Nat × Nat)} {rows : Array (List Nat)}
    (holds : HoldsPairs size pairs rows) (pair : Nat × Nat) :
    HoldsPairs size (pairs ++ [pair])
      (rows.modify pair.1 (fun row => addDistinct row pair.2)) := by
  obtain ⟨first, second⟩ := pair
  refine ⟨by rw [Array.size_modify, holds.size_eq], ?_, ?_⟩
  · intro row bound entry
    rw [getD_modify rows first row _ (by rw [holds.size_eq]; exact bound), List.mem_append,
      List.mem_singleton, Prod.mk.injEq]
    split
    · rename_i same
      rw [mem_addDistinct, holds.mem_iff row bound entry]
      simp only [same, true_and]
    · rename_i different
      rw [holds.mem_iff row bound entry]
      simp only [Ne.symm different, false_and, or_false]
  · intro row
    by_cases bound : row < rows.size
    · rw [getD_modify rows first row _ bound]
      by_cases same : first = row
      · rw [if_pos same]
        exact nodup_addDistinct _ _ (holds.nodup row)
      · rw [if_neg same]
        exact holds.nodup row
    · rw [getD_outside _ (by rw [Array.size_modify]; exact Nat.le_of_not_lt bound)]
      exact List.nodup_nil

theorem HoldsPairs.empty (size : Nat) : HoldsPairs size [] (Array.replicate size []) := by
  refine ⟨Array.size_replicate, ?_, ?_⟩
  · intro row bound entry
    simp [Array.getD_eq_getD_getElem?, bound]
  · intro row
    rw [Array.getD_eq_getD_getElem?, Array.getElem?_replicate]
    split <;> exact List.nodup_nil

private theorem HoldsPairs.addAll {size : Nat} {earlier : List (Nat × Nat)}
    {rows : Array (List Nat)} (holds : HoldsPairs size earlier rows) (later : List (Nat × Nat)) :
    HoldsPairs size (earlier ++ later)
      (later.foldl (fun rows pair => rows.modify pair.1 (fun row => addDistinct row pair.2))
        rows) := by
  induction later generalizing earlier rows with
  | nil =>
      rw [List.append_nil]
      exact holds
  | cons pair later ih =>
      have result := ih (holds.add pair)
      rw [List.append_assoc, List.singleton_append] at result
      exact result

theorem table_holdsPairs (size : Nat) (pairs : List (Nat × Nat)) :
    HoldsPairs size pairs (table size pairs) :=
  (HoldsPairs.empty size).addAll pairs

theorem HoldsPairs.mem_row_iff {size : Nat} {pairs : List (Nat × Nat)} {rows : Array (List Nat)}
    (holds : HoldsPairs size pairs rows) (inside : ∀ pair ∈ pairs, pair.1 < size)
    (row entry : Nat) : entry ∈ rows.getD row [] ↔ (row, entry) ∈ pairs := by
  by_cases bound : row < size
  · exact holds.mem_iff row bound entry
  · rw [getD_outside rows (by rw [holds.size_eq]; exact Nat.le_of_not_lt bound)]
    constructor
    · intro impossible
      cases impossible
    · intro member
      exact absurd (inside _ member) bound

theorem mem_positionPairs (scenario : Scenario) (before after : Nat) :
    (before, after) ∈ scenario.positionPairs ↔
      ∃ pair ∈ scenario.order, scenario.lastPosition? pair.1 = some before ∧
        scenario.lastPosition? pair.2 = some after := by
  unfold positionPairs
  rw [List.mem_filterMap]
  constructor
  · rintro ⟨pair, member, found⟩
    simp only [Option.bind_eq_bind, Option.bind_eq_some_iff, Option.pure_def, Option.some.injEq,
      Prod.mk.injEq] at found
    obtain ⟨first, atFirst, second, atSecond, rfl, rfl⟩ := found
    exact ⟨pair, member, atFirst, atSecond⟩
  · rintro ⟨pair, member, atBefore, atAfter⟩
    refine ⟨pair, member, ?_⟩
    rw [atBefore, atAfter]
    rfl

theorem mem_positionPairs_iff (scenario : Scenario) (distinct : scenario.indices.Nodup)
    (before after : Nat) :
    (before, after) ∈ scenario.positionPairs ↔
      ∃ pair ∈ scenario.order, scenario.indices[before]? = some pair.1 ∧
        scenario.indices[after]? = some pair.2 := by
  rw [mem_positionPairs]
  simp only [lastPosition?_eq_some_iff scenario distinct]

/-- Where indices are distinct, the pairs by position are those of the indices there. -/
theorem mem_positionPairs_iff_index (scenario : Scenario) (distinct : scenario.indices.Nodup)
    {before after : Nat} {first second : Thread}
    (atBefore : scenario.threads[before]? = some first)
    (atAfter : scenario.threads[after]? = some second) :
    (before, after) ∈ scenario.positionPairs ↔ (first.index, second.index) ∈ scenario.order := by
  rw [mem_positionPairs_iff scenario distinct]
  simp only [indices, List.getElem?_map, atBefore, atAfter, Option.map_some, Option.some.injEq]
  constructor
  · rintro ⟨pair, member, sameFirst, sameSecond⟩
    rw [sameFirst, sameSecond]
    exact member
  · intro member
    exact ⟨_, member, rfl, rfl⟩

theorem positionPairs_lt (scenario : Scenario) {before after : Nat}
    (member : (before, after) ∈ scenario.positionPairs) :
    before < scenario.threads.length ∧ after < scenario.threads.length := by
  obtain ⟨pair, _inOrder, atBefore, atAfter⟩ :=
    (mem_positionPairs scenario before after).mp member
  exact ⟨lastPosition?_lt scenario atBefore, lastPosition?_lt scenario atAfter⟩

/-! ### The two tables of a scenario -/

theorem predecessors_size (scenario : Scenario) :
    scenario.predecessors.size = scenario.threads.length :=
  (table_holdsPairs _ _).size_eq

theorem successors_size (scenario : Scenario) :
    scenario.successors.size = scenario.threads.length :=
  (table_holdsPairs _ _).size_eq

theorem mem_predecessors (scenario : Scenario) (before after : Nat) :
    before ∈ scenario.predecessors.getD after [] ↔ (before, after) ∈ scenario.positionPairs := by
  have swapped : ∀ first second,
      (first, second) ∈ scenario.positionPairs.map Prod.swap ↔
        (second, first) ∈ scenario.positionPairs :=
    fun _ _ => List.mem_map_swap _ _ _
  rw [← swapped]
  apply (table_holdsPairs _ _).mem_row_iff
  rintro ⟨first, second⟩ member
  exact (positionPairs_lt scenario ((swapped first second).mp member)).2

theorem mem_successors (scenario : Scenario) (before after : Nat) :
    after ∈ scenario.successors.getD before [] ↔ (before, after) ∈ scenario.positionPairs :=
  (table_holdsPairs _ _).mem_row_iff (fun _ member => (positionPairs_lt scenario member).1)
    before after

/-- A position waits for exactly the positions whose threads the order puts before its own. -/
theorem mem_predecessors_iff (scenario : Scenario) (distinct : scenario.indices.Nodup)
    (before after : Nat) :
    before ∈ scenario.predecessors.getD after [] ↔
      ∃ pair ∈ scenario.order, scenario.indices[before]? = some pair.1 ∧
        scenario.indices[after]? = some pair.2 :=
  (mem_predecessors scenario before after).trans
    (mem_positionPairs_iff scenario distinct before after)

theorem mem_successors_iff (scenario : Scenario) (distinct : scenario.indices.Nodup)
    (before after : Nat) :
    after ∈ scenario.successors.getD before [] ↔
      ∃ pair ∈ scenario.order, scenario.indices[before]? = some pair.1 ∧
        scenario.indices[after]? = some pair.2 :=
  (mem_successors scenario before after).trans
    (mem_positionPairs_iff scenario distinct before after)

end Interleave.Scenario

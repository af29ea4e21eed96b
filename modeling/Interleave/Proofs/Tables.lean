import Interleave.Proofs.Validity

set_option autoImplicit false

/-! The tables of the order, for any scenario. A position stands in the row of another in one table
where the other stands in its row in the other table, so a check along the one and a search along
the other go by the same order. Of several threads with one index, the order means the last. -/

namespace Interleave.Scenario

/-- Both tables have a row for every thread, in which positions of threads stand, none twice, and
each is the other one transposed. They hold the pairs of the order whose ends are declared, by the
last positions of their indices. In a valid scenario these are the pairs of the indices at the
positions. -/
theorem tables_transposed (scenario : Scenario) :
    (∀ rows ∈ [scenario.predecessors, scenario.successors],
      rows.size = scenario.threads.length ∧
      ∀ position, (rows.getD position []).Nodup ∧
        ∀ entry ∈ rows.getD position [], entry < scenario.threads.length) ∧
    (∀ before after,
      after ∈ scenario.successors.getD before [] ↔
        before ∈ scenario.predecessors.getD after []) ∧
    (∀ before after,
      after ∈ scenario.successors.getD before [] ↔
        ∃ pair ∈ scenario.order, scenario.lastPosition? pair.1 = some before ∧
          scenario.lastPosition? pair.2 = some after) ∧
    (scenario.validate = .ok () → ∀ before after first second,
      scenario.threads[before]? = some first → scenario.threads[after]? = some second →
      (after ∈ scenario.successors.getD before [] ↔
        (first.index, second.index) ∈ scenario.order)) := by
  refine ⟨?_, ?_, ?_, ?_⟩
  · intro rows either
    rcases List.mem_pair.mp either with rfl | rfl
    · refine ⟨predecessors_size scenario, fun position => ⟨(table_holdsPairs _ _).nodup _, ?_⟩⟩
      intro entry member
      exact (positionPairs_lt scenario ((mem_predecessors scenario entry position).mp member)).1
    · refine ⟨successors_size scenario, fun position => ⟨(table_holdsPairs _ _).nodup _, ?_⟩⟩
      intro entry member
      exact (positionPairs_lt scenario ((mem_successors scenario position entry).mp member)).2
  · intro before after
    rw [mem_successors, mem_predecessors]
  · intro before after
    rw [mem_successors, mem_positionPairs]
  · intro accepted before after first second atBefore atAfter
    have distinct := (checked_of_validate scenario accepted).1
    rw [mem_successors]
    exact mem_positionPairs_iff_index scenario distinct atBefore atAfter

/-- Indices that are not in their order, and a pair given twice. -/
def crossedScenario : Scenario :=
  { Scenario.empty with
    threads := [⟨5, []⟩, ⟨3, []⟩, ⟨4, []⟩]
    order := [(3, 5), (4, 5), (3, 5)] }

/-- The thread declared first waits for both others, and stands once in the row of each. -/
theorem tables_transposed_crossed :
    crossedScenario.validate = .ok () ∧
    crossedScenario.predecessors ∈ [crossedScenario.predecessors, crossedScenario.successors] ∧
    crossedScenario.predecessors.getD 0 [] = [1, 2] ∧
    (crossedScenario.predecessors.getD 0 []).Nodup ∧
    0 ∈ crossedScenario.successors.getD 1 [] ∧
    crossedScenario.threads[1]? = some ⟨3, []⟩ ∧
    crossedScenario.threads[0]? = some ⟨5, []⟩ ∧
    (3, 5) ∈ crossedScenario.order := by
  have accepted : crossedScenario.validate = .ok () := by rfl
  have row : crossedScenario.predecessors.getD 0 [] = [1, 2] := by rfl
  obtain ⟨proper, transposed, _, pairs⟩ := tables_transposed crossedScenario
  have member : 0 ∈ crossedScenario.successors.getD 1 [] := by
    rw [transposed 1 0, row]
    exact List.mem_cons_self
  exact ⟨accepted, List.mem_cons_self, row, ((proper _ List.mem_cons_self).2 0).1, member, rfl, rfl,
    (pairs accepted 1 0 ⟨3, []⟩ ⟨5, []⟩ rfl rfl).mp member⟩

/-- The order means the last of two threads with one index, and leaves out what is undeclared. -/
example : Scenario.successors
    { Scenario.empty with
      threads := [⟨1, []⟩, ⟨1, []⟩, ⟨2, []⟩]
      order := [(1, 2), (2, 7), (2, 2), (1, 2)] } = #[[], [2], [2]] := by
  rfl

end Interleave.Scenario

import Interleave.Proofs.Linearization

set_option autoImplicit false

/-! The search has no dead ends on a scenario that has been read. From every state it comes to,
the path goes on to a linearization; where it cannot go on it is one. So there is always
something to find. -/

namespace Interleave

private theorem Plan.leaves_ne_nil (plan : Plan) : plan.leaves plan.total [] ≠ [] := by
  obtain ⟨further, complete, maximal⟩ := (Plan.Walk.start : plan.Walk []).exists_completion
  exact List.ne_nil_of_mem (Scenario.mem_leaves_iff_walk.mpr ⟨complete, maximal⟩)

/-- A path is kept at a fresh state without a next step, so only when its walk is maximal. -/
theorem Search.Reached.maximal {plan : Plan} {limit : Nat} {search : Search}
    (reached : Search.Reached plan limit search) (fresh : search.fresh = true)
    (ended : search.next? plan = none) : plan.Maximal search.choices := by
  have holds := reached.invariant
  have nexts := (Search.next?_eq_none_iff holds).mp ended
  rw [holds.resume_zero fresh] at nexts
  exact Plan.maximal_iff.mpr nexts

namespace Scenario

/-- Whatever walk the search is on goes on to a linearization. -/
theorem exists_isLinearization_of_walk {scenario : Scenario} (valid : scenario.Valid)
    {choices : List Nat} (walk : (Plan.ofScenario scenario).Walk choices) :
    ∃ later, scenario.IsLinearization
      (((Plan.ofScenario scenario).replay choices).reverse ++ later) := by
  obtain ⟨further, complete, maximal⟩ := walk.exists_completion
  obtain ⟨later, split⟩ := (Plan.ofScenario scenario).replay_suffix further choices
  refine ⟨later.reverse, ?_⟩
  rw [← List.reverse_append, split]
  exact isLinearization_of_maximal valid complete maximal

/-- In every state of the search the path begins a linearization. Where the search has come
forward and no thread may advance, all threads are finished and the path is a linearization.
So a search that ends has found some, and a limit of none is always too low. -/
theorem search_completes {members : Members Json} {scenario : Scenario}
    (accepted : Scenario.read members = .ok scenario) :
    (∀ limit search, Search.Reached (Plan.ofScenario scenario) limit search →
      (∃ later, scenario.IsLinearization (search.path.reverse ++ later)) ∧
      (search.fresh = true → search.next? (Plan.ofScenario scenario) = none →
        (∀ position < (Plan.ofScenario scenario).bodies.size,
          search.finished (Plan.ofScenario scenario) position = true) ∧
        scenario.IsLinearization search.path.reverse)) ∧
    (∀ limit found, scenario.linearizations limit = .ok found →
      found ≠ [] ∧ ∀ sequence ∈ found, scenario.IsLinearization sequence.toList) ∧
    scenario.linearizations 0 = .error (.tooMany 0) := by
  have valid := valid_of_read accepted
  refine ⟨?_, ?_, ?_⟩
  · intro limit search reached
    have holds := reached.invariant
    rw [holds.path_eq]
    refine ⟨exists_isLinearization_of_walk valid holds.walk, ?_⟩
    intro fresh ended
    have maximal := reached.maximal fresh ended
    refine ⟨?_, isLinearization_of_maximal valid holds.walk maximal⟩
    intro position bound
    obtain ⟨thread, threadAt⟩ := exists_thread bound
    rw [Search.finished_iff holds]
    exact finished_of_maximal valid holds.walk maximal threadAt
  · intro limit found returned
    refine ⟨?_, ?_⟩
    · rw [linearizations_found returned]
      intro none
      exact Plan.leaves_ne_nil _ (List.map_eq_nil_iff.mp none)
    · intro sequence member
      exact (mem_linearizations_iff valid returned _).mp (List.mem_map_of_mem member)
  · rw [linearizations_eq]
    exact if_neg (fun few =>
      Plan.leaves_ne_nil _ (List.eq_nil_of_length_eq_zero (Nat.le_zero.mp few)))

/-- The first end that the search of the pair comes to: both calls of one thread, and then the
call of the other. -/
def pairEnd : Search :=
  (((Search.start (Plan.ofScenario pairScenario)).advance 0 ⟨"put", [], false, some 4⟩).advance 0
    ⟨"put", [], false, some 4⟩).advance 1 ⟨"take", [], false, some 7⟩

theorem search_completes_pair :
    Scenario.read pairDocument = .ok pairScenario ∧
    Search.Reached (Plan.ofScenario pairScenario) 3 pairEnd ∧
    pairEnd.next? (Plan.ofScenario pairScenario) = none ∧
    (∃ later, pairScenario.IsLinearization (pairEnd.path.reverse ++ later)) ∧
    (∀ position < (Plan.ofScenario pairScenario).bodies.size,
      pairEnd.finished (Plan.ofScenario pairScenario) position = true) ∧
    pairScenario.IsLinearization pairEnd.path.reverse ∧
    pairScenario.linearizations 3 = .ok pairOrderings ∧ pairOrderings ≠ [] ∧
    pairScenario.linearizations 0 = .error (.tooMany 0) := by
  have accepted : Scenario.read pairDocument = .ok pairScenario := by rfl
  have returned : pairScenario.linearizations 3 = .ok pairOrderings := by cbv
  have reached : Search.Reached (Plan.ofScenario pairScenario) 3 pairEnd := by
    have first := Search.Reached.step (.start : Search.Reached _ 3 _)
      (show Search.step (Plan.ofScenario pairScenario) 3 _ = .going _ by rfl)
    have second := Search.Reached.step first (by rfl)
    exact .step second (by rfl)
  have ended : pairEnd.next? (Plan.ofScenario pairScenario) = none := by rfl
  obtain ⟨states, results, none⟩ := search_completes accepted
  obtain ⟨continued, complete⟩ := states 3 pairEnd reached
  obtain ⟨finished, linear⟩ := complete rfl ended
  exact ⟨accepted, reached, ended, continued, finished, linear, returned,
    (results 3 pairOrderings returned).1, none⟩

end Scenario

end Interleave

import Interleave.Proofs.Linearization

set_option autoImplicit false

/-! How many linearizations there are, and what the limit of the search does. The limit is met
only where there are more, and below it nothing of it is seen. -/

namespace Interleave.Scenario

variable {scenario : Scenario} {limit : Nat}

/-- How many linearizations there are, whatever search finds them. -/
noncomputable def linearizationCount (scenario : Scenario) : Nat :=
  {calls | scenario.IsLinearization calls}.ncard

theorem length_of_linearizations (valid : scenario.Valid) {found : List (CallSequence Call)}
    (returned : scenario.linearizations limit = .ok found) :
    found.length = scenario.linearizationCount := by
  classical
  have distinct : (found.map CallSequence.toList).Nodup := by
    apply List.Nodup.of_map scenario.word
    rw [List.map_map]
    exact (linearizations_sorted valid returned).imp
      (fun less same => absurd less (by rw [same]; exact List.lt_irrefl _))
  have members : {calls | scenario.IsLinearization calls} =
      ((found.map CallSequence.toList).toFinset : Set (List Call)) := by
    ext calls
    rw [List.coe_toFinset]
    exact (mem_linearizations_iff valid returned calls).symm
  unfold linearizationCount
  rw [members, Set.ncard_coe_finset, List.toFinset_card_of_nodup distinct, List.length_map]

theorem leaves_length (valid : scenario.Valid) :
    ((Plan.ofScenario scenario).leaves (Plan.ofScenario scenario).total []).length =
      scenario.linearizationCount := by
  obtain ⟨_, found, returned⟩ := scenario.exists_linearizations
  rw [← length_of_linearizations valid returned, linearizations_found returned,
    List.length_map]

theorem linearizations_eq_ite (valid : scenario.Valid) (limit : Nat) :
    scenario.linearizations limit =
      if scenario.linearizationCount ≤ limit then
        .ok (((Plan.ofScenario scenario).leaves (Plan.ofScenario scenario).total []).map
          (Plan.ofScenario scenario).sequenceOf)
      else .error (.tooMany limit) := by
  rw [linearizations_eq, ← leaves_length valid]

theorem exists_linearizations_of_le (valid : scenario.Valid)
    (enough : scenario.linearizationCount ≤ limit) :
    ∃ found, scenario.linearizations limit = .ok found := by
  rw [linearizations_eq_ite valid]
  exact ⟨_, if_pos enough⟩

/-- There is one list of all linearizations that the search returns under every limit that is
no smaller than their number; under every smaller limit it reports that limit, and returns no
part of the list. -/
theorem linearizations_limited {members : Members Json} {scenario : Scenario}
    (accepted : Scenario.read members = .ok scenario) :
    ∃ found : List (CallSequence Call),
      (∀ calls, calls ∈ found.map CallSequence.toList ↔ scenario.IsLinearization calls) ∧
      found.length = scenario.linearizationCount ∧
      ∀ limit, scenario.linearizations limit =
        if scenario.linearizationCount ≤ limit then .ok found else .error (.tooMany limit) := by
  have valid := valid_of_read accepted
  obtain ⟨_, found, returned⟩ := scenario.exists_linearizations
  refine ⟨found, mem_linearizations_iff valid returned,
    length_of_linearizations valid returned, ?_⟩
  intro limit
  rw [linearizations_eq_ite valid, linearizations_found returned]

/-- Three linearizations: a limit of three is enough for them, and one of two is not. -/
theorem linearizations_limited_pair :
    Scenario.read pairDocument = .ok pairScenario ∧
    pairScenario.linearizationCount = 3 ∧
    pairScenario.linearizations 3 = .ok pairOrderings ∧
    pairScenario.linearizations 2 = .error (.tooMany 2) ∧
    ∀ limit ≥ 3, pairScenario.linearizations limit = .ok pairOrderings := by
  have accepted : Scenario.read pairDocument = .ok pairScenario := by rfl
  have returned : pairScenario.linearizations 3 = .ok pairOrderings := by cbv
  obtain ⟨found, _members, length, answers⟩ := linearizations_limited accepted
  have count := length_of_linearizations (valid_of_read accepted) returned
  change 3 = pairScenario.linearizationCount at count
  rw [← count] at length answers
  have same : found = pairOrderings := by
    have three := answers 3
    rw [returned, if_pos (Nat.le_refl 3)] at three
    exact (Except.ok.inj three).symm
  subst same
  exact ⟨accepted, count.symm, returned, answers 2, fun limit enough =>
    (answers limit).trans (if_pos enough)⟩

end Interleave.Scenario

import Interleave.Proofs.Sweep
import Interleave.Scenario.Wire

set_option autoImplicit false

/-! What is known of a scenario that has been read: its indices are distinct, its order names
declared threads only and can be ranked, and every call carries the index of its thread. -/

namespace Interleave.Scenario

structure Valid (scenario : Scenario) : Prop where
  distinct : scenario.indices.Nodup
  declared : ∀ pair ∈ scenario.order, pair.1 ∈ scenario.indices ∧ pair.2 ∈ scenario.indices
  ranked : ∃ rank : Nat → Nat, ∀ pair ∈ scenario.order, rank pair.1 < rank pair.2
  tagged : ∀ thread ∈ scenario.threads, ∀ call ∈ thread.calls,
    call.thread = some thread.index

theorem repeated?_eq_none_iff (met indices : List Nat) :
    repeated? met indices = none ↔ indices.Nodup ∧ ∀ index ∈ indices, index ∉ met := by
  induction indices generalizing met with
  | nil => simp [repeated?]
  | cons index rest ih =>
      unfold repeated?
      by_cases present : index ∈ met
      · rw [if_pos (List.contains_iff_mem.mpr present)]
        constructor
        · intro impossible
          cases impossible
        · rintro ⟨_distinct, fresh⟩
          exact absurd present (fresh index List.mem_cons_self)
      · rw [if_neg (fun found => present (List.contains_iff_mem.mp found)), ih,
          List.nodup_cons]
        simp only [List.mem_cons, not_or, forall_eq_or_imp]
        constructor
        · rintro ⟨distinct, fresh⟩
          exact ⟨⟨fun inside => (fresh index inside).1 rfl, distinct⟩, present,
            fun other member => (fresh other member).2⟩
        · rintro ⟨⟨notInRest, distinct⟩, _present, fresh⟩
          refine ⟨distinct, fun other member => ⟨?_, fresh other member⟩⟩
          rintro rfl
          exact notInRest member

theorem undeclared?_eq_none_iff (declared : List Nat) (order : List (Nat × Nat)) :
    undeclared? declared order = none ↔
      ∀ pair ∈ order, pair.1 ∈ declared ∧ pair.2 ∈ declared := by
  induction order with
  | nil => simp [undeclared?]
  | cons pair rest ih =>
      obtain ⟨before, after⟩ := pair
      unfold undeclared?
      by_cases first : before ∈ declared
      · by_cases second : after ∈ declared
        · simp [first, second, ih]
        · simp [first, second]
      · simp [first]

theorem successors_proper (scenario : Scenario) (distinct : scenario.indices.Nodup) :
    Sweep.Proper scenario.successors := by
  refine ⟨(table_holdsPairs _ _).nodup, ?_⟩
  intro position entry member
  obtain ⟨pair, _inOrder, _atBefore, atAfter⟩ :=
    (mem_successors_iff scenario distinct position entry).mp member
  rw [successors_size, ← indices_length]
  exact (List.getElem?_eq_some_iff.mp atAfter).1

/-- Where no cycle is reported, the order goes upward along some ranks. -/
theorem exists_rank_of_checkAcyclic (scenario : Scenario) (distinct : scenario.indices.Nodup)
    (declared : ∀ pair ∈ scenario.order,
      pair.1 ∈ scenario.indices ∧ pair.2 ∈ scenario.indices)
    (accepted : scenario.checkAcyclic = .ok ()) :
    ∃ rank : Nat → Nat, ∀ pair ∈ scenario.order, rank pair.1 < rank pair.2 := by
  have all : (Sweep.finish scenario.successors).taken = scenario.successors.size := by
    rw [successors_size]
    unfold checkAcyclic at accepted
    by_contra missing
    simp only [if_neg missing] at accepted
    cases accepted
  obtain ⟨rank, increasing⟩ := Sweep.exists_rank_of_finish scenario.successors
    (successors_proper scenario distinct) all
  refine ⟨fun index => rank ((scenario.positionOf? index).getD 0), ?_⟩
  intro pair member
  obtain ⟨first, second⟩ := declared pair member
  obtain ⟨before, atBefore⟩ := List.mem_iff_getElem?.mp first
  obtain ⟨after, atAfter⟩ := List.mem_iff_getElem?.mp second
  have bound : before < scenario.threads.length := by
    rw [← indices_length]
    exact (List.getElem?_eq_some_iff.mp atBefore).1
  change rank ((scenario.positionOf? pair.1).getD 0) < rank ((scenario.positionOf? pair.2).getD 0)
  rw [(positionOf?_eq_some_iff scenario distinct _ _).mpr atBefore,
    (positionOf?_eq_some_iff scenario distinct _ _).mpr atAfter]
  exact increasing before (by rw [successors_size]; exact bound) after
    ((mem_successors_iff scenario distinct before after).mpr
      ⟨pair, member, atBefore, atAfter⟩)

/-- Indices are looked at first, then the ends of the order, and last the order as a whole. -/
theorem validate_cases (scenario : Scenario) :
    (¬scenario.indices.Nodup ∧
      ∃ index, scenario.validate = .error (.duplicateThread index)) ∨
    (scenario.indices.Nodup ∧
      (∃ pair ∈ scenario.order, ¬(pair.1 ∈ scenario.indices ∧ pair.2 ∈ scenario.indices)) ∧
      ∃ before after missing,
        scenario.validate = .error (.unknownThread before after missing)) ∨
    (scenario.indices.Nodup ∧
      (∀ pair ∈ scenario.order, pair.1 ∈ scenario.indices ∧ pair.2 ∈ scenario.indices) ∧
      scenario.validate = scenario.checkAcyclic) := by
  unfold validate
  dsimp only
  cases repeated : repeated? [] (scenario.threads.map Thread.index) with
  | some index =>
      left
      refine ⟨?_, index, rfl⟩
      intro distinct
      have fresh := (repeated?_eq_none_iff [] scenario.indices).mpr
        ⟨distinct, fun _ _ => List.not_mem_nil⟩
      rw [indices, repeated] at fresh
      cases fresh
  | none =>
      right
      have distinct := ((repeated?_eq_none_iff _ _).mp repeated).1
      cases undeclared : undeclared? (scenario.threads.map Thread.index) scenario.order with
      | some found =>
          left
          refine ⟨distinct, ?_, found.1, found.2.1, found.2.2, rfl⟩
          by_contra none
          push Not at none
          have named := (undeclared?_eq_none_iff scenario.indices scenario.order).mpr none
          rw [indices, undeclared] at named
          cases named
      | none => exact Or.inr ⟨distinct, (undeclared?_eq_none_iff _ _).mp undeclared, rfl⟩

theorem checked_of_validate (scenario : Scenario) (accepted : scenario.validate = .ok ()) :
    scenario.indices.Nodup ∧
      (∀ pair ∈ scenario.order, pair.1 ∈ scenario.indices ∧ pair.2 ∈ scenario.indices) ∧
      scenario.checkAcyclic = .ok () := by
  rcases scenario.validate_cases with ⟨_, _, refused⟩ | ⟨_, _, _, _, _, refused⟩ |
    ⟨distinct, declared, checked⟩
  · rw [refused] at accepted
    cases accepted
  · rw [refused] at accepted
    cases accepted
  · rw [checked] at accepted
    exact ⟨distinct, declared, accepted⟩

theorem valid_of_validate (scenario : Scenario) (accepted : scenario.validate = .ok ())
    (tagged : ∀ thread ∈ scenario.threads, ∀ call ∈ thread.calls,
      call.thread = some thread.index) : scenario.Valid := by
  obtain ⟨distinct, declared, checked⟩ := checked_of_validate scenario accepted
  exact ⟨distinct, declared, exists_rank_of_checkAcyclic scenario distinct declared checked,
    tagged⟩

theorem tagged_calls (scenario : Scenario) :
    ∀ thread ∈ scenario.tagged.threads, ∀ call ∈ thread.calls,
      call.thread = some thread.index := by
  intro thread member call inCalls
  obtain ⟨original, _inThreads, rfl⟩ := List.mem_map.mp member
  obtain ⟨untagged, _inOriginal, rfl⟩ := List.mem_map.mp inCalls
  rfl

/-- What is read is what was decoded, tagged, where that passes the check. -/
theorem read_eq_ok_iff {members : Members Json} {scenario : Scenario} :
    Scenario.read members = .ok scenario ↔
      ∃ decoded, ofMembers members = .ok decoded ∧ decoded.tagged = scenario ∧
        scenario.validate = .ok () := by
  unfold Scenario.read
  constructor
  · intro accepted
    cases decodedAt : ofMembers members with
    | error cause =>
        rw [decodedAt] at accepted
        cases accepted
    | ok decoded =>
        rw [decodedAt] at accepted
        cases validated : decoded.tagged.validate with
        | error error =>
            simp only [validated] at accepted
            cases accepted
        | ok done =>
            simp only [validated, Except.ok.injEq] at accepted
            exact ⟨decoded, rfl, accepted, accepted ▸ validated⟩
  · rintro ⟨decoded, decodedAt, rfl, validated⟩
    rw [decodedAt]
    dsimp only
    rw [validated]

theorem valid_of_read {members : Members Json} {scenario : Scenario}
    (accepted : Scenario.read members = .ok scenario) : scenario.Valid := by
  obtain ⟨decoded, _, rfl, validated⟩ := read_eq_ok_iff.mp accepted
  exact valid_of_validate decoded.tagged validated (tagged_calls decoded)

end Interleave.Scenario

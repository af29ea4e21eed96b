import Mathlib

set_option autoImplicit false

/-! Attempts that give a result or fail. A traversal succeeds with the results of its items, so
what is known of each of these is known of all. -/

namespace Interleave

variable {α β γ ε : Type}

theorem exists_of_map_ok {view : α → β} {outcome : Except ε α} {value : β}
    (accepted : outcome.map view = .ok value) :
    ∃ result, outcome = .ok result ∧ value = view result := by
  cases outcome with
  | error error => cases accepted
  | ok result => exact ⟨result, rfl, (Except.ok.inj accepted).symm⟩

theorem exists_of_bind_ok {attempt : Except ε α} {next : α → Except ε β} {value : β}
    (accepted : attempt >>= next = .ok value) :
    ∃ result, attempt = .ok result ∧ next result = .ok value := by
  cases attempt with
  | error error => cases accepted
  | ok result => exact ⟨result, rfl, accepted⟩

theorem mapM_eq_ok_iff {action : α → Except ε β} {items : List α} {results : List β} :
    items.mapM action = .ok results ↔
      List.Forall₂ (fun item result => action item = .ok result) items results := by
  induction items generalizing results with
  | nil =>
      change Except.ok [] = Except.ok results ↔ _
      rw [List.forall₂_nil_left_iff, Except.ok.injEq, eq_comm]
  | cons item items ih =>
      rw [List.mapM_cons, List.forall₂_cons_left_iff]
      constructor
      · intro accepted
        obtain ⟨result, first, rest⟩ := exists_of_bind_ok accepted
        obtain ⟨others, later, whole⟩ := exists_of_bind_ok rest
        exact ⟨result, others, first, ih.mp later, (Except.ok.inj whole).symm⟩
      · rintro ⟨result, others, first, later, rfl⟩
        rw [first, ih.mpr later]
        rfl

theorem exists_of_mem_mapM {action : α → Except ε β} {items : List α} {results : List β}
    (accepted : items.mapM action = .ok results) {result : β} (member : result ∈ results) :
    ∃ item ∈ items, action item = .ok result := by
  have each := mapM_eq_ok_iff.mp accepted
  clear accepted
  induction each with
  | nil => exact absurd member List.not_mem_nil
  | cons made _ ih =>
      rcases List.mem_cons.mp member with rfl | later
      · exact ⟨_, List.mem_cons_self, made⟩
      · obtain ⟨item, inItems, madeLater⟩ := ih later
        exact ⟨item, List.mem_cons_of_mem _ inItems, madeLater⟩

theorem exists_mapM_eq_ok {action : α → Except ε β} {items : List α}
    (each : ∀ item ∈ items, ∃ result, action item = .ok result) :
    ∃ results, items.mapM action = .ok results := by
  induction items with
  | nil => exact ⟨[], rfl⟩
  | cons item items ih =>
      obtain ⟨⟨result, first⟩, later⟩ := List.forall_mem_cons.mp each
      obtain ⟨results, others⟩ := ih later
      exact ⟨result :: results, mapM_eq_ok_iff.mpr (.cons first (mapM_eq_ok_iff.mp others))⟩

theorem mapM_eq_ok {action : α → Except ε β} {seen : α → β} {items : List α}
    (agree : ∀ item ∈ items, action item = .ok (seen item)) :
    items.mapM action = .ok (items.map seen) := by
  rw [mapM_eq_ok_iff, List.forall₂_map_right_iff]
  exact List.forall₂_same.mpr agree

/-- What is known of each result of its item, seen on all of them. -/
theorem map_eq_of_mapM_ok {action : α → Except ε β} {view : β → γ} {seen : α → γ}
    (agree : ∀ item result, action item = .ok result → view result = seen item)
    {items : List α} {results : List β} (accepted : items.mapM action = .ok results) :
    results.map view = items.map seen := by
  have each := (mapM_eq_ok_iff.mp accepted).imp agree
  rw [← List.forall₂_eq_eq_eq, List.forall₂_map_left_iff, List.forall₂_map_right_iff]
  exact each.flip

theorem eq_map_of_mapM_ok {action : α → Except ε β} {seen : α → β}
    (agree : ∀ item result, action item = .ok result → result = seen item)
    {items : List α} {results : List β} (accepted : items.mapM action = .ok results) :
    results = items.map seen := by
  have same : results.map id = items.map seen := map_eq_of_mapM_ok agree accepted
  rwa [List.map_id] at same

end Interleave

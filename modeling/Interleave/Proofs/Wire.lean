import Interleave.Proofs.Attempts
import Interleave.Proofs.Validity

set_option autoImplicit false

/-! Scenarios read back from their written form. A member that was left out is the default of its
field, and the threads of calls, which are not written, come back as tags. -/

namespace Interleave

private theorem Decode.list_array {α : Type} {decode : Json → Except Mismatch α} {encode : α → Json}
    {seen : α → α} (agree : ∀ item, decode (encode item) = .ok (seen item)) (items : List α) :
    Decode.list decode (.array (items.map encode)) = .ok (items.map seen) := by
  unfold Decode.list Decode.array
  change (items.map encode).mapM decode = _
  rw [List.mapM_map]
  exact mapM_eq_ok (fun item _ => agree item)

def Call.untagged (call : Call) : Call := { call with thread := none }

theorem Call.ofJson_toJson (call : Call) : Call.ofJson call.toJson = .ok call.untagged := by
  obtain ⟨method, arguments, isVoid, thread⟩ := call
  cases isVoid with
  | true => rfl
  | false => rfl

def Thread.untagged (thread : Thread) : Thread :=
  { thread with calls := thread.calls.map Call.untagged }

theorem Thread.ofJson_toJson (thread : Thread) :
    Thread.ofJson thread.toJson = .ok thread.untagged := by
  have calls : Decode.list Call.ofJson (.array (thread.calls.map Call.toJson)) =
      .ok (thread.calls.map Call.untagged) := Decode.list_array Call.ofJson_toJson thread.calls
  unfold Thread.toJson Thread.ofJson Thread.ofMembers
  simp only [List.foldlM_cons, List.foldlM_nil, Draft.field, Json.natural, Number.natural,
    Decode.natural, calls, bind, Except.bind, pure, Except.pure]
  rfl

namespace Scenario

private theorem orderPair_toJson (pair : Nat × Nat) :
    orderPair (.array [.natural pair.1, .natural pair.2]) = .ok pair := rfl

private theorem foldlM_append {start middle result : Scenario} {front back : Members Json}
    (first : front.foldlM field start = .ok middle)
    (rest : back.foldlM field middle = .ok result) :
    (front ++ back).foldlM field start = .ok result := by
  rw [List.foldlM_append, first]
  exact rest

/-- A member that may be left out leads from the default of its field to its value. -/
theorem foldlM_optionalMember {α : Type} {name : String} {encode : α → Json} {value : Option α}
    {start result : Scenario}
    (present : ∀ known, value = some known → field start (name, encode known) = .ok result)
    (absent : value = none → start = result) :
    (optionalMember name (value.map encode)).foldlM field start = .ok result := by
  cases value with
  | none =>
      rw [← absent rfl]
      rfl
  | some known =>
      have taken := present known rfl
      unfold optionalMember
      rw [Option.map_some, List.foldlM_cons, taken]
      rfl

private theorem foldlM_nonemptyMember {name : String} {items : List Json} {start result : Scenario}
    (present : field start (name, .array items) = .ok result)
    (absent : items = [] → start = result) :
    (nonemptyMember name items).foldlM field start = .ok result := by
  unfold nonemptyMember
  cases items with
  | nil =>
      rw [← absent rfl]
      rfl
  | cons item items =>
      change [(name, Json.array (item :: items))].foldlM field start = _
      rw [List.foldlM_cons, present]
      rfl

def untagged (scenario : Scenario) : Scenario :=
  { scenario with threads := scenario.threads.map Thread.untagged }

private theorem field_sequences (start : Scenario) (threads : List Thread) :
    field start ("sequences", .array (threads.map Thread.toJson)) =
      .ok { start with threads := threads.map Thread.untagged } := by
  unfold field
  dsimp only
  rw [Decode.list_array Thread.ofJson_toJson]
  rfl

private theorem field_order (start : Scenario) (order : List (Nat × Nat)) :
    field start ("order", .array (order.map (fun pair =>
      .array [.natural pair.1, .natural pair.2]))) = .ok { start with order } := by
  have decoded : Decode.list orderPair (.array (order.map (fun pair =>
      .array [.natural pair.1, .natural pair.2]))) = .ok (order.map (fun pair => pair)) :=
    Decode.list_array orderPair_toJson order
  unfold field
  dsimp only
  rw [decoded, List.map_id']
  rfl

private theorem field_outcomes (start : Scenario) (outcomes : List (List Json)) :
    field start ("outcomes", .array (outcomes.map .array)) = .ok { start with outcomes } := by
  have decoded : Decode.list Decode.array (.array (outcomes.map .array)) =
      .ok (outcomes.map (fun outcome => outcome)) :=
    Decode.list_array (fun (_ : List Json) => rfl) outcomes
  unfold field
  dsimp only
  rw [decoded, List.map_id']
  rfl

/-- Each member takes its field from the default to its value; the fields after it are still at
their defaults. -/
theorem ofMembers_members (scenario : Scenario) :
    ofMembers scenario.members = .ok scenario.untagged := by
  obtain ⟨className, id, threads, order, language, objectName, setup, setupParameters,
    outcomes⟩ := scenario
  let named : Scenario := { Scenario.empty with className }
  let numbered : Scenario := { named with id }
  let ordered : Scenario := { numbered with threads := threads.map Thread.untagged, order }
  let worded : Scenario := { ordered with language }
  let sharing : Scenario := { worded with objectName }
  let starting : Scenario := { sharing with setup }
  let started : Scenario := { starting with setupParameters }
  have first : (optionalMember "class" (className.map .string)).foldlM field Scenario.empty =
      .ok named :=
    foldlM_optionalMember (fun _ same => by subst same; rfl) (fun same => by subst same; rfl)
  have second : (optionalMember "id" (id.map .natural)).foldlM field named = .ok numbered :=
    foldlM_optionalMember (fun _ same => by subst same; rfl) (fun same => by subst same; rfl)
  have third : List.foldlM field numbered
      [("sequences", Json.array (threads.map Thread.toJson)),
        ("order", .array (order.map (fun pair =>
          .array [.natural pair.1, .natural pair.2])))] = .ok ordered := by
    rw [List.foldlM_cons, field_sequences]
    change [("order", _)].foldlM field _ = _
    rw [List.foldlM_cons, field_order]
    rfl
  have fourth : (optionalMember "language" (language.map (fun language =>
      .string language.name))).foldlM field ordered = .ok worded :=
    foldlM_optionalMember
      (fun known same => by
        subst same
        cases known with
        | c => rfl
        | cpp => rfl)
      (fun same => by subst same; rfl)
  have fifth : (optionalMember "object_name" (objectName.map .string)).foldlM field worded =
      .ok sharing :=
    foldlM_optionalMember (fun _ same => by subst same; rfl) (fun same => by subst same; rfl)
  have sixth : (optionalMember "init" (setup.map .string)).foldlM field sharing = .ok starting :=
    foldlM_optionalMember (fun _ same => by subst same; rfl) (fun same => by subst same; rfl)
  have seventh : (nonemptyMember "init_parameters" setupParameters).foldlM field starting =
      .ok started :=
    foldlM_nonemptyMember rfl (fun same => by subst same; rfl)
  have last : (nonemptyMember "outcomes" (outcomes.map .array)).foldlM field started =
      .ok { started with outcomes } :=
    foldlM_nonemptyMember (field_outcomes started outcomes)
      (fun same => by rw [List.map_eq_nil_iff.mp same]; rfl)
  exact foldlM_append (foldlM_append (foldlM_append (foldlM_append (foldlM_append
    (foldlM_append (foldlM_append first second) third) fourth) fifth) sixth) seventh) last

private theorem tagged_untagged {scenario : Scenario}
    (own : ∀ thread ∈ scenario.threads, ∀ call ∈ thread.calls,
      call.thread = some thread.index) :
    scenario.untagged.tagged = scenario := by
  obtain ⟨className, id, threads, order, language, objectName, setup, setupParameters,
    outcomes⟩ := scenario
  have same : (threads.map Thread.untagged).map (fun thread =>
      { thread with calls := thread.calls.map (fun call => call.onThread thread.index) }) =
      threads := by
    rw [List.map_map]
    refine (List.map_congr_left ?_).trans (List.map_id' threads)
    intro thread member
    have calls : (thread.calls.map Call.untagged).map (fun call => call.onThread thread.index) =
        thread.calls := by
      rw [List.map_map]
      refine (List.map_congr_left ?_).trans (List.map_id' thread.calls)
      intro call inside
      have tag := own thread member call inside
      unfold Call.untagged Call.onThread
      dsimp only [Function.comp_apply]
      rw [← tag]
    unfold Thread.untagged
    dsimp only [Function.comp_apply]
    rw [calls]
  unfold untagged tagged
  dsimp only
  rw [same]

theorem read_members {scenario : Scenario} (accepted : scenario.validate = .ok ())
    (own : ∀ thread ∈ scenario.threads, ∀ call ∈ thread.calls,
      call.thread = some thread.index) :
    Scenario.read scenario.members = .ok scenario :=
  read_eq_ok_iff.mpr ⟨scenario.untagged, ofMembers_members scenario, tagged_untagged own,
    accepted⟩

/-- A scenario is read back from its written form exactly when it is valid and its calls carry
the indices of their own threads. -/
theorem read_members_iff (scenario : Scenario) :
    Scenario.read scenario.members = .ok scenario ↔
      scenario.validate = .ok () ∧
        ∀ thread ∈ scenario.threads, ∀ call ∈ thread.calls,
          call.thread = some thread.index := by
  constructor
  · intro reread
    obtain ⟨decoded, _decodedAt, same, accepted⟩ := read_eq_ok_iff.mp reread
    refine ⟨accepted, ?_⟩
    rw [← same]
    exact tagged_calls decoded
  · rintro ⟨accepted, own⟩
    exact read_members accepted own

end Scenario

end Interleave

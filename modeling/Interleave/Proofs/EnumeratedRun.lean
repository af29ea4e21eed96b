import Interleave.Proofs.Accepted
import Interleave.Proofs.Annotation
import Interleave.Proofs.Counting
import Interleave.Proofs.Policies
import Interleave.Proofs.Wire
import Interleave.Proofs.WrittenStream

set_option autoImplicit false

/-! The stream of an enumeration through the driver. Every document of the stream is one of the
scenarios, and comes out as it was with its results; so the run counts them all and stops at
none. -/

open Interleave.Frame

namespace Interleave

/-! ### One document -/

namespace Choice.Allowed

variable {spec : ClassSpec} {request : EnumerationRequest} {target : MethodSpec}
  {choice : Choice}

private theorem read_numbered (allowed : choice.Allowed spec request target) (className : String)
    (id : Nat) :
    Scenario.read (choice.numbered className id).members = .ok (choice.numbered className id) :=
  Scenario.read_members (allowed.validate_numbered className id)
    (choice.numbered_tagged className id)

private theorem exists_build (allowed : choice.Allowed spec request target) (className : String)
    (id : Nat) {settings : Settings}
    (enough : (choice.numbered className id).linearizationCount ≤ settings.limit) :
    ∃ harness, Harness.build (choice.numbered className id).members settings = .ok harness ∧
      harness.linearizations.length = (choice.numbered className id).linearizationCount := by
  have accepted := allowed.read_numbered className id
  have valid := Scenario.valid_of_read accepted
  obtain ⟨found, returned⟩ := Scenario.exists_linearizations_of_le valid enough
  obtain ⟨test, made⟩ := Harness.exists_nativeTest? (allowed.exists_programText className id)
    (choice.numbered className id).members settings
  exact ⟨⟨found, test⟩, Harness.build_eq_ok_iff.mpr ⟨_, accepted, returned, made⟩,
    Scenario.length_of_linearizations valid returned⟩

end Choice.Allowed

namespace Run

variable {settings : Settings} {raw : List UInt8} {document : Members Json} {harness : Harness}

private theorem succeeds_of_build (parsed : Json.parseObject raw = .ok document)
    (built : Harness.build document settings = .ok harness) : succeeds settings raw = true := by
  unfold succeeds process
  rw [parsed]
  dsimp only
  rw [built]
  rfl

private theorem members_of_build (parsed : Json.parseObject raw = .ok document)
    (built : Harness.build document settings = .ok harness) (ordinal : Nat) :
    members settings ordinal raw =
      Document.annotate document harness.results harness.linearizations.length := by
  unfold members
  rw [parsed]
  dsimp only
  rw [built]

/-- A run that aborts comes to its end when every document succeeds. -/
theorem abort_ends_of_passed {documents : List (List UInt8)} {outcome : RunResult}
    (ends : Ends settings .abort none false documents outcome)
    (passed : ∀ raw ∈ documents, succeeds settings raw = true) :
    outcome = ⟨String.join (frames settings documents), .ok ⟨documents.length, 0⟩⟩ := by
  rcases abort_ends ends with ⟨_, outcome⟩ | ⟨before, raw, later, cause, split, _, failed, _⟩
  · exact outcome
  · have member : raw ∈ documents := by
      rw [split]
      exact List.mem_append_right _ List.mem_cons_self
    have succeeded := passed raw member
    unfold succeeds at succeeded
    rw [failed] at succeeded
    cases succeeded

end Run

private theorem Written.parseObject_textOf {scenario : Scenario}
    (plain : Json.Plain Reader.deepest scenario.toJson) :
    Json.parseObject (framed (textOf scenario)) = .ok scenario.members := by
  have same : Json.object (Json.rereadMembers scenario.members) = .object scenario.members := by
    have whole := plain.reread
    unfold Scenario.toJson at whole
    rwa [Json.reread] at whole
  have read := Run.parseObject_framed_spell .indented plain.readable
  rw [Json.object.inj same] at read
  exact read

/-! ### The run -/

namespace ClassSpec

variable {spec : ClassSpec} {request : EnumerationRequest} {scenarios : List Scenario}

/-- Every enumerated scenario is an allowed choice, numbered by its place. -/
theorem exists_choice_of_enumerate (enumerated : spec.enumerate request = .ok scenarios)
    {position : Nat} {scenario : Scenario} (place : scenarios[position]? = some scenario) :
    ∃ target ∈ spec.methods, ∃ choice : Choice, choice.Allowed spec request target ∧
      scenario = choice.numbered spec.name position := by
  by_cases enough : request.threads ≤ request.calls
  · obtain ⟨target, orders, found, known, rfl⟩ :=
      Enumeration.identified_listed_of_enumerate enough enumerated
    unfold Enumeration.identified at place
    rw [List.getElem?_map, List.getElem?_zipIdx, Option.map_map, Option.map_eq_some_iff] at place
    obtain ⟨unnumbered, listed, rfl⟩ := place
    obtain ⟨choice, inOrders, inShapes, inChoices, fits, rfl⟩ :=
      (Enumeration.mem_listed enough).mp (List.mem_of_getElem? listed)
    refine ⟨target, (ClassSpec.declared_of_method? found).1, choice,
      Choice.allowed_of_listed known enough inOrders inShapes inChoices fits, ?_⟩
    dsimp only [Function.comp_apply]
    rw [Nat.zero_add]
    rfl
  · rw [Enumeration.eq_nil_of_enumerate (Nat.lt_of_not_le enough) enumerated] at place
    cases place

private theorem exists_choice_of_mem (enumerated : spec.enumerate request = .ok scenarios)
    {scenario : Scenario} (member : scenario ∈ scenarios) :
    ∃ position < scenarios.length, ∃ target ∈ spec.methods, ∃ choice : Choice,
      choice.Allowed spec request target ∧ scenario = choice.numbered spec.name position := by
  obtain ⟨position, inRange, place⟩ := List.mem_iff_getElem.mp member
  exact ⟨position, inRange, exists_choice_of_enumerate enumerated
    (List.getElem?_eq_some_iff.mpr ⟨inRange, place⟩)⟩

private theorem plain_of_enumerate
    (clean : ∀ name ∈ spec.name :: spec.methods.map MethodSpec.name, ¬dashes <:+: name.toList)
    (fewValues : request.values ≤ 2 ^ 64) (few : scenarios.length ≤ 2 ^ 64)
    (enumerated : spec.enumerate request = .ok scenarios) :
    ∀ scenario ∈ scenarios, Json.Plain Reader.deepest scenario.toJson := by
  intro scenario member
  obtain ⟨position, inRange, target, declared, choice, allowed, rfl⟩ :=
    exists_choice_of_mem enumerated member
  obtain ⟨cleanClass, cleanMethods⟩ := List.forall_mem_cons.mp clean
  rw [List.forall_mem_map] at cleanMethods
  have cleanChoice : ∀ method ∈ choice.methods, ¬dashes <:+: method.name.toList := by
    intro method inside
    apply cleanMethods
    cases allowed.methods_mem method inside with
    | head => exact declared
    | tail _ trusted => exact List.mem_of_mem_filter trusted
  exact allowed.plain_numbered fewValues cleanClass cleanChoice (by omega) 121

private theorem build_of_enumerate {settings : Settings}
    (enumerated : spec.enumerate request = .ok scenarios)
    (enough : ∀ scenario ∈ scenarios, scenario.linearizationCount ≤ settings.limit) :
    ∀ scenario ∈ scenarios, ∃ harness,
      Harness.build scenario.members settings = .ok harness ∧
        harness.linearizations.length = scenario.linearizationCount := by
  intro scenario member
  obtain ⟨position, _, target, _, choice, allowed, rfl⟩ := exists_choice_of_mem enumerated member
  exact allowed.exists_build spec.name position (enough _ member)

end ClassSpec

/-- The stream of an enumeration runs through to its end: one document for each scenario, with the
members of the scenario, the results, and the number of its linearizations. Values and ids fit in
64 bits, as numbers of the wire format do. -/
theorem ClassSpec.enumerate_run {spec : ClassSpec} {request : EnumerationRequest}
    {scenarios : List Scenario} {settings : Settings} {source : Source}
    (clean : ∀ name ∈ spec.name :: spec.methods.map MethodSpec.name, ¬dashes <:+: name.toList)
    (fewValues : request.values ≤ 2 ^ 64) (few : scenarios.length ≤ 2 ^ 64)
    (enumerated : spec.enumerate request = .ok scenarios)
    (enough : ∀ scenario ∈ scenarios, scenario.linearizationCount ≤ settings.limit)
    (delivers : source.Delivers (Utf8.encode (Written.ofScenarios none scenarios).output)) :
    (Written.ofScenarios none scenarios).count = some scenarios.length ∧
    ∃ objects : List (Members Json),
      run settings .abort none source =
        ⟨String.join (objects.map (fun object => Frame.ofText (Json.compact (.object object)))),
          .ok ⟨scenarios.length, 0⟩⟩ ∧
      objects.length = scenarios.length ∧
      ∀ (position : Nat) (scenario : Scenario), scenarios[position]? = some scenario →
        ∃ object, objects[position]? = some object ∧
          (∀ name, name ≠ "results" → name ≠ "linearizations" →
            object.find? name = scenario.members.find? name) ∧
          object.find? "id" = some (.natural position) ∧
          object.find? "linearizations" = some (.natural scenario.linearizationCount) := by
  have plain := plain_of_enumerate clean fewValues few enumerated
  have documents := Written.documents_ofScenarios
    (fun scenario member => (plain scenario member).not_someDashes)
  have built := build_of_enumerate enumerated enough
  have passed : ∀ raw ∈ documentsOf (Utf8.encode (Written.ofScenarios none scenarios).output) none,
      Run.succeeds settings raw = true := by
    rw [documents]
    intro raw member
    obtain ⟨scenario, inScenarios, rfl⟩ := List.mem_map.mp member
    obtain ⟨harness, made, _⟩ := built scenario inScenarios
    exact Run.succeeds_of_build (Written.parseObject_textOf (plain scenario inScenarios)) made
  refine ⟨Written.count_ofScenarios scenarios,
    scenarios.mapIdx (fun place scenario =>
      Run.members settings (place + 1) (framed (Written.textOf scenario))), ?_,
    List.length_mapIdx, ?_⟩
  · rw [Run.abort_ends_of_passed (run_ends settings .abort none (.whole delivers)) passed,
      documents, List.length_map]
    congr 2
    unfold Run.frames
    apply List.ext_getElem?
    intro position
    rw [List.getElem?_mapIdx, List.getElem?_map, List.getElem?_map, List.getElem?_mapIdx,
      Option.map_map, Option.map_map]
    rfl
  · intro position scenario place
    have member := List.mem_of_getElem? place
    obtain ⟨harness, made, count⟩ := built scenario member
    have same := Run.members_of_build (Written.parseObject_textOf (plain scenario member)) made
    obtain ⟨target, declared, choice, allowed, rfl⟩ := exists_choice_of_enumerate enumerated place
    refine ⟨_, by rw [List.getElem?_mapIdx, place, Option.map_some, same], ?_, ?_, ?_⟩
    · exact fun name notResults notCount =>
        Document.find?_annotate notResults notCount harness.results _
    · rw [Document.find?_annotate (by decide) (by decide)]
      rfl
    · rw [← count]
      exact Document.find?_annotate_count _ _ _

/-- The two scenarios of `get()` beside `add(0)`. -/
def counterScenarios : List Scenario :=
  [{ Scenario.empty with
      className := some "Counter"
      id := some 0
      threads := [⟨0, [⟨"get", [], false, some 0⟩]⟩, ⟨1, [⟨"add", [.natural 0], true, some 1⟩]⟩] },
    { Scenario.empty with
      className := some "Counter"
      id := some 1
      threads := [⟨0, [⟨"add", [.natural 0], true, some 0⟩]⟩, ⟨1, [⟨"get", [], false, some 1⟩]⟩] }]

theorem ClassSpec.enumerate_run_counter :
    counterSpec.enumerate ⟨"get", 2, 2, 1⟩ = .ok counterScenarios ∧
    ∃ objects : List (Members Json),
      run plainSettings .abort none
          ⟨[Utf8.encode (Written.ofScenarios none counterScenarios).output], false⟩ =
        ⟨String.join (objects.map (fun object => Frame.ofText (Json.compact (.object object)))),
          .ok ⟨2, 0⟩⟩ ∧
      ∀ (position : Nat) (scenario : Scenario), counterScenarios[position]? = some scenario →
        ∃ object, objects[position]? = some object ∧
          object.find? "id" = some (.natural position) ∧
          object.find? "linearizations" = some (.natural scenario.linearizationCount) := by
  have enumerated : counterSpec.enumerate ⟨"get", 2, 2, 1⟩ = .ok counterScenarios := by rfl
  have enough : ∀ scenario ∈ counterScenarios,
      scenario.linearizationCount ≤ plainSettings.limit := by
    intro scenario member
    have valid : scenario.Valid := by
      obtain ⟨position, _, target, _, choice, allowed, rfl⟩ :=
        ClassSpec.exists_choice_of_mem enumerated member
      exact Scenario.valid_of_read (allowed.read_numbered _ _)
    obtain ⟨found, returned⟩ : ∃ found,
        scenario.linearizations plainSettings.limit = .ok found := by
      rw [Scenario.linearizations_eq]
      cases List.mem_pair.mp member with
      | inl first =>
          rw [first]
          exact ⟨_, if_pos (by cbv)⟩
      | inr second =>
          rw [second]
          exact ⟨_, if_pos (by cbv)⟩
    rw [← Scenario.length_of_linearizations valid returned]
    exact Run.linearizations_length_le returned
  obtain ⟨_, objects, ran, _, each⟩ := ClassSpec.enumerate_run (by decide) (by decide) (by decide)
    enumerated enough (CommandLine.delivers_input _)
  refine ⟨enumerated, objects, ran, ?_⟩
  intro position scenario place
  obtain ⟨object, found, _, id, count⟩ := each position scenario place
  exact ⟨object, found, id, count⟩

end Interleave

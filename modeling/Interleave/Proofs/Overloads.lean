import Interleave.Proofs.Enumerated
import Interleave.Proofs.Wire

set_option autoImplicit false

/-! Methods that share a name. The slots before the target's first one are kept free of its name
and not of its entry, so a choice with another entry of that name in front is listed only when its
calls look the same. -/

namespace Interleave

/-- What a call shows of its method. -/
def MethodSpec.signature (method : MethodSpec) : MethodSpec := { method with trusted := false }

theorem MethodSpec.signature_eq_iff {method target : MethodSpec} :
    method.signature = target.signature ↔ ∃ trusted, method = { target with trusted } := by
  cases method
  cases target
  unfold signature
  simp

/-- The signature that a call shows when all parameters are of type int. -/
def Call.signature (call : Call) : MethodSpec :=
  ⟨call.method, List.replicate call.arguments.length "int", false, call.isVoid⟩

namespace Enumeration

/-! ### Requests that are answered -/

private theorem withArguments_eq_ok {methods : List MethodSpec}
    (ints : ∀ method ∈ methods, ∀ type ∈ method.parameters, type = "int") (className : String)
    (order : List (Nat × Nat)) (shape : List Nat) (values : Nat) :
    withArguments className order shape values methods =
      .ok (layouts className order shape values methods) := by
  have each : ∀ method ∈ methods, method.parameters.mapM (valuesOf method values) =
      .ok (method.parameters.map (fun _ => (List.range values).map Json.natural)) :=
    fun method member => mapM_eq_ok (fun type inside => if_pos (ints method member type inside))
  have known : argumentChoices methods values = .ok (methods.map (fun method =>
      method.parameters.map (fun _ => (List.range values).map Json.natural))).flatten := by
    unfold argumentChoices
    rw [mapM_eq_ok each]
    rfl
  cases accepted : withArguments className order shape values methods with
  | error error =>
      unfold withArguments at accepted
      rw [known] at accepted
      cases accepted
  | ok scenarios => rw [withArguments_of_ok accepted]

section

variable {spec : ClassSpec} {request : EnumerationRequest} {target : MethodSpec}

private theorem enumerate_eq_ok {orders : List (List (Nat × Nat))}
    (found : spec.method? request.method = some target)
    (known : orderShapes request.threads = .ok orders)
    (enough : request.threads ≤ request.calls)
    (ints : ∀ method ∈ target :: spec.trusted, ∀ type ∈ method.parameters, type = "int") :
    spec.enumerate request = .ok (identified (listed spec request target orders)) := by
  have each : ∀ order shape, ∀ methods ∈ methodChoices spec.trusted target request.calls,
      withArguments spec.name order shape request.values methods =
        .ok (layouts spec.name order shape request.values methods) :=
    fun order shape methods inChoices => withArguments_eq_ok
      (fun method member => ints method (mem_of_methodChoices inChoices method member))
      spec.name order shape request.values
  rw [enumerate_eq found known enough, mapM_eq_ok (fun order _ => mapM_eq_ok (fun shape _ =>
    mapM_eq_ok (each order shape))), ← flatten_layouts]
  rfl

end

end Enumeration

/-! ### Choices that look the same -/

namespace Enumeration

private theorem callsOf_signatures (index : Nat) (methods : List MethodSpec) (values : List Json) :
    callsOf index (methods.map MethodSpec.signature) values = callsOf index methods values := by
  induction methods generalizing values with
  | nil => rfl
  | cons method methods ih =>
      rw [List.map_cons]
      unfold callsOf
      dsimp only
      rw [ih]
      rfl

private theorem flatMap_signatures (methods : List MethodSpec) :
    (methods.map MethodSpec.signature).flatMap MethodSpec.parameters =
      methods.flatMap MethodSpec.parameters :=
  List.flatMap_map _ _ methods

private theorem threadsOf_signatures (index : Nat) (shape : List Nat) (methods : List MethodSpec)
    (values : List Json) :
    threadsOf index shape (methods.map MethodSpec.signature) values =
      threadsOf index shape methods values := by
  induction shape generalizing index methods values with
  | nil => rfl
  | cons slots shape ih =>
      unfold threadsOf
      dsimp only
      rw [← List.map_take, ← List.map_drop, callsOf_signatures, flatMap_signatures, ih]

end Enumeration

namespace Choice

open Enumeration

variable {spec : ClassSpec} {request : EnumerationRequest} {target : MethodSpec}
  {choice : Choice}

theorem scenario_signatures {values : Nat} (fits : ∀ slot ∈ choice.slots, slot.Fits values)
    (ints : ∀ method ∈ choice.methods, ∀ type ∈ method.parameters, type = "int")
    (className : String) :
    ((choice.scenario className).threads.flatMap Thread.calls).map Call.signature =
      choice.methods.map MethodSpec.signature := by
  have shown : ∀ index slot, Call.signature (Slot.call index slot) =
      ⟨slot.method.name, List.replicate slot.arguments.length "int", false,
        slot.method.isVoid⟩ := by
    intro index slot
    unfold Slot.call Call.signature
    rw [List.length_map]
  unfold methods
  rw [scenario_calls shown, List.map_map]
  apply List.map_congr_left
  intro slot member
  have parameters : slot.method.parameters =
      List.replicate slot.method.parameters.length "int" :=
    List.eq_replicate_iff.mpr ⟨rfl, ints slot.method (List.mem_map_of_mem member)⟩
  unfold MethodSpec.signature
  dsimp only [Function.comp_apply]
  rw [(fits slot member).1, ← parameters]

private theorem scenario_eq_of_signatures {values : Nat} {other : Choice}
    (fits : ∀ slot ∈ choice.slots, slot.Fits values)
    (otherFits : ∀ slot ∈ other.slots, slot.Fits values) (sameOrder : choice.order = other.order)
    (sameShape : choice.shape = other.shape) (sameDealt : choice.dealt = other.dealt)
    (same : choice.methods.map MethodSpec.signature = other.methods.map MethodSpec.signature)
    (className : String) : choice.scenario className = other.scenario className := by
  rw [choice.scenario_eq fits, other.scenario_eq otherFits, sameOrder, sameShape, sameDealt,
    ← threadsOf_signatures, same, threadsOf_signatures]

private theorem scenario_mem_listed {orders : List (List (Nat × Nat))} {methods : List MethodSpec}
    (allowed : choice.Allowed spec request target) (enough : request.threads ≤ request.calls)
    (inOrders : choice.order ∈ orders)
    (inChoices : methods ∈ methodChoices spec.trusted target request.calls)
    (same : methods.map MethodSpec.signature = choice.methods.map MethodSpec.signature) :
    choice.scenario spec.name ∈ listed spec request target orders := by
  have inShapes := (shape_mem_slotShapes enough).mpr
    ⟨allowed.threads, allowed.nonempty, allowed.calls⟩
  have chosen := dealt_mem_product allowed.arguments
  rw [← flatMap_signatures choice.methods, ← same, flatMap_signatures] at chosen
  obtain ⟨other, sameOrder, sameShape, rfl, sameDealt, fits⟩ :=
    exists_choice_of_product choice.order (sum_eq_length enough inShapes inChoices) chosen
  rw [mem_listed enough]
  refine ⟨other, ?_, ?_, inChoices, fits, ?_⟩
  · rwa [sameOrder]
  · rwa [sameShape]
  · exact scenario_eq_of_signatures allowed.arguments fits sameOrder.symm sameShape.symm
      sameDealt.symm same.symm spec.name

private theorem find?_of_signatures {methods before after : List MethodSpec}
    (same : methods.map MethodSpec.signature =
      (before ++ target :: after).map MethodSpec.signature)
    (early : ∀ method ∈ before, method.name ≠ target.name) :
    ∃ trusted, methods.find? (fun method => method.name == target.name) =
      some { target with trusted } := by
  rw [List.map_append, List.map_cons] at same
  obtain ⟨front, rest, rfl, sameFront, sameRest⟩ := List.map_eq_append_iff.mp same
  obtain ⟨first, back, rfl, sameFirst, _⟩ := List.map_eq_cons_iff.mp sameRest
  obtain ⟨trusted, rfl⟩ := MethodSpec.signature_eq_iff.mp sameFirst
  refine ⟨trusted, List.find?_eq_some_iff_append.mpr ⟨beq_self_eq_true _, front, back, rfl, ?_⟩⟩
  intro method member
  have inside : method.signature ∈ before.map MethodSpec.signature := by
    rw [← sameFront]
    exact List.mem_map_of_mem member
  obtain ⟨other, inBefore, sameEntry⟩ := List.mem_map.mp inside
  have sameName : other.name = method.name := (congrArg MethodSpec.name sameEntry :)
  rw [← sameName, Bool.not_eq_true', beq_eq_false_iff_ne]
  exact early other inBefore

private theorem exists_methods_of_find? {trusted : Bool}
    (allowed : choice.Allowed spec request target) (declared : target ∈ spec.methods)
    (first : choice.methods.find? (fun method => method.name == target.name) =
      some { target with trusted }) :
    ∃ methods ∈ methodChoices spec.trusted target request.calls,
      methods.map MethodSpec.signature = choice.methods.map MethodSpec.signature := by
  obtain ⟨_, before, after, split, early⟩ := List.find?_eq_some_iff_append.mp first
  have names : ∀ method ∈ before, method.name ≠ target.name := by
    intro method member
    have other := early method member
    rwa [Bool.not_eq_true', beq_eq_false_iff_ne] at other
  have length := allowed.methods_length
  by_cases same : ({ target with trusted } : MethodSpec) = target
  · rw [same] at split
    have beside := allowed.beside declared split
    exact ⟨choice.methods, mem_methodChoices.mpr ⟨length, before, after, split,
      fun method member => ⟨beside method (List.mem_append_left _ member), names method member⟩,
      fun method member => beside method (List.mem_append_right _ member)⟩, rfl⟩
  · -- A trusted entry stands in for the target, which has its only slot behind; they change places.
    have held := allowed.target_mem
    rw [split] at held
    have behind : target ∈ after := by
      rcases List.mem_append.mp held with front | rest
      · exact absurd rfl (names target front)
      · exact (List.mem_cons.mp rest).resolve_left (Ne.symm same)
    obtain ⟨between, last, rfl⟩ := List.append_of_mem behind
    have beside := allowed.beside declared
      (show choice.methods = (before ++ { target with trusted } :: between) ++ target :: last by
        rw [split, List.append_assoc, List.cons_append])
    refine ⟨before ++ target :: (between ++ { target with trusted } :: last),
      mem_methodChoices.mpr ⟨?_, before, _, rfl, ?_, ?_⟩, ?_⟩
    · rw [split] at length
      simpa using length
    · exact fun method member => ⟨beside method
        (List.mem_append_left _ (List.mem_append_left _ member)), names method member⟩
    · intro method member
      apply beside method
      simp only [List.mem_append, List.mem_cons] at member ⊢
      tauto
    · rw [split]
      simp [MethodSpec.signature]

theorem scenario_mem_listed_iff {orders : List (List (Nat × Nat))}
    (allowed : choice.Allowed spec request target) (declared : target ∈ spec.methods)
    (enough : request.threads ≤ request.calls) (inOrders : choice.order ∈ orders)
    (ints : ∀ method ∈ target :: spec.trusted, ∀ type ∈ method.parameters, type = "int") :
    choice.scenario spec.name ∈ listed spec request target orders ↔
      ∃ trusted, choice.methods.find? (fun method => method.name == target.name) =
        some { target with trusted } := by
  constructor
  · intro member
    obtain ⟨other, _, _, inChoices, fits, same⟩ := (mem_listed enough).mp member
    obtain ⟨_, before, after, split, early, _⟩ := mem_methodChoices.mp inChoices
    have otherInts : ∀ method ∈ other.methods, ∀ type ∈ method.parameters, type = "int" :=
      fun method inside => ints method (mem_of_methodChoices inChoices method inside)
    have ownInts : ∀ method ∈ choice.methods, ∀ type ∈ method.parameters, type = "int" :=
      fun method inside => ints method (allowed.methods_mem method inside)
    have signatures := scenario_signatures allowed.arguments ownInts spec.name
    rw [same, scenario_signatures fits otherInts, split] at signatures
    exact find?_of_signatures signatures.symm (fun method inside => (early method inside).2)
  · intro given
    obtain ⟨trusted, first⟩ := given
    obtain ⟨methods, inChoices, same⟩ := exists_methods_of_find? allowed declared first
    exact scenario_mem_listed allowed enough inOrders inChoices same

end Choice

/-- An allowed choice is listed when the first slot of the target's name holds the target, or an
entry that differs from it in trust alone. -/
theorem ClassSpec.enumerate_overloads_iff {spec : ClassSpec} {request : EnumerationRequest}
    {target : MethodSpec} (found : spec.method? request.method = some target)
    (supported : request.threads = 2 ∨ request.threads = 3)
    (enough : request.threads ≤ request.calls)
    (ints : ∀ method ∈ target :: spec.trusted, ∀ type ∈ method.parameters, type = "int") :
    ∃ scenarios, spec.enumerate request = .ok scenarios ∧
      ∀ choice : Choice, choice.Allowed spec request target →
        (choice.scenario spec.name ∈ scenarios.map Scenario.anonymous ↔
          ∃ trusted, choice.methods.find? (fun method => method.name == target.name) =
            some { target with trusted }) := by
  have declared := (declared_of_method? found).1
  obtain ⟨orders, known⟩ : ∃ orders, Enumeration.orderShapes request.threads = .ok orders := by
    rcases supported with two | three
    · rw [two]
      exact ⟨_, rfl⟩
    · rw [three]
      exact ⟨_, rfl⟩
  refine ⟨_, Enumeration.enumerate_eq_ok found known enough ints, ?_⟩
  intro choice allowed
  rw [Enumeration.anonymous_listed enough]
  have inOrders := (Enumeration.mem_orderShapes_iff known _).mpr allowed.order
  exact choice.scenario_mem_listed_iff allowed declared enough inOrders ints

/-- Two entries of one name; the trusted one takes no value. -/
def cellSpec : ClassSpec :=
  ⟨"Cell", [⟨"get", ["int"], false, false⟩, ⟨"get", [], true, false⟩]⟩

/-- The trusted entry, in a slot before the target. -/
def overloadFirst : Choice :=
  ⟨[], [[⟨⟨"get", [], true, false⟩, []⟩], [⟨⟨"get", ["int"], false, false⟩, [0]⟩]]⟩

private theorem overloadFirst_allowed :
    overloadFirst.Allowed cellSpec ⟨"get", 2, 2, 1⟩ ⟨"get", ["int"], false, false⟩ where
  order := .two
  threads := rfl
  nonempty := by decide
  calls := rfl
  present := ⟨⟨⟨"get", ["int"], false, false⟩, [0]⟩, by simp [overloadFirst, Choice.slots], rfl⟩
  others := by simp [overloadFirst, Choice.slots, cellSpec]
  once := by simp [overloadFirst, Choice.slots]
  arguments := by simp [overloadFirst, Choice.slots, Slot.Fits]

theorem ClassSpec.enumerate_overloads_iff_lost :
    ∃ scenarios, cellSpec.enumerate ⟨"get", 2, 2, 1⟩ = .ok scenarios ∧
      overloadFirst.scenario "Cell" ∉ scenarios.map Scenario.anonymous := by
  obtain ⟨scenarios, answered, listed⟩ :=
    @ClassSpec.enumerate_overloads_iff cellSpec ⟨"get", 2, 2, 1⟩ ⟨"get", ["int"], false, false⟩
      rfl (Or.inl rfl) (Nat.le_refl 2) (by decide)
  refine ⟨scenarios, answered, fun member => ?_⟩
  obtain ⟨trusted, first⟩ := (listed overloadFirst overloadFirst_allowed).mp member
  cases first

end Interleave

import Interleave.Proofs.Choices
import Interleave.Proofs.Refinement

set_option autoImplicit false

/-! The scenarios of an enumeration, said without the algorithm. A choice fills every slot of
every thread with a method and its arguments; the enumerated scenarios are those of the choices
that the request allows, each once. -/

namespace Interleave

/-- A method and the numbers it is called with. -/
structure Slot where
  method : MethodSpec
  arguments : List Nat

namespace Slot

def call (index : Nat) (slot : Slot) : Call :=
  ⟨slot.method.name, slot.arguments.map .natural, slot.method.isVoid, some index⟩

def Fits (values : Nat) (slot : Slot) : Prop :=
  slot.arguments.length = slot.method.parameters.length ∧
    ∀ value ∈ slot.arguments, value < values

def dealt (slots : List Slot) : List Json :=
  slots.flatMap (fun slot => slot.arguments.map .natural)

private theorem dealt_length {values : Nat} {slots : List Slot}
    (fits : ∀ slot ∈ slots, slot.Fits values) :
    (dealt slots).length = ((slots.map method).flatMap MethodSpec.parameters).length := by
  unfold dealt
  rw [List.flatMap_map, List.length_flatMap, List.length_flatMap]
  congr 1
  apply List.map_congr_left
  intro slot member
  rw [List.length_map, (fits slot member).1]

/-- Numbers can be dealt to methods that have as many parameters. -/
theorem exists_dealt {values : Nat} {methods : List MethodSpec} {numbers : List Nat}
    (length : numbers.length = (methods.flatMap MethodSpec.parameters).length)
    (bounded : ∀ number ∈ numbers, number < values) :
    ∃ slots : List Slot, slots.map method = methods ∧ dealt slots = numbers.map .natural ∧
      ∀ slot ∈ slots, slot.Fits values := by
  induction methods generalizing numbers with
  | nil =>
      cases List.length_eq_zero_iff.mp length
      exact ⟨[], rfl, rfl, fun _ absent => absurd absent List.not_mem_nil⟩
  | cons method methods ih =>
      rw [List.flatMap_cons, List.length_append] at length
      have rest : (numbers.drop method.parameters.length).length =
          (methods.flatMap MethodSpec.parameters).length := by
        rw [List.length_drop]
        omega
      obtain ⟨slots, names, same, fits⟩ := ih rest
        (fun number member => bounded number (List.mem_of_mem_drop member))
      refine ⟨⟨method, numbers.take method.parameters.length⟩ :: slots, ?_, ?_, ?_⟩
      · rw [List.map_cons, names]
      · unfold dealt at same ⊢
        rw [List.flatMap_cons, same, ← List.map_append, List.take_append_drop]
      · rw [List.forall_mem_cons]
        refine ⟨⟨?_, fun number member => bounded number (List.mem_of_mem_take member)⟩, fits⟩
        exact List.length_take_of_le (by omega)

end Slot

namespace Enumeration

private theorem callsOf_slots {values : Nat} {slots : List Slot}
    (fits : ∀ slot ∈ slots, slot.Fits values) (index : Nat) (later : List Json) :
    callsOf index (slots.map Slot.method) (Slot.dealt slots ++ later) =
      slots.map (Slot.call index) := by
  induction slots with
  | nil => rfl
  | cons slot slots ih =>
      obtain ⟨⟨length, _⟩, rest⟩ := List.forall_mem_cons.mp fits
      have own : (slot.arguments.map Json.natural).length = slot.method.parameters.length := by
        rw [List.length_map, length]
      unfold callsOf Slot.dealt
      rw [List.map_cons, List.map_cons, List.flatMap_cons, List.append_assoc]
      dsimp only
      rw [List.take_left' own, List.drop_left' own]
      exact congrArg (slot.call index :: ·) (ih rest)

private theorem threadsOf_slots {values : Nat} {threads : List (List Slot)}
    (fits : ∀ slot ∈ threads.flatten, slot.Fits values) (index : Nat) :
    threadsOf index (threads.map List.length) (threads.flatten.map Slot.method)
        (Slot.dealt threads.flatten) =
      (threads.zipIdx index).map (fun entry => ⟨entry.2, entry.1.map (Slot.call entry.2)⟩) := by
  induction threads generalizing index with
  | nil => rfl
  | cons slots threads ih =>
      rw [List.flatten_cons] at fits
      obtain ⟨first, rest⟩ := List.forall_mem_append.mp fits
      have methods : (slots.map Slot.method).length = slots.length := List.length_map _
      have values := Slot.dealt_length first
      have split : Slot.dealt (slots ++ threads.flatten) =
          Slot.dealt slots ++ Slot.dealt threads.flatten := List.flatMap_append
      unfold threadsOf
      rw [List.map_cons, List.flatten_cons, List.map_append, split, List.zipIdx_cons,
        List.map_cons]
      dsimp only
      rw [List.take_left' methods, List.drop_left' methods, callsOf_slots first,
        List.drop_left' values, ih rest]

end Enumeration

/-! ### Choices for all slots -/

/-- An order for so many threads: none, a first of three, a last of three, or a chain. -/
inductive OrderShape : (threads : Nat) → List (Nat × Nat) → Prop where
  | two : OrderShape 2 []
  | three : OrderShape 3 []
  | first : OrderShape 3 [(0, 1), (0, 2)]
  | last : OrderShape 3 [(0, 2), (1, 2)]
  | chain : OrderShape 3 [(0, 1), (1, 2)]

/-- An order, and what stands in each slot of each thread. -/
structure Choice where
  order : List (Nat × Nat)
  threads : List (List Slot)

namespace Choice

def slots (choice : Choice) : List Slot := choice.threads.flatten

def scenario (className : String) (choice : Choice) : Scenario :=
  { Scenario.empty with
    className := some className
    threads := choice.threads.zipIdx.map
      (fun entry => ⟨entry.2, entry.1.map (Slot.call entry.2)⟩)
    order := choice.order }

/-- What the request allows: the target in some slot, and trusted methods beside it. -/
structure Allowed (spec : ClassSpec) (request : EnumerationRequest) (target : MethodSpec)
    (choice : Choice) : Prop where
  order : OrderShape request.threads choice.order
  threads : choice.threads.length = request.threads
  nonempty : ∀ slots ∈ choice.threads, slots ≠ []
  calls : choice.slots.length = request.calls
  present : ∃ slot ∈ choice.slots, slot.method = target
  others : ∀ slot ∈ choice.slots, slot.method ≠ target →
    slot.method ∈ spec.methods ∧ slot.method.trusted = true
  once : target.trusted = false →
    choice.slots.countP (fun slot => slot.method = target) = 1
  arguments : ∀ slot ∈ choice.slots, slot.Fits request.values

def shape (choice : Choice) : List Nat := choice.threads.map List.length

def methods (choice : Choice) : List MethodSpec := choice.slots.map Slot.method

def dealt (choice : Choice) : List Json := Slot.dealt choice.slots

theorem scenario_eq {values : Nat} {choice : Choice}
    (fits : ∀ slot ∈ choice.slots, slot.Fits values) (className : String) :
    choice.scenario className =
      { Scenario.empty with
        className := some className
        threads := Enumeration.threadsOf 0 choice.shape choice.methods choice.dealt
        order := choice.order } := by
  unfold scenario
  rw [← Enumeration.threadsOf_slots fits]
  rfl

private theorem exists_of_parts {values : Nat} {shape : List Nat} {methods : List MethodSpec}
    {numbers : List Nat} (order : List (Nat × Nat)) (sum : shape.sum = methods.length)
    (length : numbers.length = (methods.flatMap MethodSpec.parameters).length)
    (bounded : ∀ number ∈ numbers, number < values) :
    ∃ choice : Choice, choice.order = order ∧ choice.shape = shape ∧
      choice.methods = methods ∧ choice.dealt = numbers.map .natural ∧
      ∀ slot ∈ choice.slots, slot.Fits values := by
  obtain ⟨slots, rfl, same, fits⟩ := Slot.exists_dealt length bounded
  rw [List.length_map] at sum
  have flat : (shape.splitLengths slots).flatten = slots :=
    List.flatten_splitLengths slots shape (by omega)
  refine ⟨⟨order, shape.splitLengths slots⟩, rfl, ?_, ?_, ?_, ?_⟩
  · exact List.map_splitLengths_length slots shape (by omega)
  · exact congrArg (List.map Slot.method) flat
  · exact (congrArg Slot.dealt flat).trans same
  · unfold Choice.slots
    rw [flat]
    exact fits

/-! What a scenario shows of its choice. -/

private theorem scenario_shape (choice : Choice) (className : String) :
    (choice.scenario className).threads.map (fun thread => thread.calls.length) =
      choice.shape := by
  unfold scenario shape
  dsimp only
  rw [List.map_map]
  conv_rhs => rw [← List.zipIdx_map_fst 0 choice.threads, List.map_map]
  apply List.map_congr_left
  intro entry _
  exact List.length_map _

theorem scenario_calls {α : Type} {view : Call → α} {seen : Slot → α}
    (agree : ∀ index slot, view (Slot.call index slot) = seen slot) (choice : Choice)
    (className : String) :
    ((choice.scenario className).threads.flatMap Thread.calls).map view =
      choice.slots.map seen := by
  unfold scenario slots
  dsimp only
  rw [List.map_flatMap, List.flatMap_map, List.map_flatten, ← List.flatMap_def]
  conv_rhs => rw [← List.zipIdx_map_fst 0 choice.threads, List.flatMap_map]
  apply List.flatMap_congr
  intro entry _
  rw [List.map_map]
  exact List.map_congr_left (fun slot _ => agree entry.2 slot)

private theorem scenario_methods (choice : Choice) (className : String) :
    ((choice.scenario className).threads.flatMap Thread.calls).map Call.method =
      choice.methods.map MethodSpec.name := by
  unfold methods
  rw [List.map_map]
  exact scenario_calls (fun _ _ => rfl) choice className

private theorem scenario_dealt (choice : Choice) (className : String) :
    ((choice.scenario className).threads.flatMap Thread.calls).flatMap Call.arguments =
      choice.dealt := by
  rw [List.flatMap_def, scenario_calls (fun _ _ => rfl), ← List.flatMap_def]
  rfl

end Choice

/-! ### The list before its scenarios are numbered -/

namespace Enumeration

def layouts (className : String) (order : List (Nat × Nat)) (shape : List Nat) (values : Nat)
    (methods : List MethodSpec) : List Scenario :=
  (product (List.replicate (methods.flatMap MethodSpec.parameters).length
      ((List.range values).map .natural))).map (fun arguments =>
    { Scenario.empty with
      className := some className
      threads := threadsOf 0 shape methods arguments
      order })

private theorem argumentChoices_of_ok {methods : List MethodSpec} {values : Nat}
    {choices : List (List Json)} (accepted : argumentChoices methods values = .ok choices) :
    choices = List.replicate (methods.flatMap MethodSpec.parameters).length
      ((List.range values).map .natural) := by
  have one : ∀ (method : MethodSpec) (type : String) (options : List Json),
      valuesOf method values type = .ok options → options = (List.range values).map .natural := by
    intro method type options known
    unfold valuesOf at known
    split at known
    · exact (Except.ok.inj known).symm
    · cases known
  have each : ∀ (method : MethodSpec) (lists : List (List Json)),
      method.parameters.mapM (valuesOf method values) = .ok lists →
        lists = method.parameters.map (fun _ => (List.range values).map .natural) := by
    exact fun method lists known => eq_map_of_mapM_ok (one method) known
  obtain ⟨lists, found, rfl⟩ := exists_of_map_ok accepted
  rw [eq_map_of_mapM_ok each found, ← List.map_const', List.map_flatMap, ← List.flatMap_def]

theorem withArguments_of_ok {className : String} {order : List (Nat × Nat)} {shape : List Nat}
    {values : Nat} {methods : List MethodSpec} {scenarios : List Scenario}
    (accepted : withArguments className order shape values methods = .ok scenarios) :
    scenarios = layouts className order shape values methods := by
  obtain ⟨choices, known, rfl⟩ := exists_of_map_ok accepted
  rw [argumentChoices_of_ok known]
  rfl

/-- All scenarios of a request, in order and without their numbers. -/
def listed (spec : ClassSpec) (request : EnumerationRequest) (target : MethodSpec)
    (orders : List (List (Nat × Nat))) : List Scenario :=
  orders.flatMap (fun order =>
    (slotShapes request.threads (request.calls - request.threads)).flatMap (fun shape =>
      (methodChoices spec.trusted target request.calls).flatMap
        (layouts spec.name order shape request.values)))

theorem enumerate_eq {spec : ClassSpec} {request : EnumerationRequest} {target : MethodSpec}
    {orders : List (List (Nat × Nat))} (found : spec.method? request.method = some target)
    (known : orderShapes request.threads = .ok orders)
    (enough : request.threads ≤ request.calls) :
    spec.enumerate request =
      (orders.mapM (fun order =>
        (slotShapes request.threads (request.calls - request.threads)).mapM (fun shape =>
          (methodChoices spec.trusted target request.calls).mapM
            (withArguments spec.name order shape request.values)))).map
        (fun scenarios => identified scenarios.flatten.flatten.flatten) := by
  unfold ClassSpec.enumerate
  rw [found, known]
  dsimp only [bind, Except.bind]
  rw [if_neg (Nat.not_lt.mpr enough)]
  rfl

theorem flatten_layouts (spec : ClassSpec) (request : EnumerationRequest) (target : MethodSpec)
    (orders : List (List (Nat × Nat))) :
    (orders.map (fun order =>
        (slotShapes request.threads (request.calls - request.threads)).map (fun shape =>
          (methodChoices spec.trusted target request.calls).map
            (layouts spec.name order shape request.values)))).flatten.flatten.flatten =
      listed spec request target orders := by
  unfold listed
  simp only [List.flatMap_def, List.flatten_flatten, List.map_map, Function.comp_def]

/-- A request that is answered names a method and a supported number of threads. -/
theorem exists_target_of_enumerate {spec : ClassSpec} {request : EnumerationRequest}
    {scenarios : List Scenario} (enumerated : spec.enumerate request = .ok scenarios) :
    ∃ target orders, spec.method? request.method = some target ∧
      orderShapes request.threads = .ok orders := by
  unfold ClassSpec.enumerate at enumerated
  cases found : spec.method? request.method with
  | none =>
      rw [found] at enumerated
      cases enumerated
  | some target =>
      rw [found] at enumerated
      obtain ⟨orders, known, _⟩ := exists_of_bind_ok enumerated
      exact ⟨target, orders, rfl, known⟩

theorem identified_listed_of_enumerate {spec : ClassSpec} {request : EnumerationRequest}
    {scenarios : List Scenario} (enough : request.threads ≤ request.calls)
    (enumerated : spec.enumerate request = .ok scenarios) :
    ∃ target orders, spec.method? request.method = some target ∧
      orderShapes request.threads = .ok orders ∧
      scenarios = identified (listed spec request target orders) := by
  obtain ⟨target, orders, found, known⟩ := exists_target_of_enumerate enumerated
  refine ⟨target, orders, found, known, ?_⟩
  rw [enumerate_eq found known enough] at enumerated
  obtain ⟨nested, made, rfl⟩ := exists_of_map_ok enumerated
  have same := eq_map_of_mapM_ok (fun order _ byShape =>
    eq_map_of_mapM_ok (fun shape _ byMethods =>
      eq_map_of_mapM_ok (fun methods _ => withArguments_of_ok) byMethods) byShape) made
  rw [same, flatten_layouts]

theorem enumerate_of_few {spec : ClassSpec} {request : EnumerationRequest} {target : MethodSpec}
    {orders : List (List (Nat × Nat))} (found : spec.method? request.method = some target)
    (known : orderShapes request.threads = .ok orders)
    (few : request.calls < request.threads) : spec.enumerate request = .ok [] := by
  unfold ClassSpec.enumerate
  rw [found, known]
  exact if_pos few

theorem eq_nil_of_enumerate {spec : ClassSpec} {request : EnumerationRequest}
    {scenarios : List Scenario} (few : request.calls < request.threads)
    (enumerated : spec.enumerate request = .ok scenarios) : scenarios = [] := by
  obtain ⟨target, orders, found, known⟩ := exists_target_of_enumerate enumerated
  rw [enumerate_of_few found known few] at enumerated
  exact (Except.ok.inj enumerated).symm

private theorem exists_numbers {values : Nat} {arguments : List Json}
    (chosen : ∀ argument ∈ arguments, argument ∈ (List.range values).map Json.natural) :
    ∃ numbers : List Nat, arguments = numbers.map .natural ∧
      ∀ number ∈ numbers, number < values := by
  induction arguments with
  | nil => exact ⟨[], rfl, fun _ absent => absurd absent List.not_mem_nil⟩
  | cons argument arguments ih =>
      obtain ⟨first, later⟩ := List.forall_mem_cons.mp chosen
      obtain ⟨number, inRange, rfl⟩ := List.mem_map.mp first
      obtain ⟨numbers, rfl, bounded⟩ := ih later
      exact ⟨number :: numbers, rfl,
        List.forall_mem_cons.mpr ⟨List.mem_range.mp inRange, bounded⟩⟩

theorem dealt_mem_product {values : Nat} {choice : Choice}
    (fits : ∀ slot ∈ choice.slots, slot.Fits values) :
    choice.dealt ∈ product
      (List.replicate (choice.methods.flatMap MethodSpec.parameters).length
        ((List.range values).map .natural)) := by
  rw [mem_product, forall₂_replicate]
  refine ⟨Slot.dealt_length fits, ?_⟩
  intro argument member
  obtain ⟨slot, inSlots, own⟩ := List.mem_flatMap.mp member
  obtain ⟨number, given, rfl⟩ := List.mem_map.mp own
  exact List.mem_map.mpr ⟨number, List.mem_range.mpr ((fits slot inSlots).2 number given), rfl⟩

theorem exists_choice_of_product {values : Nat} {shape : List Nat} {methods : List MethodSpec}
    {arguments : List Json} (order : List (Nat × Nat)) (sum : shape.sum = methods.length)
    (chosen : arguments ∈ product (List.replicate
      (methods.flatMap MethodSpec.parameters).length ((List.range values).map .natural))) :
    ∃ choice : Choice, choice.order = order ∧ choice.shape = shape ∧ choice.methods = methods ∧
      choice.dealt = arguments ∧ ∀ slot ∈ choice.slots, slot.Fits values := by
  obtain ⟨length, each⟩ := forall₂_replicate.mp (mem_product.mp chosen)
  obtain ⟨numbers, rfl, bounded⟩ := exists_numbers each
  rw [List.length_map] at length
  exact Choice.exists_of_parts order sum length bounded

private theorem mem_layouts {className : String} {order : List (Nat × Nat)} {shape : List Nat}
    {values : Nat} {methods : List MethodSpec} {scenario : Scenario}
    (sum : shape.sum = methods.length) :
    scenario ∈ layouts className order shape values methods ↔
      ∃ choice : Choice, choice.order = order ∧ choice.shape = shape ∧
        choice.methods = methods ∧ (∀ slot ∈ choice.slots, slot.Fits values) ∧
        scenario = choice.scenario className := by
  unfold layouts
  rw [List.mem_map]
  constructor
  · intro given
    obtain ⟨arguments, chosen, rfl⟩ := given
    obtain ⟨choice, rfl, rfl, rfl, rfl, fits⟩ := exists_choice_of_product order sum chosen
    exact ⟨choice, rfl, rfl, rfl, fits, (choice.scenario_eq fits className).symm⟩
  · intro given
    obtain ⟨choice, rfl, rfl, rfl, fits, rfl⟩ := given
    exact ⟨choice.dealt, dealt_mem_product fits, (choice.scenario_eq fits className).symm⟩

private theorem natural_injective : Function.Injective Json.natural := by
  intro left right same
  unfold Json.natural Number.natural at same
  simpa using same

private theorem nodup_layouts {className : String} {order : List (Nat × Nat)} {shape : List Nat}
    {values : Nat} {methods : List MethodSpec} (sum : shape.sum = methods.length) :
    (layouts className order shape values methods).Nodup := by
  have readBack : ∀ arguments ∈ product (List.replicate
      (methods.flatMap MethodSpec.parameters).length ((List.range values).map .natural)),
      ((threadsOf 0 shape methods arguments).flatMap Thread.calls).flatMap Call.arguments =
        arguments := by
    intro arguments chosen
    obtain ⟨choice, rfl, rfl, rfl, rfl, fits⟩ := exists_choice_of_product order sum chosen
    have dealt := choice.scenario_dealt className
    rw [choice.scenario_eq fits] at dealt
    exact dealt
  have distinct : (product (List.replicate (methods.flatMap MethodSpec.parameters).length
      ((List.range values).map Json.natural))).Nodup := by
    apply nodup_product
    intro options member
    rw [List.eq_of_mem_replicate member]
    exact List.nodup_range.map natural_injective
  apply distinct.map_on
  intro left inLeft right inRight same
  rw [← readBack left inLeft, ← readBack right inRight]
  exact congrArg (fun scenario : Scenario =>
    (scenario.threads.flatMap Thread.calls).flatMap Call.arguments) same

/-! ### Members -/

private theorem eq_of_map_eq_map {α β : Type} {view : α → β} {items left right : List α}
    (injective : ∀ ⦃one⦄, one ∈ items → ∀ ⦃other⦄, other ∈ items → view one = view other →
      one = other)
    (inLeft : ∀ item ∈ left, item ∈ items) (inRight : ∀ item ∈ right, item ∈ items)
    (same : left.map view = right.map view) : left = right := by
  induction left generalizing right with
  | nil => exact (List.map_eq_nil_iff.mp same.symm).symm
  | cons item left ih =>
      obtain ⟨other, right, rfl, first, rest⟩ := List.map_eq_cons_iff.mp same.symm
      obtain ⟨ownLeft, restLeft⟩ := List.forall_mem_cons.mp inLeft
      obtain ⟨ownRight, restRight⟩ := List.forall_mem_cons.mp inRight
      rw [injective ownLeft ownRight first.symm, ih restLeft restRight rest.symm]

section

variable {spec : ClassSpec} {request : EnumerationRequest} {target : MethodSpec}
  {orders : List (List (Nat × Nat))}

theorem sum_eq_length (enough : request.threads ≤ request.calls) {shape : List Nat}
    {methods : List MethodSpec}
    (inShapes : shape ∈ slotShapes request.threads (request.calls - request.threads))
    (inChoices : methods ∈ methodChoices spec.trusted target request.calls) :
    shape.sum = methods.length := by
  rw [(mem_slotShapes.mp inShapes).2.2, (mem_methodChoices.mp inChoices).1]
  omega

theorem mem_listed (enough : request.threads ≤ request.calls) {scenario : Scenario} :
    scenario ∈ listed spec request target orders ↔
      ∃ choice : Choice, choice.order ∈ orders ∧
        choice.shape ∈ slotShapes request.threads (request.calls - request.threads) ∧
        choice.methods ∈ methodChoices spec.trusted target request.calls ∧
        (∀ slot ∈ choice.slots, slot.Fits request.values) ∧
        scenario = choice.scenario spec.name := by
  unfold listed
  simp only [List.mem_flatMap]
  constructor
  · intro given
    obtain ⟨order, inOrders, shape, inShapes, methods, inChoices, member⟩ := given
    obtain ⟨choice, rfl, rfl, rfl, fits, rfl⟩ :=
      (mem_layouts (sum_eq_length enough inShapes inChoices)).mp member
    exact ⟨choice, inOrders, inShapes, inChoices, fits, rfl⟩
  · intro given
    obtain ⟨choice, inOrders, inShapes, inChoices, fits, rfl⟩ := given
    exact ⟨_, inOrders, _, inShapes, _, inChoices,
      (mem_layouts (sum_eq_length enough inShapes inChoices)).mpr
        ⟨choice, rfl, rfl, rfl, fits, rfl⟩⟩

/-- Order, slots, methods and arguments can all be read off a scenario. -/
theorem nodup_listed (enough : request.threads ≤ request.calls) (distinctOrders : orders.Nodup)
    (distinct : (spec.methods.map MethodSpec.name).Nodup) (declared : target ∈ spec.methods) :
    (listed spec request target orders).Nodup := by
  have names : ∀ methods ∈ methodChoices spec.trusted target request.calls,
      ∀ method ∈ methods, method ∈ spec.methods := by
    intro methods inChoices method member
    rcases List.mem_cons.mp (mem_of_methodChoices inChoices method member) with rfl | trusted
    · exact declared
    · exact List.mem_of_mem_filter trusted
  have distinctNames : ((methodChoices spec.trusted target request.calls).map
      (List.map MethodSpec.name)).Nodup := by
    apply (nodup_methodChoices (distinct.of_map.filter _)).map_on
    exact fun left inLeft right inRight => eq_of_map_eq_map
      (List.inj_on_of_nodup_map distinct) (names left inLeft) (names right inRight)
  unfold listed
  apply nodup_flatMap_of_key Scenario.order id
  · rwa [List.map_id]
  · intro order _
    apply nodup_flatMap_of_key
      (fun scenario : Scenario => scenario.threads.map (fun thread => thread.calls.length)) id
    · rw [List.map_id]
      exact nodup_slotShapes _ _
    · intro shape inShapes
      apply nodup_flatMap_of_key
        (fun scenario : Scenario => (scenario.threads.flatMap Thread.calls).map Call.method)
        (List.map MethodSpec.name)
      · exact distinctNames
      · exact fun methods inChoices => nodup_layouts (sum_eq_length enough inShapes inChoices)
      · intro methods inChoices scenario member
        obtain ⟨choice, rfl, rfl, rfl, fits, rfl⟩ :=
          (mem_layouts (sum_eq_length enough inShapes inChoices)).mp member
        exact choice.scenario_methods spec.name
    · intro shape inShapes scenario member
      obtain ⟨methods, inChoices, inside⟩ := List.mem_flatMap.mp member
      obtain ⟨choice, rfl, rfl, rfl, fits, rfl⟩ :=
        (mem_layouts (sum_eq_length enough inShapes inChoices)).mp inside
      exact choice.scenario_shape spec.name
  · intro order _ scenario member
    obtain ⟨shape, inShapes, inner⟩ := List.mem_flatMap.mp member
    obtain ⟨methods, inChoices, inside⟩ := List.mem_flatMap.mp inner
    obtain ⟨choice, rfl, rfl, rfl, fits, rfl⟩ :=
      (mem_layouts (sum_eq_length enough inShapes inChoices)).mp inside
    rfl

end

theorem mem_orderShapes_iff {threads : Nat} {orders : List (List (Nat × Nat))}
    (known : orderShapes threads = .ok orders) (order : List (Nat × Nat)) :
    order ∈ orders ↔ OrderShape threads order := by
  constructor
  · intro member
    unfold orderShapes at known
    split at known
    · cases known
      rw [List.mem_singleton.mp member]
      exact .two
    · cases known
      simp only [List.mem_cons, List.not_mem_nil, or_false] at member
      rcases member with rfl | rfl | rfl | rfl
      · exact .three
      · exact .first
      · exact .last
      · exact .chain
    · cases known
  · intro shape
    cases shape <;> cases known <;> simp

theorem nodup_orderShapes {threads : Nat} {orders : List (List (Nat × Nat))}
    (known : orderShapes threads = .ok orders) : orders.Nodup := by
  unfold orderShapes at known
  split at known
  · cases known
    decide
  · cases known
    decide
  · cases known

theorem identified_ids (scenarios : List Scenario) :
    (identified scenarios).map Scenario.id = (List.range scenarios.length).map some := by
  unfold identified
  rw [List.map_map, List.range_eq_range', ← List.zipIdx_map_snd 0 scenarios, List.map_map]
  rfl

end Enumeration

/-! ### What is allowed is listed -/

def Scenario.anonymous (scenario : Scenario) : Scenario := { scenario with id := none }

namespace Enumeration

private theorem identified_anonymous {scenarios : List Scenario}
    (unnumbered : ∀ scenario ∈ scenarios, scenario.id = none) :
    (identified scenarios).map Scenario.anonymous = scenarios := by
  unfold identified
  rw [List.map_map]
  conv_rhs => rw [← List.zipIdx_map_fst 0 scenarios]
  apply List.map_congr_left
  intro entry member
  have none := unnumbered entry.1 (List.fst_mem_of_mem_zipIdx member)
  unfold Scenario.anonymous
  dsimp only [Function.comp_apply]
  rw [← none]

theorem anonymous_listed {spec : ClassSpec} {request : EnumerationRequest} {target : MethodSpec}
    {orders : List (List (Nat × Nat))} (enough : request.threads ≤ request.calls) :
    (identified (listed spec request target orders)).map Scenario.anonymous =
      listed spec request target orders := by
  apply identified_anonymous
  intro scenario member
  obtain ⟨choice, _, _, _, _, rfl⟩ := (mem_listed enough).mp member
  rfl

end Enumeration

namespace Choice

open Enumeration

variable {spec : ClassSpec} {request : EnumerationRequest} {target : MethodSpec}
  {choice : Choice}

theorem shape_mem_slotShapes (enough : request.threads ≤ request.calls) :
    choice.shape ∈ slotShapes request.threads (request.calls - request.threads) ↔
      choice.threads.length = request.threads ∧ (∀ slots ∈ choice.threads, slots ≠ []) ∧
        choice.slots.length = request.calls := by
  unfold shape slots
  rw [mem_slotShapes, List.length_map, List.forall_mem_map, List.length_flatten,
    Nat.add_sub_cancel' enough]
  simp only [List.length_pos_iff]

private theorem count_methods (choice : Choice) (target : MethodSpec) :
    choice.methods.count target =
      choice.slots.countP (fun slot => slot.method = target) := by
  unfold methods
  rw [List.count_eq_countP, List.countP_map]
  congr 1

theorem Allowed.beside (allowed : choice.Allowed spec request target)
    (declared : target ∈ spec.methods) {before after : List MethodSpec}
    (split : choice.methods = before ++ target :: after) :
    ∀ method ∈ before ++ after, method ∈ spec.trusted := by
  intro method member
  by_cases same : method = target
  · subst same
    cases trusted : method.trusted with
    | true => exact List.mem_filter.mpr ⟨declared, trusted⟩
    | false =>
        -- The target would stand in a second slot.
        have once := allowed.once trusted
        have again := List.count_pos_iff.mpr member
        rw [← count_methods, split, List.count_append, List.count_cons_self] at once
        rw [List.count_append] at again
        omega
  · have inside : method ∈ choice.methods := by
      rw [split]
      rcases List.mem_append.mp member with early | late
      · exact List.mem_append_left _ early
      · exact List.mem_append_right _ (List.mem_cons_of_mem _ late)
    obtain ⟨other, inSlots, rfl⟩ := List.mem_map.mp inside
    exact List.mem_filter.mpr (allowed.others other inSlots same)

theorem Allowed.target_mem (allowed : choice.Allowed spec request target) :
    target ∈ choice.methods := by
  obtain ⟨slot, inSlots, holds⟩ := allowed.present
  exact List.mem_map.mpr ⟨slot, inSlots, holds⟩

theorem Allowed.methods_mem (allowed : choice.Allowed spec request target) :
    ∀ method ∈ choice.methods, method ∈ target :: spec.trusted := by
  intro method member
  obtain ⟨slot, inSlots, rfl⟩ := List.mem_map.mp member
  by_cases same : slot.method = target
  · rw [same]
    exact List.mem_cons_self
  · exact List.mem_cons_of_mem _ (List.mem_filter.mpr (allowed.others slot inSlots same))

theorem Allowed.methods_length (allowed : choice.Allowed spec request target) :
    choice.methods.length = request.calls := by
  unfold methods
  rw [List.length_map, allowed.calls]

/-- What is listed is allowed, whatever names are shared. -/
theorem allowed_of_listed {orders : List (List (Nat × Nat))}
    (known : orderShapes request.threads = .ok orders)
    (enough : request.threads ≤ request.calls) (inOrders : choice.order ∈ orders)
    (inShapes : choice.shape ∈ slotShapes request.threads (request.calls - request.threads))
    (inChoices : choice.methods ∈ methodChoices spec.trusted target request.calls)
    (fits : ∀ slot ∈ choice.slots, slot.Fits request.values) :
    choice.Allowed spec request target := by
  obtain ⟨threads, nonempty, calls⟩ := (shape_mem_slotShapes enough).mp inShapes
  obtain ⟨_, before, after, split, early, late⟩ := mem_methodChoices.mp inChoices
  have held : target ∈ choice.methods := by
    rw [split]
    exact List.mem_append_right _ List.mem_cons_self
  obtain ⟨slot, inSlots, holds⟩ := List.mem_map.mp held
  refine ⟨(mem_orderShapes_iff known _).mp inOrders, threads, nonempty, calls,
    ⟨slot, inSlots, holds⟩, ?_, ?_, fits⟩
  · intro other member different
    have inside := mem_of_methodChoices inChoices other.method (List.mem_map_of_mem member)
    exact List.mem_filter.mp ((List.mem_cons.mp inside).resolve_left different)
  · intro untrusted
    have outside : target ∉ spec.trusted := by
      intro member
      rw [(List.mem_filter.mp member).2] at untrusted
      cases untrusted
    rw [← count_methods, split, List.count_append, List.count_cons_self,
      List.count_eq_zero.mpr (fun member => outside (early target member).1),
      List.count_eq_zero.mpr (fun member => outside (late target member))]

theorem allowed_iff {orders : List (List (Nat × Nat))}
    (distinct : (spec.methods.map MethodSpec.name).Nodup) (declared : target ∈ spec.methods)
    (known : orderShapes request.threads = .ok orders)
    (enough : request.threads ≤ request.calls) :
    choice.Allowed spec request target ↔
      choice.order ∈ orders ∧
        choice.shape ∈ slotShapes request.threads (request.calls - request.threads) ∧
        choice.methods ∈ methodChoices spec.trusted target request.calls ∧
        ∀ slot ∈ choice.slots, slot.Fits request.values := by
  constructor
  · intro allowed
    have inOrders := (mem_orderShapes_iff known _).mpr allowed.order
    obtain ⟨before, after, split, absent⟩ := List.eq_append_cons_of_mem allowed.target_mem
    have trusted := allowed.beside declared split
    refine ⟨inOrders, (shape_mem_slotShapes enough).mpr ⟨allowed.threads, allowed.nonempty,
      allowed.calls⟩, mem_methodChoices.mpr ⟨allowed.methods_length, before, after, split, ?_,
      fun method member => trusted method (List.mem_append_right _ member)⟩, allowed.arguments⟩
    intro method member
    have ownTrusted := trusted method (List.mem_append_left _ member)
    refine ⟨ownTrusted, fun same => absent ?_⟩
    rwa [← List.inj_on_of_nodup_map distinct (List.mem_of_mem_filter ownTrusted) declared same]
  · intro given
    obtain ⟨inOrders, inShapes, inChoices, fits⟩ := given
    exact allowed_of_listed known enough inOrders inShapes inChoices fits

end Choice

theorem ClassSpec.declared_of_method? {spec : ClassSpec} {name : String}
    {target : MethodSpec} (found : spec.method? name = some target) :
    target ∈ spec.methods ∧ target.name = name := by
  unfold method? at found
  have named := List.find?_some found
  exact ⟨List.mem_of_find?_eq_some found, beq_iff_eq.mp named⟩

/-- With distinct method names every allowed choice is listed, each as one scenario, and nothing
else is. -/
theorem ClassSpec.enumerate_exactly_once {spec : ClassSpec} {request : EnumerationRequest}
    {scenarios : List Scenario} (distinct : (spec.methods.map MethodSpec.name).Nodup)
    (enough : request.threads ≤ request.calls)
    (enumerated : spec.enumerate request = .ok scenarios) :
    (scenarios.map Scenario.anonymous).Nodup ∧
      (∃ target ∈ spec.methods, target.name = request.method ∧
        ∀ scenario, scenario ∈ scenarios.map Scenario.anonymous ↔
          ∃ choice : Choice, choice.Allowed spec request target ∧
            scenario = choice.scenario spec.name) ∧
      scenarios.map Scenario.id = (List.range scenarios.length).map some := by
  obtain ⟨target, orders, found, known, rfl⟩ :=
    Enumeration.identified_listed_of_enumerate enough enumerated
  obtain ⟨declared, named⟩ := declared_of_method? found
  have length : (Enumeration.identified (Enumeration.listed spec request target orders)).length =
      (Enumeration.listed spec request target orders).length := by
    unfold Enumeration.identified
    rw [List.length_map, List.length_zipIdx]
  rw [Enumeration.anonymous_listed enough, Enumeration.identified_ids, length]
  refine ⟨Enumeration.nodup_listed enough (Enumeration.nodup_orderShapes known) distinct declared,
    ⟨target, declared, named, ?_⟩, rfl⟩
  intro scenario
  simp only [Enumeration.mem_listed enough, Choice.allowed_iff distinct declared known enough,
    and_assoc]

/-- A class with a trusted method that is void. -/
def counterSpec : ClassSpec :=
  ⟨"Counter", [⟨"get", [], false, false⟩, ⟨"add", ["int"], true, true⟩]⟩

/-- `add(1)`, `get()` and `add(0)` in this order. -/
def addGetAdd : Choice :=
  ⟨[(0, 1), (1, 2)], [[⟨⟨"add", ["int"], true, true⟩, [1]⟩], [⟨⟨"get", [], false, false⟩, []⟩],
    [⟨⟨"add", ["int"], true, true⟩, [0]⟩]]⟩

private theorem addGetAdd_allowed :
    addGetAdd.Allowed counterSpec ⟨"get", 3, 3, 2⟩ ⟨"get", [], false, false⟩ where
  order := .chain
  threads := rfl
  nonempty := by decide
  calls := rfl
  present := ⟨⟨⟨"get", [], false, false⟩, []⟩, by simp [addGetAdd, Choice.slots], rfl⟩
  others := by simp [addGetAdd, Choice.slots, counterSpec]
  once := by simp [addGetAdd, Choice.slots]
  arguments := by simp [addGetAdd, Choice.slots, Slot.Fits]

theorem ClassSpec.enumerate_exactly_once_counter :
    ∃ scenarios, counterSpec.enumerate ⟨"get", 3, 3, 2⟩ = .ok scenarios ∧
      scenarios.length = 48 ∧ (scenarios.map Scenario.anonymous).Nodup ∧
      addGetAdd.scenario "Counter" ∈ scenarios.map Scenario.anonymous := by
  refine ⟨_, rfl, by rfl, ?_⟩
  have listed : counterSpec.enumerate ⟨"get", 3, 3, 2⟩ = .ok _ := rfl
  obtain ⟨nodup, ⟨target, declared, named, members⟩, _⟩ :=
    ClassSpec.enumerate_exactly_once (by decide) (by decide) listed
  have get : target = ⟨"get", [], false, false⟩ := by
    simp only [counterSpec, List.mem_cons, List.not_mem_nil, or_false] at declared
    rcases declared with rfl | rfl
    · rfl
    · exact absurd named (by decide)
  subst get
  exact ⟨nodup, (members _).mpr ⟨addGetAdd, addGetAdd_allowed, rfl⟩⟩

end Interleave

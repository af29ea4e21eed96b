import Interleave.Proofs.Refinement

set_option autoImplicit false

/-! Which scenarios have a native program. The checks that come before any text look at the names
that the program needs, at the order and at the outcomes; after them only an object among the
values to be written stands in the way. A scenario is refused for the first of these reasons that
holds. -/

namespace Interleave

/-! ### Objects in values -/

namespace Json

/-- The value is an object, or an array with such a value among its items. -/
inductive HoldsObject : Json → Prop where
  | object (members : Members Json) : HoldsObject (.object members)
  | array {items : List Json} {item : Json} (member : item ∈ items) (holds : HoldsObject item) :
      HoldsObject (.array items)

mutual

/-- The objects in a value that lie in no other object, in reading order. -/
def objects : Json → List Json
  | .array items => objectsOfItems items
  | .object members => [.object members]
  | _ => []

def objectsOfItems : List Json → List Json
  | [] => []
  | item :: items => objects item ++ objectsOfItems items

end

private theorem objectsOfItems_eq (items : List Json) :
    objectsOfItems items = items.flatMap objects := by
  induction items with
  | nil => rfl
  | cons item items ih => rw [objectsOfItems, ih, List.flatMap_cons]

private theorem HoldsObject.objects_ne_nil {value : Json} (holds : value.HoldsObject) :
    value.objects ≠ [] := by
  induction holds with
  | object members => exact List.cons_ne_nil _ _
  | array member _holds ih =>
      rw [objects, objectsOfItems_eq]
      intro none
      exact ih (List.flatMap_eq_nil_iff.mp none _ member)

mutual

private theorem holdsObject_of_mem_objects {object : Json} :
    (value : Json) → object ∈ value.objects →
    value.HoldsObject
  | .object members, _ => .object members
  | .array items, member => by
      obtain ⟨item, inItems, holds⟩ := exists_holdsObject_of_mem items member
      exact .array inItems holds
  | .null, member => by cases member
  | .bool _, member => by cases member
  | .number _, member => by cases member
  | .string _, member => by cases member

private theorem exists_holdsObject_of_mem {object : Json} : (items : List Json) →
    object ∈ objectsOfItems items → ∃ item ∈ items, HoldsObject item
  | [], member => by cases member
  | item :: items, member => by
      rcases List.mem_append.mp member with here | later
      · exact ⟨item, List.mem_cons_self, holdsObject_of_mem_objects item here⟩
      · obtain ⟨other, inItems, holds⟩ := exists_holdsObject_of_mem items later
        exact ⟨other, List.mem_cons_of_mem _ inItems, holds⟩

end

theorem objects_ne_nil_iff (value : Json) : value.objects ≠ [] ↔ value.HoldsObject := by
  constructor
  · intro some
    obtain ⟨object, member⟩ := List.exists_mem_of_ne_nil _ some
    exact holdsObject_of_mem_objects value member
  · exact HoldsObject.objects_ne_nil

end Json

/-! ### Attempts to write values -/

/-- What comes of writing values in which these objects lie: the first object is refused, and
where there is none the attempt succeeds. -/
def Refuses {α : Type} (language : Language) (objects : List Json)
    (attempt : Except NativeError α) : Prop :=
  match objects with
  | [] => ∃ result, attempt = .ok result
  | object :: _ => attempt = .error (.objectArgument object language)

namespace Refuses

variable {α β : Type} {language : Language}

theorem done (result : α) : Refuses language [] (.ok result) := ⟨result, rfl⟩

theorem bind {first second : List Json} {attempt : Except NativeError α}
    {next : α → Except NativeError β} (here : Refuses language first attempt)
    (later : ∀ result, attempt = .ok result → Refuses language second (next result)) :
    Refuses language (first ++ second) (attempt >>= next) := by
  cases first with
  | nil =>
      obtain ⟨result, made⟩ := here
      have rest := later result made
      rw [made]
      exact rest
  | cons object objects =>
      have refused : attempt = .error (.objectArgument object language) := here
      rw [refused]
      rfl

private theorem andThen {objects : List Json} {attempt : Except NativeError α} (finish : α → β)
    (here : Refuses language objects attempt) :
    Refuses language objects (attempt >>= fun result => .ok (finish result)) := by
  rw [← List.append_nil objects]
  exact here.bind (fun result _ => done (finish result))

theorem map {objects : List Json} {attempt : Except NativeError α} (finish : α → β)
    (here : Refuses language objects attempt) :
    Refuses language objects (attempt.map finish) :=
  here.andThen finish

theorem mapM {objects : α → List Json} {action : α → Except NativeError β} {items : List α}
    (each : ∀ item ∈ items, Refuses language (objects item) (action item)) :
    Refuses language (items.flatMap objects) (items.mapM action) := by
  induction items with
  | nil => exact done []
  | cons item items ih =>
      obtain ⟨first, others⟩ := List.forall_mem_cons.mp each
      rw [List.flatMap_cons, List.mapM_cons]
      exact first.bind (fun result _ => (ih others).andThen (fun results => result :: results))

end Refuses

namespace Literal

mutual

private theorem refuses_ofJson (language : Language) : (value : Json) →
    Refuses language value.objects (ofJson language value)
  | .null => ⟨_, rfl⟩
  | .bool _ => ⟨_, rfl⟩
  | .number _ => ⟨_, rfl⟩
  | .string _ => ⟨_, rfl⟩
  | .object members => rfl
  | .array items => by
      rw [Json.objects, ofJson]
      exact (refuses_ofItems language items).map _

private theorem refuses_ofItems (language : Language) : (items : List Json) →
    Refuses language (Json.objectsOfItems items) (ofItems language items)
  | [] => ⟨_, rfl⟩
  | item :: items => by
      rw [Json.objectsOfItems, ofItems]
      exact (refuses_ofJson language item).bind (fun text _ =>
        (refuses_ofItems language items).andThen (fun texts => text :: texts))

end

private theorem refuses_ofParameter (language : Language) (value : Json) :
    Refuses language value.objects (ofParameter language value) := by
  cases value with
  | string text => exact ⟨text, rfl⟩
  | null => exact refuses_ofJson language .null
  | bool value => exact refuses_ofJson language (.bool value)
  | number value => exact refuses_ofJson language (.number value)
  | array items => exact refuses_ofJson language (.array items)
  | object members => exact refuses_ofJson language (.object members)

end Literal

/-! ### Objects in scenarios -/

def Call.objects (call : Call) : List Json := call.arguments.flatMap Json.objects

namespace Scenario

variable {scenario : Scenario}

/-- The objects among the values that a program has to write, in its order: the arguments of all
calls, and the parameters of the setup call when there is one. -/
def objects (scenario : Scenario) : List Json :=
  scenario.threads.flatMap (fun thread => thread.calls.flatMap Call.objects) ++
    if scenario.setup.isSome then scenario.setupParameters.flatMap Json.objects else []

/-- An argument of some call is an object or holds one, or a parameter of the setup call does
that is no expression already. -/
def HoldsObject (scenario : Scenario) : Prop :=
  (∃ thread ∈ scenario.threads, ∃ call ∈ thread.calls, ∃ argument ∈ call.arguments,
    argument.HoldsObject) ∨
  (scenario.setup.isSome ∧ ∃ parameter ∈ scenario.setupParameters,
    (∀ expression, parameter ≠ .string expression) ∧ parameter.HoldsObject)

private theorem flatMap_ne_nil_iff {α β : Type} (items : List α) (parts : α → List β) :
    items.flatMap parts ≠ [] ↔ ∃ item ∈ items, parts item ≠ [] := by
  rw [ne_eq, List.flatMap_eq_nil_iff]
  push Not
  rfl

theorem objects_ne_nil_iff (scenario : Scenario) :
    scenario.objects ≠ [] ↔ scenario.HoldsObject := by
  have calls : scenario.threads.flatMap (fun thread => thread.calls.flatMap Call.objects) ≠ [] ↔
      ∃ thread ∈ scenario.threads, ∃ call ∈ thread.calls, ∃ argument ∈ call.arguments,
        argument.HoldsObject := by
    simp only [flatMap_ne_nil_iff, Call.objects, Json.objects_ne_nil_iff]
  have setup : (if scenario.setup.isSome then scenario.setupParameters.flatMap Json.objects
      else []) ≠ [] ↔ scenario.setup.isSome ∧ ∃ parameter ∈ scenario.setupParameters,
        (∀ expression, parameter ≠ .string expression) ∧ parameter.HoldsObject := by
    have noString : ∀ parameter : Json, parameter.HoldsObject →
        ∀ expression, parameter ≠ .string expression := by
      rintro _ holds expression rfl
      cases holds
    split
    · rename_i given
      rw [flatMap_ne_nil_iff, and_iff_right given]
      refine exists_congr (fun parameter => and_congr_right (fun _member => ?_))
      rw [Json.objects_ne_nil_iff]
      exact (and_iff_right_of_imp (noString parameter)).symm
    · rename_i missing
      exact iff_of_false (fun some => some rfl) (fun given => missing given.1)
  rw [objects, ne_eq, List.append_eq_nil_iff, not_and_or, ← ne_eq, ← ne_eq, calls, setup,
    HoldsObject]

/-! ### Parts of the program -/

private theorem refuses_statement (thread : Thread) (entry : Call × Nat) :
    Refuses scenario.targetLanguage entry.1.objects (scenario.statement thread entry) := by
  unfold Call.objects statement
  rw [← Json.objectsOfItems_eq]
  exact (Literal.refuses_ofItems _ _).andThen _

private theorem refuses_threadFunction (entry : (Thread × List (Call × Nat)) × Nat) :
    Refuses scenario.targetLanguage (entry.1.2.flatMap (fun call => call.1.objects))
      (scenario.threadFunction entry) := by
  unfold threadFunction
  exact (Refuses.mapM (fun call _ => refuses_statement entry.1.1 call)).andThen _

theorem numbered_objects (start : Nat) (threads : List Thread) :
    (numbered start threads).flatMap (fun entry => entry.2.flatMap (fun call => call.1.objects)) =
      threads.flatMap (fun thread => thread.calls.flatMap Call.objects) := by
  have calls := congrArg (fun bodies => bodies.flatMap (List.flatMap Call.objects))
    (numbered_map start threads)
  simpa only [List.flatMap_map] using calls

private theorem refuses_threadFunctions (scenario : Scenario) :
    Refuses scenario.targetLanguage
      (scenario.threads.flatMap (fun thread => thread.calls.flatMap Call.objects))
      scenario.threadFunctions := by
  rw [← numbered_objects 0, ← flatMap_zipIdx]
  exact Refuses.mapM (fun entry _ => refuses_threadFunction entry)

private theorem refuses_setupExpression? (scenario : Scenario) :
    Refuses scenario.targetLanguage
      (if scenario.setup.isSome then scenario.setupParameters.flatMap Json.objects else [])
      scenario.setupExpression? := by
  unfold setupExpression?
  cases scenario.setup with
  | none => exact .done none
  | some method =>
      exact (Refuses.mapM (fun parameter _ =>
        Literal.refuses_ofParameter scenario.targetLanguage parameter)).andThen _

/-- After the checks only the first object among all values to be written is in the way. -/
theorem refuses_program (checked : scenario.checkNative = .ok ()) :
    Refuses scenario.targetLanguage scenario.objects scenario.program := by
  unfold Scenario.program
  rw [checked]
  exact (refuses_threadFunctions scenario).bind (fun functions _ =>
    (refuses_setupExpression? scenario).andThen _)

private theorem program_of_refused {error : NativeError}
    (refused : scenario.checkNative = .error error) :
    scenario.program = .error error := by
  unfold Scenario.program
  rw [refused]
  rfl

/-! ### Checks -/

def LacksObject (scenario : Scenario) : Prop :=
  scenario.targetLanguage = .cpp ∧ scenario.objectName = none

/-- The scenario names an object, but no class to declare it with. -/
def LacksClass (scenario : Scenario) : Prop :=
  scenario.objectName ≠ none ∧ scenario.className = none

/-- A pair of the order that neither leads out of the initial thread nor into the final one. -/
def Crosses (scenario : Scenario) (pair : Nat × Nat) : Prop :=
  pair ∈ scenario.order ∧ scenario.initial? ≠ some pair.1 ∧ scenario.final? ≠ some pair.2

/-- The thread is an end of a pair that crosses. -/
def OnCrossing (scenario : Scenario) (index : Nat) : Prop :=
  ∃ pair, scenario.Crosses pair ∧ (pair.1 = index ∨ pair.2 = index)

private theorem checkNative_of_lacksObject (lacks : scenario.LacksObject) :
    scenario.checkNative = .error (.missingObject .cpp) := by
  unfold checkNative
  rw [lacks.2]
  exact if_pos ⟨lacks.1, rfl⟩

private theorem checkNative_of_lacksClass (object : ¬scenario.LacksObject)
    (lacks : scenario.LacksClass) : scenario.checkNative = .error .missingClass := by
  unfold checkNative
  rw [if_neg (by simpa [LacksObject] using object)]
  exact if_pos (by simpa [LacksClass, Option.isSome_iff_ne_none] using lacks)

private theorem checkNative_of_illegal (object : ¬scenario.LacksObject)
    (className : ¬scenario.LacksClass) {index : Nat} (illegal : scenario.illegal? = some index) :
    scenario.checkNative = .error (.illegalOrder index) := by
  unfold checkNative
  rw [if_neg (by simpa [LacksObject] using object),
    if_neg (by simpa [LacksClass, Option.isSome_iff_ne_none] using className), illegal]

private theorem checkNative_of_legal (object : ¬scenario.LacksObject)
    (className : ¬scenario.LacksClass) (legal : scenario.illegal? = none) :
    scenario.checkNative = scenario.checkOutcomes := by
  unfold checkNative
  rw [if_neg (by simpa [LacksObject] using object),
    if_neg (by simpa [LacksClass, Option.isSome_iff_ne_none] using className), legal]

/-- The initial thread ends no pair of the order, and the final one starts none. -/
theorem concurrent_of_onCrossing {index : Nat} (crossing : scenario.OnCrossing index) :
    scenario.placement index = .concurrent := by
  obtain ⟨pair, ⟨member, notInitial, notFinal⟩, isEnd⟩ := crossing
  have followsNone : scenario.initial? ≠ some pair.2 := by
    intro initial
    rw [initial?_eq] at initial
    exact ((only?_iff initial pair.2).mpr rfl).2 pair member rfl
  have precedesNone : scenario.final? ≠ some pair.1 := by
    intro final
    rw [final?_eq] at final
    exact ((only?_iff final pair.1).mpr rfl).2 pair member rfl
  unfold placement
  rcases isEnd with rfl | rfl
  · rw [if_neg notInitial, if_neg precedesNone]
  · rw [if_neg followsNone, if_neg notFinal]

theorem isLegal_iff (scenario : Scenario) (index : Nat) :
    scenario.isLegal index = true ↔ ¬scenario.OnCrossing index := by
  constructor
  · intro legal crossing
    have concurrent := concurrent_of_onCrossing crossing
    obtain ⟨pair, ⟨member, notInitial, notFinal⟩, isEnd⟩ := crossing
    simp only [isLegal, concurrent, bne_self_eq_false, Bool.false_or, Bool.and_eq_true,
      List.all_eq_true, List.mem_filter, beq_iff_eq, and_imp] at legal
    rcases isEnd with starts | ends
    · exact notFinal (legal.2 pair member starts).symm
    · exact notInitial (legal.1 pair member ends).symm
  · intro free
    cases placed : scenario.placement index with
    | initial => simp [isLegal, placed]
    | final => simp [isLegal, placed]
    | concurrent =>
        have notInitial : scenario.initial? ≠ some index := fun initial => by
          rw [placement_of_initial initial] at placed
          cases placed
        have notFinal : scenario.final? ≠ some index := fun final => by
          rw [placement_of_final final notInitial] at placed
          cases placed
        simp only [isLegal, placed, bne_self_eq_false, Bool.false_or, Bool.and_eq_true,
          List.all_eq_true, List.mem_filter, beq_iff_eq, and_imp]
        constructor
        · rintro pair member rfl
          by_contra other
          exact free ⟨pair, ⟨member, Ne.symm other, notFinal⟩, Or.inr rfl⟩
        · rintro pair member rfl
          by_contra other
          exact free ⟨pair, ⟨member, notInitial, Ne.symm other⟩, Or.inl rfl⟩

theorem illegal?_eq_some_iff (scenario : Scenario) (index : Nat) :
    scenario.illegal? = some index ↔ ∃ earlier later,
      scenario.indices = earlier ++ index :: later ∧ scenario.OnCrossing index ∧
        ∀ other ∈ earlier, ¬scenario.OnCrossing other := by
  unfold illegal?
  rw [List.find?_eq_some_iff_append]
  simp only [Bool.not_eq_true', ← Bool.not_eq_true, isLegal_iff, not_not]
  constructor
  · rintro ⟨crossing, earlier, later, split, free⟩
    exact ⟨earlier, later, split, crossing, free⟩
  · rintro ⟨earlier, later, split, crossing, free⟩
    exact ⟨crossing, earlier, later, split, free⟩

theorem illegal?_eq_none_iff (valid : scenario.Valid) :
    scenario.illegal? = none ↔ ∀ pair, ¬scenario.Crosses pair := by
  unfold illegal?
  rw [List.find?_eq_none]
  simp only [Bool.not_eq_true', ← Bool.not_eq_true, isLegal_iff, not_not]
  constructor
  · intro free pair crosses
    exact free pair.1 (valid.declared pair crosses.1).1 ⟨pair, crosses, Or.inl rfl⟩
  · rintro none index _declared ⟨pair, crosses, _isEnd⟩
    exact none pair crosses

/-- The first outcome that is too short or too long is the one reported. -/
theorem checkOutcomes_cases (scenario : Scenario) :
    ((∀ values ∈ scenario.outcomes, values.length = scenario.callCount) ∧
      scenario.checkOutcomes = .ok ()) ∨
    ∃ (earlier : List (List Json)) (values : List Json) (later : List (List Json)),
      scenario.outcomes = earlier ++ values :: later ∧
      (∀ other ∈ earlier, other.length = scenario.callCount) ∧
      values.length ≠ scenario.callCount ∧
      scenario.checkOutcomes =
        .error (.outcomeArity earlier.length scenario.callCount values.length) := by
  unfold checkOutcomes
  cases found : scenario.outcomes.zipIdx.find?
      (fun entry => entry.1.length != scenario.callCount) with
  | none =>
      left
      refine ⟨?_, rfl⟩
      intro values member
      obtain ⟨position, atPosition⟩ := List.mem_iff_getElem?.mp member
      have whole := List.find?_eq_none.mp found (values, position)
        (List.mem_zipIdx_iff_getElem?.mpr atPosition)
      simpa using whole
  | some entry =>
      right
      obtain ⟨wrong, earlier, later, split, whole⟩ := List.find?_eq_some_iff_append.mp found
      obtain ⟨values, outcome⟩ := entry
      have outcomes := congrArg (List.map Prod.fst) split
      rw [List.zipIdx_map_fst, List.map_append, List.map_cons] at outcomes
      have place : outcome = (earlier.map Prod.fst).length := by
        have atPlace : scenario.outcomes.zipIdx[earlier.length]? = some (values, outcome) := by
          rw [split, List.getElem?_append_right (Nat.le_refl _), Nat.sub_self,
            List.getElem?_cons_zero]
        rw [List.getElem?_zipIdx, Option.map_eq_some_iff] at atPlace
        obtain ⟨_, _, same⟩ := atPlace
        rw [List.length_map, ← (Prod.mk.inj same).2, Nat.zero_add]
      refine ⟨_, values, _, outcomes, ?_, by simpa using wrong, by rw [place]⟩
      intro other member
      obtain ⟨before, inEarlier, rfl⟩ := List.mem_map.mp member
      simpa using whole before inEarlier

/-! ### Answers -/

section

variable {library : Option String}

private theorem programText_of_refused {error : NativeError}
    (refused : scenario.checkNative = .error error) :
    scenario.programText library = .error error := by
  unfold programText
  rw [program_of_refused refused]
  rfl

theorem refuses_programText (checked : scenario.checkNative = .ok ()) :
    Refuses scenario.targetLanguage scenario.objects (scenario.programText library) :=
  (refuses_program checked).map _

private theorem programText_of_crosses (valid : scenario.Valid) (object : ¬scenario.LacksObject)
    (className : ¬scenario.LacksClass) (crosses : ∃ pair, scenario.Crosses pair) :
    ∃ earlier index later, scenario.indices = earlier ++ index :: later ∧
      scenario.OnCrossing index ∧ (∀ other ∈ earlier, ¬scenario.OnCrossing other) ∧
      scenario.programText library = .error (.illegalOrder index) := by
  cases illegal : scenario.illegal? with
  | none =>
      obtain ⟨pair, crosses⟩ := crosses
      exact absurd crosses ((illegal?_eq_none_iff valid).mp illegal pair)
  | some index =>
      obtain ⟨earlier, later, split, crossing, free⟩ :=
        (illegal?_eq_some_iff scenario index).mp illegal
      exact ⟨earlier, index, later, split, crossing, free,
        programText_of_refused (checkNative_of_illegal object className illegal)⟩

theorem checkNative_eq_checkOutcomes (valid : scenario.Valid) (object : ¬scenario.LacksObject)
    (className : ¬scenario.LacksClass) (straight : ¬∃ pair, scenario.Crosses pair) :
    scenario.checkNative = scenario.checkOutcomes :=
  checkNative_of_legal object className
    ((illegal?_eq_none_iff valid).mpr (not_exists.mp straight))

private theorem programText_of_outcome (valid : scenario.Valid) (object : ¬scenario.LacksObject)
    (className : ¬scenario.LacksClass) (straight : ¬∃ pair, scenario.Crosses pair)
    (wrong : ∃ values ∈ scenario.outcomes, values.length ≠ scenario.callCount) :
    ∃ (earlier : List (List Json)) (values : List Json) (later : List (List Json)),
      scenario.outcomes = earlier ++ values :: later ∧
      values.length ≠ scenario.callCount ∧
      (∀ other ∈ earlier, other.length = scenario.callCount) ∧
      scenario.programText library =
        .error (.outcomeArity earlier.length scenario.callCount values.length) := by
  have checked := checkNative_eq_checkOutcomes valid object className straight
  rcases scenario.checkOutcomes_cases with
    ⟨whole, _passed⟩ | ⟨earlier, values, later, split, whole, first, refused⟩
  · obtain ⟨values, member, other⟩ := wrong
    exact absurd (whole values member) other
  · exact ⟨earlier, values, later, split, first, whole,
      programText_of_refused (checked.trans refused)⟩

private theorem refuses_of_checked (valid : scenario.Valid) (object : ¬scenario.LacksObject)
    (className : ¬scenario.LacksClass) (straight : ¬∃ pair, scenario.Crosses pair)
    (whole : ¬∃ values ∈ scenario.outcomes, values.length ≠ scenario.callCount) :
    Refuses scenario.targetLanguage scenario.objects (scenario.programText library) := by
  have checked := checkNative_eq_checkOutcomes valid object className straight
  rcases scenario.checkOutcomes_cases with
    ⟨_whole, passed⟩ | ⟨earlier, values, later, split, _before, wrong, _refused⟩
  · exact refuses_programText (checked.trans passed)
  · exact absurd ⟨values, by rw [split]; simp, wrong⟩ whole

private theorem programText_of_holdsObject (valid : scenario.Valid) (object : ¬scenario.LacksObject)
    (className : ¬scenario.LacksClass) (straight : ¬∃ pair, scenario.Crosses pair)
    (whole : ¬∃ values ∈ scenario.outcomes, values.length ≠ scenario.callCount)
    (holds : scenario.HoldsObject) :
    ∃ object later, scenario.objects = object :: later ∧
      scenario.programText library =
        .error (.objectArgument object scenario.targetLanguage) := by
  obtain ⟨first, later, objects⟩ :=
    List.exists_cons_of_ne_nil (scenario.objects_ne_nil_iff.mpr holds)
  have refused : Refuses _ _ (scenario.programText library) :=
    refuses_of_checked valid object className straight whole
  rw [objects] at refused
  exact ⟨first, later, objects, refused⟩

theorem exists_programText_of_free (valid : scenario.Valid) (object : ¬scenario.LacksObject)
    (className : ¬scenario.LacksClass) (straight : ¬∃ pair, scenario.Crosses pair)
    (whole : ¬∃ values ∈ scenario.outcomes, values.length ≠ scenario.callCount)
    (free : ¬scenario.HoldsObject) : ∃ text, scenario.programText library = .ok text := by
  have none : scenario.objects = [] :=
    not_not.mp (fun some => free (scenario.objects_ne_nil_iff.mp some))
  have written : Refuses _ _ (scenario.programText library) :=
    refuses_of_checked valid object className straight whole
  rw [none] at written
  exact written

end

/-- A scenario that was read has no program exactly for these five reasons, and is refused for
the first of them that holds: it lacks the object of its calls; it lacks the class of its object;
its order has a pair that crosses; an outcome has not one value for every call; a value to be
written is an object or holds one. Of the threads on crossing pairs the first declared is named,
of the wrong outcomes the first, and of the objects the first in the order of writing. -/
theorem programText_answers {members : Members Json} {scenario : Scenario}
    (accepted : Scenario.read members = .ok scenario) (library : Option String) :
    ((∃ error, scenario.programText library = .error error) ↔
      scenario.LacksObject ∨ scenario.LacksClass ∨ (∃ pair, scenario.Crosses pair) ∨
        (∃ values ∈ scenario.outcomes, values.length ≠ scenario.callCount) ∨
        scenario.HoldsObject) ∧
    (scenario.LacksObject →
      scenario.programText library = .error (.missingObject .cpp)) ∧
    (¬scenario.LacksObject → scenario.LacksClass →
      scenario.programText library = .error .missingClass) ∧
    (¬scenario.LacksObject → ¬scenario.LacksClass → (∃ pair, scenario.Crosses pair) →
      ∃ earlier index later, scenario.indices = earlier ++ index :: later ∧
        scenario.OnCrossing index ∧ (∀ other ∈ earlier, ¬scenario.OnCrossing other) ∧
        scenario.programText library = .error (.illegalOrder index)) ∧
    (¬scenario.LacksObject → ¬scenario.LacksClass → (¬∃ pair, scenario.Crosses pair) →
      (∃ values ∈ scenario.outcomes, values.length ≠ scenario.callCount) →
      ∃ (earlier : List (List Json)) (values : List Json) (later : List (List Json)),
        scenario.outcomes = earlier ++ values :: later ∧
        values.length ≠ scenario.callCount ∧
        (∀ other ∈ earlier, other.length = scenario.callCount) ∧
        scenario.programText library =
          .error (.outcomeArity earlier.length scenario.callCount values.length)) ∧
    (¬scenario.LacksObject → ¬scenario.LacksClass → (¬∃ pair, scenario.Crosses pair) →
      (¬∃ values ∈ scenario.outcomes, values.length ≠ scenario.callCount) →
      scenario.HoldsObject →
      ∃ object later, scenario.objects = object :: later ∧
        scenario.programText library =
          .error (.objectArgument object scenario.targetLanguage)) := by
  have valid := valid_of_read accepted
  have missingObject : scenario.LacksObject →
      scenario.programText library = .error (.missingObject .cpp) :=
    fun lacks => programText_of_refused (checkNative_of_lacksObject lacks)
  have missingClass : ¬scenario.LacksObject → scenario.LacksClass →
      scenario.programText library = .error .missingClass :=
    fun object lacks => programText_of_refused (checkNative_of_lacksClass object lacks)
  refine ⟨⟨?_, ?_⟩, missingObject, missingClass, programText_of_crosses valid,
    programText_of_outcome valid, programText_of_holdsObject valid⟩
  · intro refusal
    obtain ⟨error, refused⟩ := refusal
    by_contra none
    simp only [not_or] at none
    obtain ⟨object, className, straight, whole, free⟩ := none
    obtain ⟨text, made⟩ :=
      exists_programText_of_free valid object className straight whole free
    rw [made] at refused
    cases refused
  · intro reason
    by_cases object : scenario.LacksObject
    · exact ⟨_, missingObject object⟩
    by_cases className : scenario.LacksClass
    · exact ⟨_, missingClass object className⟩
    by_cases crosses : ∃ pair, scenario.Crosses pair
    · obtain ⟨_, index, _, _, _, _, refused⟩ :=
        programText_of_crosses valid object className crosses
      exact ⟨_, refused⟩
    by_cases wrong : ∃ values ∈ scenario.outcomes, values.length ≠ scenario.callCount
    · obtain ⟨_, values, _, _, _, _, refused⟩ :=
        programText_of_outcome valid object className crosses wrong
      exact ⟨_, refused⟩
    have holds : scenario.HoldsObject := by
      simpa only [object, className, crosses, wrong, false_or] using reason
    obtain ⟨_, _, _, refused⟩ :=
      programText_of_holdsObject valid object className crosses wrong holds
    exact ⟨_, refused⟩

/-- Two threads in order, an outcome for both calls, and objects in two places: in an array in an
argument, and as a parameter of the setup call. -/
def nestedDocument : Members Json :=
  [("sequences", .array
    [.object [("index", .natural 0), ("invocations",
      .array [.object [("method", .string "open")]])],
    .object [("index", .natural 1), ("invocations",
      .array [.object [("method", .string "put"), ("arguments",
        .array [.natural 2, .array [.array [], .object [("key", .null)]]])]])]]),
  ("order", .array [.array [.natural 0, .natural 1]]),
  ("init", .string "setup"),
  ("init_parameters", .array [.string "size", .object [("mode", .bool true)]]),
  ("outcomes", .array [.array [.null, .string "1"]])]

def nestedScenario : Scenario :=
  { Scenario.empty with
    threads := [⟨0, [⟨"open", [], false, some 0⟩]⟩,
      ⟨1, [⟨"put", [.natural 2, .array [.array [], .object [("key", .null)]]], false, some 1⟩]⟩]
    order := [(0, 1)]
    setup := some "setup"
    setupParameters := [.string "size", .object [("mode", .bool true)]]
    outcomes := [[.null, .string "1"]] }

theorem programText_answers_nested :
    Scenario.read nestedDocument = .ok nestedScenario ∧
    ¬nestedScenario.LacksObject ∧ ¬nestedScenario.LacksClass ∧
    (¬∃ pair, nestedScenario.Crosses pair) ∧
    (¬∃ values ∈ nestedScenario.outcomes, values.length ≠ nestedScenario.callCount) ∧
    nestedScenario.HoldsObject ∧
    nestedScenario.programText none =
      .error (.objectArgument (.object [("key", .null)]) .c) := by
  have accepted : Scenario.read nestedDocument = .ok nestedScenario := by cbv
  have object : ¬nestedScenario.LacksObject := by
    rintro ⟨impossible, _⟩
    cases impossible
  have className : ¬nestedScenario.LacksClass := fun lacks => lacks.1 rfl
  have straight : ¬∃ pair, nestedScenario.Crosses pair := by
    rintro ⟨pair, member, notInitial, _⟩
    rw [List.mem_singleton.mp member] at notInitial
    exact notInitial rfl
  have whole : ¬∃ values ∈ nestedScenario.outcomes,
      values.length ≠ nestedScenario.callCount := by
    rintro ⟨values, member, wrong⟩
    rw [List.mem_singleton.mp member] at wrong
    exact wrong rfl
  have holds : nestedScenario.HoldsObject :=
    nestedScenario.objects_ne_nil_iff.mp (List.cons_ne_nil _ _)
  obtain ⟨_, _, _, _, _, refusal⟩ := programText_answers accepted none
  obtain ⟨first, later, objects, refused⟩ := refusal object className straight whole holds
  have named : first = .object [("key", .null)] := (List.cons.inj objects).1.symm
  rw [named] at refused
  exact ⟨accepted, object, className, straight, whole, holds, refused⟩

end Scenario

end Interleave

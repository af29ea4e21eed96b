import Interleave.Proofs.Translation

set_option autoImplicit false

/-! Result slots. The declarations, the thread functions and the assertion of a native program
each number the calls for themselves; all three mean the same slots, those of the calls with a
result outside the initial thread. -/

namespace Interleave

/-! ### Expressions of results -/

namespace Literal

/-- How an accepted result is written. A string is an expression already, unless it names an
exception. -/
inductive Result : Json → String → Prop where
  | nothing : Result .null "EMPTY"
  | exception {value : String} (named : "Exception".toList <:+: value.toList) :
      Result (.string value) "EMPTY"
  | expression {value : String} (other : ¬"Exception".toList <:+: value.toList) :
      Result (.string value) value
  | yes : Result (.bool true) "1"
  | no : Result (.bool false) "0"
  | number (value : Number) : Result (.number value) value.text
  | array (items : List Json) : Result (.array items) (Json.array items).compact
  | object (members : Members Json) : Result (.object members) (Json.object members).compact

private theorem mentions_iff (word text : List Char) :
    mentions word text = true ↔ word <:+: text := by
  induction text with
  | nil => rw [mentions, List.isEmpty_iff, List.infix_nil]
  | cons char rest ih =>
      rw [mentions, Bool.or_eq_true, List.isPrefixOf_iff_prefix, ih, List.infix_cons_iff]

theorem result_ofOutcome (value : Json) : Result value (ofOutcome value) := by
  cases value with
  | null => exact .nothing
  | bool value =>
      cases value with
      | true => exact .yes
      | false => exact .no
  | number value => exact .number value
  | string value =>
      unfold ofOutcome
      dsimp only
      by_cases named : mentions "Exception".toList value.toList = true
      · rw [if_pos named]
        exact .exception ((mentions_iff _ _).mp named)
      · rw [if_neg named]
        exact .expression (fun inside => named ((mentions_iff _ _).mpr inside))
  | array items => exact .array items
  | object members => exact .object members

end Literal

namespace Scenario

variable {scenario : Scenario} {program : Program}

/-! ### Positions of calls -/

/-- Every call with the thread that it is on, thread after thread. The place of a call in this
list is its position among all calls. -/
def placed (scenario : Scenario) : List (Thread × Call) :=
  scenario.threads.flatMap (fun thread => thread.calls.map (fun call => (thread, call)))

/-- The call at this position has a result and is not on the initial thread. -/
def Observed (scenario : Scenario) (position : Nat) : Prop :=
  ∃ thread call, scenario.placed[position]? = some (thread, call) ∧ call.isVoid = false ∧
    scenario.initial? ≠ some thread.index

private theorem placed_length (scenario : Scenario) :
    scenario.placed.length = scenario.callCount := by
  unfold placed callCount
  rw [List.length_flatMap, List.length_flatMap]
  simp only [List.length_map]

private theorem Observed.lt_callCount {position : Nat} (observed : scenario.Observed position) :
    position < scenario.callCount := by
  obtain ⟨thread, call, atPosition, _, _⟩ := observed
  rw [← placed_length]
  exact (List.getElem?_eq_some_iff.mp atPosition).1

/-- Counting on from thread to thread gives every call its position among all calls. -/
theorem numbered_flatMap (start : Nat) (threads : List Thread) :
    (numbered start threads).flatMap (fun entry =>
        entry.2.map (fun call => ((entry.1, call.1), call.2))) =
      (threads.flatMap (fun thread =>
        thread.calls.map (fun call => (thread, call)))).zipIdx start := by
  induction threads generalizing start with
  | nil => rfl
  | cons thread threads ih =>
      rw [numbered, List.flatMap_cons, ih, List.flatMap_cons, List.zipIdx_append,
        List.zipIdx_map, List.length_map]
      rfl

theorem records_iff (thread : Thread) (call : Call) :
    scenario.records thread call = true ↔
      call.isVoid = false ∧ scenario.initial? ≠ some thread.index := by
  have initial : scenario.placement thread.index = .initial ↔
      scenario.initial? = some thread.index := ⟨initial_of_placement, placement_of_initial⟩
  unfold records Call.hasResult
  rw [Bool.and_eq_true, bne_iff_ne, ne_eq, initial, Bool.not_eq_true', and_comm]

/-! ### Declared slots -/

theorem resultSlots_eq (scenario : Scenario) :
    scenario.resultSlots =
      (scenario.placed.zipIdx.filter (fun entry => scenario.records entry.1.1 entry.1.2)).map
        Prod.snd := by
  unfold resultSlots placed
  rw [← numbered_flatMap, List.filter_flatMap, List.map_flatMap]
  simp only [List.filter_map, List.map_map]
  rfl

theorem resultSlots_ascending (scenario : Scenario) :
    scenario.resultSlots.Pairwise (· < ·) := by
  have all : (scenario.placed.zipIdx.map Prod.snd).Pairwise (· < ·) := by
    rw [List.zipIdx_map_snd]
    exact List.pairwise_lt_range'
  rw [resultSlots_eq]
  exact all.sublist (List.filter_sublist.map _)

theorem mem_resultSlots_iff (position : Nat) :
    position ∈ scenario.resultSlots ↔ scenario.Observed position := by
  rw [resultSlots_eq, List.mem_map]
  constructor
  · rintro ⟨⟨⟨thread, call⟩, place⟩, member, rfl⟩
    obtain ⟨inPlaced, records⟩ := List.mem_filter.mp member
    obtain ⟨result, outside⟩ := (records_iff thread call).mp records
    exact ⟨thread, call, List.mem_zipIdx_iff_getElem?.mp inPlaced, result, outside⟩
  · rintro ⟨thread, call, atPosition, result, outside⟩
    refine ⟨((thread, call), position), List.mem_filter.mpr ⟨?_, ?_⟩, rfl⟩
    · exact List.mem_zipIdx_iff_getElem?.mpr atPosition
    · exact (records_iff thread call).mpr ⟨result, outside⟩

/-! ### Assigned slots -/

private theorem parts_of_statement {thread : Thread} {entry : Call × Nat} {statement : Statement}
    (made : scenario.statement thread entry = .ok statement) :
    (statement.call, statement.slot) =
      (entry.1, if scenario.records thread entry.1 then some entry.2 else none) := by
  obtain ⟨arguments, _, rfl⟩ := exists_of_statement made
  rfl

/-- The statements of all thread functions together are those of the calls, position by
position. -/
theorem view_of_statements {α : Type} {view : Statement → α} {seen : Thread → Call × Nat → α}
    (agree : ∀ thread entry statement,
      scenario.statement thread entry = .ok statement → view statement = seen thread entry)
    {functions : List ThreadFunction} (made : scenario.threadFunctions = .ok functions) :
    (functions.flatMap ThreadFunction.statements).map view =
      scenario.placed.zipIdx.map (fun entry => seen entry.1.1 (entry.1.2, entry.2)) := by
  have viewed := congrArg (List.flatMap Prod.snd) (view_of_threadFunctions agree made)
  simp only [List.flatMap_map] at viewed
  have unnumbered := flatMap_zipIdx (numbered 0 scenario.threads)
    (fun entry => entry.2.map (seen entry.1))
  unfold placed
  rw [← numbered_flatMap, List.map_flatMap, List.map_flatMap, viewed.trans unnumbered]
  simp only [List.map_map]
  rfl

private theorem records_iff_of_placed {position : Nat} {thread : Thread} {call : Call}
    (atPosition : scenario.placed[position]? = some (thread, call)) :
    scenario.records thread call = true ↔ position ∈ scenario.resultSlots := by
  rw [records_iff, mem_resultSlots_iff]
  constructor
  · intro observed
    exact ⟨thread, call, atPosition, observed⟩
  · rintro ⟨otherThread, otherCall, atSame, observed⟩
    rw [atPosition] at atSame
    cases atSame
    exact observed

/-- The statement at a position writes the call there, and into its slot when it is observed. -/
theorem statement_at {functions : List ThreadFunction}
    (made : scenario.threadFunctions = .ok functions) {position : Nat} {thread : Thread}
    {call : Call} (atPosition : scenario.placed[position]? = some (thread, call)) :
    ∃ statement, (functions.flatMap ThreadFunction.statements)[position]? = some statement ∧
      statement.call = call ∧ scenario.Writes call statement.expression ∧
      statement.Listed
        (if position ∈ scenario.resultSlots then
          "    RESULT_" ++ toString position ++ " = " ++ statement.expression ++ ";\n"
        else "    " ++ statement.expression ++ ";\n") := by
  have same := congrArg (fun statements => statements[position]?)
    (view_of_statements (fun _ _ _ => parts_of_statement) made)
  simp only [List.getElem?_map, List.getElem?_zipIdx, atPosition, Option.map_some,
    Nat.zero_add] at same
  obtain ⟨statement, found, parts⟩ := Option.map_eq_some_iff.mp same
  obtain ⟨function, inFunctions, inStatements⟩ :=
    List.mem_flatMap.mp (List.mem_of_getElem? found)
  have writes := writes_of_threadFunctions made function inFunctions statement inStatements
  obtain ⟨own, slot⟩ := Prod.mk.inj parts
  rw [own] at writes
  refine ⟨statement, found, own, writes, (statement.listed_iff _).mpr ?_⟩
  unfold Statement.text
  rw [slot]
  by_cases member : position ∈ scenario.resultSlots
  · rw [if_pos ((records_iff_of_placed atPosition).mpr member), if_pos member]
  · rw [if_neg (fun records => member ((records_iff_of_placed atPosition).mp records)),
      if_neg member]

/-! ### Compared slots -/

/-- What an outcome asks of a slot: its own entry at that position. -/
inductive Compares (outcome : List Json) (slot : Nat) : String → Prop where
  | entry {value : Json} {expression : String} (atSlot : outcome[slot]? = some value)
      (written : Literal.Result value expression) :
      Compares outcome slot ("RESULT_" ++ toString slot ++ " == " ++ expression)

inductive Disjunct (slots : List Nat) (outcome : List Json) : String → Prop where
  | always (empty : slots = []) : Disjunct slots outcome "(1)"
  | every {comparisons : List String} (some : slots ≠ [])
      (each : List.Forall₂ (Compares outcome) slots comparisons) :
      Disjunct slots outcome ("(" ++ " && ".intercalate comparisons ++ ")")

private theorem outcome_length (checked : scenario.checkNative = .ok ()) {outcome : List Json}
    (member : outcome ∈ scenario.outcomes) : outcome.length = scenario.callCount := by
  obtain ⟨_, passed⟩ := checks_of_checkNative checked
  rcases scenario.checkOutcomes_cases with
    ⟨whole, _⟩ | ⟨earlier, values, later, _, _, _, refused⟩
  · exact whole outcome member
  · rw [refused] at passed
    cases passed

private theorem slot_lt_length (checked : scenario.checkNative = .ok ()) {outcome : List Json}
    (member : outcome ∈ scenario.outcomes) {slot : Nat} (isSlot : slot ∈ scenario.resultSlots) :
    slot < outcome.length := by
  rw [outcome_length checked member]
  exact ((mem_resultSlots_iff slot).mp isSlot).lt_callCount

private theorem disjunct_of_outcome {slots : List Nat} {outcome : List Json}
    (within : ∀ slot ∈ slots, slot < outcome.length) :
    Disjunct slots outcome (Program.conjunction (slots.filterMap (fun slot =>
      outcome[slot]?.map (fun value => (slot, Literal.ofOutcome value))))) := by
  -- No lookup fails inside the outcome, so none of the slots is left out.
  have entries : slots.filterMap (fun slot =>
      outcome[slot]?.map (fun value => (slot, Literal.ofOutcome value))) =
      slots.map (fun slot => (slot, Literal.ofOutcome (outcome.getD slot .null))) := by
    rw [← List.filterMap_eq_map]
    apply List.filterMap_congr
    intro slot member
    have bound := within slot member
    change _ = some (slot, Literal.ofOutcome (outcome.getD slot .null))
    rw [List.getElem?_eq_getElem bound, List.getD_eq_getElem _ _ bound]
    rfl
  have compared : ∀ slot ∈ slots, Compares outcome slot
      ("RESULT_" ++ toString slot ++ " == " ++ Literal.ofOutcome (outcome.getD slot .null)) := by
    intro slot member
    have bound := within slot member
    rw [List.getD_eq_getElem _ _ bound]
    exact .entry (List.getElem?_eq_getElem bound) (Literal.result_ofOutcome _)
  have each := List.forall₂_map_right_iff.mpr (List.forall₂_same.mpr compared)
  unfold Program.conjunction
  rw [entries, List.map_map]
  simp only [List.isEmpty_iff, List.map_eq_nil_iff]
  by_cases empty : slots = []
  · rw [if_pos empty]
    exact .always empty
  · rw [if_neg empty]
    exact .every empty each

private theorem disjuncts_of_checked (checked : scenario.checkNative = .ok ()) :
    List.Forall₂ (Disjunct scenario.resultSlots) scenario.outcomes
      (scenario.acceptedOutcomes.map Program.conjunction) := by
  unfold acceptedOutcomes
  rw [List.map_map, List.forall₂_map_right_iff, List.forall₂_same]
  intro outcome member
  exact disjunct_of_outcome (fun _slot isSlot => slot_lt_length checked member isSlot)

/-- The results are checked once, at the end. -/
theorem mainActions_check (setup : Option String) :
    ∃ before : List Action, scenario.mainActions setup = before ++ [.check] ∧ .check ∉ before := by
  refine ⟨_, rfl, ?_⟩
  simp

/-! ### Agreement -/

theorem sharedObject_eq_some_iff (className object : String) :
    scenario.sharedObject = some (className, object) ↔
      scenario.className = some className ∧ scenario.objectName = some object := by
  unfold sharedObject
  cases scenario.className <;> cases scenario.objectName <;> simp

/-- The slots of a translation are the positions of the observed calls, in ascending order, and
its text is listed with them. They are the ones declared, each once and in this order; the call at
a position is written in its place among the thread functions, assigned to its slot when it has
one and bare when it has none; and the assertion, when there are outcomes to check, is the
disjunction of all of them, each comparing every slot, in order, with its own entry at that
position, which it has. -/
theorem programText_slots {scenario : Scenario} {library : Option String} {text : String}
    (generated : scenario.programText library = .ok text) :
    ∃ program, scenario.program = .ok program ∧ program.text library = text ∧
      program.Listed library text ∧
      program.slots.Pairwise (· < ·) ∧
      (∀ position, position ∈ program.slots ↔ scenario.Observed position) ∧
      (∀ className object, program.sharedObject = some (className, object) ↔
        scenario.className = some className ∧ scenario.objectName = some object) ∧
      program.functions.map (fun function =>
          (function.position, function.statements.map Statement.call)) =
        (scenario.threads.map Thread.calls).zipIdx.map Prod.swap ∧
      (∀ position thread call, scenario.placed[position]? = some (thread, call) →
        ∃ statement : Statement,
          (program.functions.flatMap ThreadFunction.statements)[position]? = some statement ∧
          statement.call = call ∧ scenario.Writes call statement.expression ∧
          statement.Listed
            (if position ∈ program.slots then
              "    RESULT_" ++ toString position ++ " = " ++ statement.expression ++ ";\n"
            else "    " ++ statement.expression ++ ";\n")) ∧
      (∃ before : List Action, program.main = before ++ [.check] ∧ .check ∉ before) ∧
      (∀ outcome ∈ scenario.outcomes, ∀ slot ∈ program.slots, slot < outcome.length) ∧
      (scenario.outcomes = [] → program.assertion = "1") ∧
      (scenario.outcomes ≠ [] →
        ∃ disjuncts, List.Forall₂ (Disjunct program.slots) scenario.outcomes disjuncts ∧
          program.assertion = " || ".intercalate disjuncts) := by
  obtain ⟨program, made, written, listed⟩ := exists_program generated
  have functions := functions_eq (makes_of_program made)
  -- What is left is about the parts alone: the statements, the last action and the outcomes.
  obtain ⟨checked, _, setup, statements, rfl⟩ := parts_of_program made
  refine ⟨_, made, written, listed, resultSlots_ascending scenario, mem_resultSlots_iff,
    sharedObject_eq_some_iff, functions, ?_, mainActions_check setup, ?_, ?_, ?_⟩
  · intro position thread call atPosition
    exact statement_at statements atPosition
  · intro outcome member slot isSlot
    exact slot_lt_length checked member isSlot
  · intro none
    unfold Program.assertion acceptedOutcomes
    rw [none]
    rfl
  · intro some
    have accepted : scenario.acceptedOutcomes ≠ [] := by
      unfold acceptedOutcomes
      rwa [ne_eq, List.map_eq_nil_iff]
    refine ⟨_, disjuncts_of_checked checked, ?_⟩
    unfold Program.assertion
    rw [List.isEmpty_eq_false_iff.mpr accepted]
    rfl

/-- Four threads of which the initial one is declared second, one has no calls, and one has a
call without a result after one with a result. -/
def lateDocument : Members Json :=
  [("sequences", .array
    [.object [("index", .natural 5), ("invocations",
      .array [.object [("method", .string "pop")],
        .object [("method", .string "push"), ("arguments", .array [.natural 2]),
          ("void", .bool true)]])],
    .object [("index", .natural 0), ("invocations",
      .array [.object [("method", .string "open")]])],
    .object [("index", .natural 7)],
    .object [("index", .natural 3), ("invocations",
      .array [.object [("method", .string "size")]])]]),
  ("order", .array [.array [.natural 0, .natural 5], .array [.natural 0, .natural 7],
    .array [.natural 0, .natural 3]]),
  ("outcomes", .array
    [.array [.natural 1, .null, .null, .natural 2],
      .array [.string "LookupException", .null, .null, .natural 1]])]

def lateScenario : Scenario :=
  { Scenario.empty with
    threads := [⟨5, [⟨"pop", [], false, some 5⟩, ⟨"push", [.natural 2], true, some 5⟩]⟩,
      ⟨0, [⟨"open", [], false, some 0⟩]⟩, ⟨7, []⟩, ⟨3, [⟨"size", [], false, some 3⟩]⟩]
    order := [(0, 5), (0, 7), (0, 3)]
    outcomes := [[.natural 1, .null, .null, .natural 2],
      [.string "LookupException", .null, .null, .natural 1]] }

def lateProgram : Program :=
  { sharedObject := none
    slots := [0, 3]
    functions := [⟨0, [⟨⟨"pop", [], false, some 5⟩, "pop()", some 0⟩,
        ⟨⟨"push", [.natural 2], true, some 5⟩, "push(2)", none⟩]⟩,
      ⟨1, [⟨⟨"open", [], false, some 0⟩, "open()", none⟩]⟩, ⟨2, []⟩,
      ⟨3, [⟨⟨"size", [], false, some 3⟩, "size()", some 3⟩]⟩]
    main := [.declare 0, .declare 2, .declare 3, .runInitial 1, .startThreads, .create 0,
      .create 2, .create 3, .waitForThreads, .join 0, .join 2, .join 3, .check]
    accepted := [[(0, "1"), (3, "2")], [(0, "EMPTY"), (3, "1")]] }

private theorem late_made : lateScenario.program = .ok lateProgram := by cbv

theorem programText_slots_late :
    Scenario.read lateDocument = .ok lateScenario ∧
    lateScenario.programText none = .ok (lateProgram.text none) ∧
    lateProgram.Listed none (lateProgram.text none) ∧ lateProgram.slots.Pairwise (· < ·) ∧
    (∀ position, position ∈ [0, 3] ↔ lateScenario.Observed position) ∧
    ∃ disjuncts, List.Forall₂ (Disjunct [0, 3]) lateScenario.outcomes disjuncts ∧
      lateProgram.assertion = " || ".intercalate disjuncts := by
  have accepted : Scenario.read lateDocument = .ok lateScenario := by rfl
  have generated : lateScenario.programText none = .ok (lateProgram.text none) := by
    unfold programText
    rw [late_made]
    rfl
  obtain ⟨program, made, _, listed, ascending, observed, _, _, _, _, _, _, assertion⟩ :=
    programText_slots generated
  rw [late_made] at made
  cases made
  exact ⟨accepted, generated, listed, ascending, observed, assertion (List.cons_ne_nil _ _)⟩

end Scenario

end Interleave

import Interleave.Native.Printer
import Interleave.Proofs.Attempts
import Interleave.Proofs.Literals

set_option autoImplicit false

/-! The text of a native program, line by line. A thread function has one line for each of its
statements and main the lines of each of its actions, all in order and with nothing between
them, so what the text does is what the program does. The expression of a call names the method,
the shared object and the literals of the arguments. -/

namespace Interleave

/-! ### Lines -/

inductive Statement.Listed : Statement → String → Prop where
  | bare (call : Call) (expression : String) :
      Listed ⟨call, expression, none⟩ ("    " ++ expression ++ ";\n")
  | recorded (call : Call) (expression : String) (slot : Nat) :
      Listed ⟨call, expression, some slot⟩
        ("    RESULT_" ++ toString slot ++ " = " ++ expression ++ ";\n")

inductive ThreadFunction.Listed : ThreadFunction → String → Prop where
  | lines (position : Nat) {statements : List Statement} {lines : List String}
      (each : List.Forall₂ Statement.Listed statements lines) :
      Listed ⟨position, statements⟩
        ("void *thread" ++ toString position ++ "(void *args) \x7b\n" ++ String.join lines ++
          "    return 0;\n\x7d\n\n")

/-- An action of main is one statement or none, and comments. The condition is that of the check
at the end. -/
inductive Action.Listed (condition : String) : Action → String → Prop where
  | setUp (expression : String) :
      Listed condition (.setUp expression)
        ("    /* Initialize shared object */\n    " ++ expression ++ ";\n\n")
  | declare (position : Nat) :
      Listed condition (.declare position) ("    pthread_t t" ++ toString position ++ ";\n")
  | runInitial (position : Nat) :
      Listed condition (.runInitial position)
        ("\n    /* Initial sequence */\n    thread" ++ toString position ++ "(0);\n")
  | startThreads : Listed condition .startThreads "\n    /* Start threads */\n"
  | create (position : Nat) :
      Listed condition (.create position)
        ("    pthread_create(&t" ++ toString position ++ ", 0, thread" ++ toString position ++
          ", 0);\n")
  | waitForThreads : Listed condition .waitForThreads "\n    /* Wait for threads */\n"
  | join (position : Nat) :
      Listed condition (.join position) ("    pthread_join(t" ++ toString position ++ ", 0);\n")
  | runFinal (position : Nat) :
      Listed condition (.runFinal position)
        ("\n    /* Final sequence */\n    thread" ++ toString position ++ "(0);\n")
  | check :
      Listed condition .check
        ("\n    /* Check results */\n    assert(" ++ condition ++ ");\n")

namespace Program

def includes : String :=
  "#include <stdio.h>\n#include <stdlib.h>\n#include <assert.h>\n#include <pthread.h>\n\n"

/-- The includes, and the library source with a line break at its end. -/
inductive Preamble : Option String → String → Prop where
  | bare : Preamble none includes
  | ended {source : String} (last : source.toList.getLast? = some '\n') :
      Preamble (some source) (includes ++ ("/* Library under test */\n" ++ source ++ "\n"))
  | unended {source : String} (last : source.toList.getLast? ≠ some '\n') :
      Preamble (some source)
        (includes ++ ("/* Library under test */\n" ++ source ++ "\n" ++ "\n"))

inductive SharedObject : Option (String × String) → String → Prop where
  | missing : SharedObject none ""
  | declared (className object : String) :
      SharedObject (some (className, object)) (className ++ " " ++ object ++ ";\n")

/-- The text has these parts and no others: the preamble, the declarations of the shared object
and of every slot, all thread functions, and main. -/
inductive Listed (program : Program) (library : Option String) : String → Prop where
  | parts {preamble object : String} {functions actions : List String}
      (opening : Preamble library preamble) (shared : SharedObject program.sharedObject object)
      (threads : List.Forall₂ ThreadFunction.Listed program.functions functions)
      (main : List.Forall₂ (Action.Listed program.assertion) program.main actions) :
      Listed program library
        (preamble ++
          ("/* Shared object and recorded results */\n" ++ object ++
            String.join (program.slots.map (fun slot =>
              "int RESULT_" ++ toString slot ++ ";\n")) ++ "\n") ++
          "/* Threads */\n" ++ String.join functions ++
          ("int main(int argc, char *argv[]) \x7b\n" ++ String.join actions ++
            "    return 0;\n\x7d\n"))

end Program

/-! ### One text for each program -/

private theorem forall₂_iff_map_eq {α β : Type} {related : α → β → Prop} {view : α → β}
    (same : ∀ item result, related item result ↔ view item = result) (items : List α)
    (results : List β) : List.Forall₂ related items results ↔ items.map view = results := by
  have each : related = fun item result => view item = result := by
    funext item result
    exact propext (same item result)
  rw [each, ← List.forall₂_eq_eq_eq, List.forall₂_map_left_iff]

theorem Statement.listed_iff (statement : Statement) (line : String) :
    statement.Listed line ↔ statement.text = line := by
  constructor
  · intro listed
    cases listed with
    | bare call expression => rfl
    | recorded call expression slot => rfl
  · intro same
    subst same
    obtain ⟨call, expression, slot⟩ := statement
    cases slot with
    | none => exact .bare call expression
    | some slot => exact .recorded call expression slot

theorem ThreadFunction.listed_iff (function : ThreadFunction) (text : String) :
    function.Listed text ↔ function.text = text := by
  constructor
  · intro listed
    cases listed with
    | lines position each =>
        rw [forall₂_iff_map_eq Statement.listed_iff] at each
        subst each
        rfl
  · intro same
    subst same
    exact .lines function.position ((forall₂_iff_map_eq Statement.listed_iff _ _).mpr rfl)

namespace Program

theorem action_listed_iff (program : Program) (action : Action) (text : String) :
    action.Listed program.assertion text ↔ program.actionText action = text := by
  constructor
  · intro listed
    cases listed <;> rfl
  · intro same
    subst same
    cases action with
    | setUp expression => exact .setUp expression
    | declare position => exact .declare position
    | runInitial position => exact .runInitial position
    | startThreads => exact .startThreads
    | create position => exact .create position
    | waitForThreads => exact .waitForThreads
    | join position => exact .join position
    | runFinal position => exact .runFinal position
    | check => exact .check

private theorem header_ended {source : String} (last : source.toList.getLast? = some '\n') :
    header (some source) = includes ++ ("/* Library under test */\n" ++ source ++ "\n") := by
  unfold header
  dsimp only
  rw [if_pos last, String.append_empty]
  rfl

private theorem header_unended {source : String} (last : source.toList.getLast? ≠ some '\n') :
    header (some source) =
      includes ++ ("/* Library under test */\n" ++ source ++ "\n" ++ "\n") := by
  unfold header
  dsimp only
  rw [if_neg last]
  rfl

theorem preamble_iff (library : Option String) (text : String) :
    Preamble library text ↔ header library = text := by
  constructor
  · intro opening
    cases opening with
    | bare => rfl
    | ended last => exact header_ended last
    | unended last => exact header_unended last
  · intro same
    subst same
    cases library with
    | none => exact .bare
    | some source =>
        by_cases last : source.toList.getLast? = some '\n'
        · rw [header_ended last]
          exact .ended last
        · rw [header_unended last]
          exact .unended last

private theorem globals_eq {program : Program} {object : String}
    (shared : SharedObject program.sharedObject object) :
    program.globals =
      "/* Shared object and recorded results */\n" ++ object ++
        String.join (program.slots.map (fun slot => "int RESULT_" ++ toString slot ++ ";\n")) ++
        "\n" := by
  unfold globals
  generalize program.sharedObject = declared at shared ⊢
  cases shared <;> rfl

private theorem exists_sharedObject (declared : Option (String × String)) :
    ∃ object, SharedObject declared object := by
  cases declared with
  | none => exact ⟨_, .missing⟩
  | some object => exact ⟨_, .declared object.1 object.2⟩

/-- A text is listed of a program exactly when it is the program's own. -/
theorem listed_iff (program : Program) (library : Option String) (text : String) :
    program.Listed library text ↔ program.text library = text := by
  constructor
  · intro listed
    cases listed with
    | parts opening shared threads main =>
        rw [preamble_iff] at opening
        rw [forall₂_iff_map_eq ThreadFunction.listed_iff] at threads
        rw [forall₂_iff_map_eq program.action_listed_iff] at main
        subst opening threads main
        unfold Program.text
        rw [globals_eq shared]
        rfl
  · intro same
    subst same
    obtain ⟨object, shared⟩ := exists_sharedObject program.sharedObject
    unfold Program.text
    rw [globals_eq shared]
    exact .parts ((preamble_iff _ _).mpr rfl) shared
      ((forall₂_iff_map_eq ThreadFunction.listed_iff _ _).mpr rfl)
      ((forall₂_iff_map_eq program.action_listed_iff _ _).mpr rfl)

end Program

/-! ### Expressions of calls -/

namespace Scenario

/-- How a call is written, with the literals of its arguments: on the shared object, with the
object before the arguments, or without one. -/
inductive Writes (scenario : Scenario) (call : Call) : String → Prop where
  | onObject {object : String} {literals : List String} (language : scenario.targetLanguage = .cpp)
      (shared : scenario.objectName = some object)
      (arguments : List.Forall₂ (fun value literal => Literal.ofJson .cpp value = .ok literal)
        call.arguments literals) :
      Writes scenario call
        (object ++ "." ++ call.method ++ "(" ++ ", ".intercalate literals ++ ")")
  | withObject {object : String} {literals : List String} (language : scenario.targetLanguage = .c)
      (shared : scenario.objectName = some object)
      (arguments : List.Forall₂ (fun value literal => Literal.ofJson .c value = .ok literal)
        call.arguments literals) :
      Writes scenario call (call.method ++ "(" ++ ", ".intercalate (object :: literals) ++ ")")
  | plain {literals : List String} (missing : scenario.objectName = none)
      (arguments : List.Forall₂
        (fun value literal => Literal.ofJson scenario.targetLanguage value = .ok literal)
        call.arguments literals) :
      Writes scenario call (call.method ++ "(" ++ ", ".intercalate literals ++ ")")

end Scenario

private theorem decimal_ne_empty (decimal : Decimal) : decimal.text ≠ "" := by
  unfold Decimal.text Decimal.positional Decimal.scientific Decimal.pointed
  split_ifs <;> simp [String.append_eq_empty_iff]

private theorem number_ne_empty (value : Number) : value.text ≠ "" := by
  cases value with
  | whole value =>
      intro none
      exact Literal.whole_nonempty value (String.toList_eq_nil_iff.mpr none)
  | real value =>
      intro none
      exact decimal_ne_empty _ (String.append_eq_empty_iff.mp none).2

private theorem literal_ne_empty {language : Language} {value : Json} {literal : String}
    (written : Literal.ofJson language value = .ok literal) : literal ≠ "" := by
  cases value with
  | null =>
      cases written
      cases language <;> decide
  | bool value =>
      cases written
      cases language <;> cases value <;> decide
  | number value =>
      cases written
      exact number_ne_empty value
  | string value =>
      cases written
      intro none
      have characters := Literal.toList_quoted value
      rw [none] at characters
      cases characters
  | array items =>
      obtain ⟨texts, _, characters⟩ := Literal.array_written written
      intro none
      rw [none] at characters
      cases characters
  | object members => cases written

/-- With no literal empty, the object and the literals are joined as one list. -/
private theorem intercalate_object (object : String) {literals : List String}
    (nonempty : ∀ literal ∈ literals, literal ≠ "") :
    ", ".intercalate (object :: literals) =
      if (", ".intercalate literals).isEmpty then object
      else object ++ ", " ++ ", ".intercalate literals := by
  cases literals with
  | nil => rfl
  | cons literal literals =>
      have first := nonempty literal List.mem_cons_self
      have joined : ", ".intercalate (literal :: literals) ≠ "" := by
        intro none
        cases literals with
        | nil => exact first (String.intercalate_singleton.symm.trans none)
        | cons next literals =>
            rw [String.intercalate_cons_cons, String.append_eq_empty_iff,
              String.append_eq_empty_iff] at none
            exact first none.1.1
      rw [String.isEmpty_eq_false_iff.mpr joined, String.intercalate_cons_cons]
      rfl

namespace Scenario

theorem writes_callExpression {scenario : Scenario} {call : Call} {literals : List String}
    (written : Literal.ofItems scenario.targetLanguage call.arguments = .ok literals) :
    scenario.Writes call (scenario.callExpression call.method literals) := by
  rw [Literal.ofItems_eq, mapM_eq_ok_iff] at written
  have each := written.flip.imp (fun literal _ made => And.intro (literal_ne_empty made) made)
  have nonempty := ((List.forall₂_and_left literals call.arguments).mp each).1
  unfold callExpression
  dsimp only
  cases shared : scenario.objectName with
  | none =>
      have plain := Writes.plain shared written
      cases language : scenario.targetLanguage with
      | c => exact plain
      | cpp => exact plain
  | some object =>
      cases language : scenario.targetLanguage with
      | cpp =>
          rw [language] at written
          exact .onObject language shared written
      | c =>
          rw [language] at written
          have whole := Writes.withObject language shared written
          rw [intercalate_object object nonempty] at whole
          dsimp only
          by_cases none : (", ".intercalate literals).isEmpty = true
          · rw [if_pos none] at whole ⊢
            exact whole
          · rw [if_neg none] at whole ⊢
            simpa only [String.append_assoc] using whole

end Scenario

end Interleave

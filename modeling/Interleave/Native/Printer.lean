import Interleave.Digest.Sha256
import Interleave.Native.Program
import Interleave.Text.Utf8

set_option autoImplicit false

/-! The text of native test programs, and the header that records what one was made from. -/

namespace Interleave

def Statement.text (statement : Statement) : String :=
  match statement.slot with
  | some slot =>
      "    RESULT_" ++ toString slot ++ " = " ++ statement.expression ++ ";\n"
  | none => "    " ++ statement.expression ++ ";\n"

def ThreadFunction.text (function : ThreadFunction) : String :=
  "void *thread" ++ toString function.position ++ "(void *args) \x7b\n" ++
    String.join (function.statements.map Statement.text) ++
    "    return 0;\n\x7d\n\n"

namespace Program

/-- The includes, and the source of the library under test, ended by a line break. -/
def header (library : Option String) : String :=
  "#include <stdio.h>\n#include <stdlib.h>\n#include <assert.h>\n#include <pthread.h>\n\n" ++
  match library with
  | none => ""
  | some source =>
      "/* Library under test */\n" ++ source ++
        (if source.toList.getLast? = some '\n' then "" else "\n") ++ "\n"

def globals (program : Program) : String :=
  "/* Shared object and recorded results */\n" ++
  (match program.sharedObject with
    | some (className, object) => className ++ " " ++ object ++ ";\n"
    | none => "") ++
  String.join (program.slots.map (fun slot => "int RESULT_" ++ toString slot ++ ";\n")) ++ "\n"

def conjunction (values : List (Nat × String)) : String :=
  if values.isEmpty then "(1)"
  else "(" ++ " && ".intercalate (values.map (fun entry =>
    "RESULT_" ++ toString entry.1 ++ " == " ++ entry.2)) ++ ")"

/-- Some accepted outcome holds; without outcomes nothing is asked. -/
def assertion (program : Program) : String :=
  if program.accepted.isEmpty then "1"
  else " || ".intercalate (program.accepted.map conjunction)

def actionText (program : Program) : Action → String
  | .setUp expression =>
      "    /* Initialize shared object */\n    " ++ expression ++ ";\n\n"
  | .declare position => "    pthread_t t" ++ toString position ++ ";\n"
  | .runInitial position =>
      "\n    /* Initial sequence */\n    thread" ++ toString position ++ "(0);\n"
  | .startThreads => "\n    /* Start threads */\n"
  | .create position =>
      "    pthread_create(&t" ++ toString position ++ ", 0, thread" ++ toString position ++
        ", 0);\n"
  | .waitForThreads => "\n    /* Wait for threads */\n"
  | .join position => "    pthread_join(t" ++ toString position ++ ", 0);\n"
  | .runFinal position =>
      "\n    /* Final sequence */\n    thread" ++ toString position ++ "(0);\n"
  | .check => "\n    /* Check results */\n    assert(" ++ program.assertion ++ ");\n"

def mainText (program : Program) : String :=
  "int main(int argc, char *argv[]) \x7b\n" ++
    String.join (program.main.map program.actionText) ++ "    return 0;\n\x7d\n"

def text (program : Program) (library : Option String) : String :=
  header library ++ program.globals ++
    "/* Threads */\n" ++ String.join (program.functions.map ThreadFunction.text) ++
    program.mainText

end Program

structure Provenance where
  scenario : String
  library : Option String

namespace Provenance

def ofDocument (document : Members Json) (library : Option String) : Provenance :=
  { scenario := Sha256.hexDigest (Utf8.encode (Json.compact (.object document)))
    library := library.map (fun source => Sha256.hexDigest (Utf8.encode source)) }

def line (kind digest : String) : String :=
  "// @jcsgen-provenance " ++ kind ++ "_sha256=" ++ digest ++ "\n"

def text (provenance : Provenance) : String :=
  line "scenario" provenance.scenario ++
    (provenance.library.map (line "library")).getD "" ++ "\n"

end Provenance

def Scenario.programText (scenario : Scenario) (library : Option String) :
    Except NativeError String :=
  scenario.program.map (fun program => program.text library)

end Interleave

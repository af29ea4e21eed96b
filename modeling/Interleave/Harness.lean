import Interleave.Linearization.Search
import Interleave.Native.Name
import Interleave.Native.Printer
import Interleave.Scenario.Wire

set_option autoImplicit false

/-! Harnesses: what is made of one scenario document, and how it is merged back into it. -/

namespace Interleave

structure Settings where
  native : Bool
  library : Option String
  limit : Nat

def Settings.defaultLimit : Nat := 100000

structure NativeTest where
  language : Language
  fileName : String
  code : String

structure Harness where
  linearizations : List (CallSequence Call)
  nativeTest : Option NativeTest

inductive HarnessError where
  | scenario (cause : ScenarioError)
  | linearization (cause : LinearizationError)
  | native (cause : NativeError)

def HarnessError.message : HarnessError → String
  | .scenario cause => cause.message
  | .linearization cause => cause.message
  | .native cause => "native translation failed: " ++ cause.message

/-- The native program of a scenario, headed by the provenance of the whole document. -/
def NativeTest.make (document : Members Json) (scenario : Scenario) (library : Option String) :
    Except NativeError NativeTest :=
  (scenario.programText library).map (fun code =>
    { language := scenario.targetLanguage
      fileName := Name.ofProgram scenario
      code := (Provenance.ofDocument document library).text ++ code })

def NativeTest.toJson (test : NativeTest) : Json :=
  .object [("language", .string test.language.name), ("file_name", .string test.fileName),
    ("code", .string test.code)]

namespace Harness

def nativeTest? (document : Members Json) (scenario : Scenario) (settings : Settings) :
    Except NativeError (Option NativeTest) :=
  if settings.native then
    (NativeTest.make document scenario settings.library).map some
  else .ok none

/-- Decodes the document, walks its linearizations and makes its test program, in this order. -/
def build (document : Members Json) (settings : Settings) : Except HarnessError Harness :=
  match Scenario.read document with
  | .error cause => .error (.scenario cause)
  | .ok scenario =>
      match scenario.linearizations settings.limit with
      | .error cause => .error (.linearization cause)
      | .ok linearizations =>
          match nativeTest? document scenario settings with
          | .error cause => .error (.native cause)
          | .ok nativeTest => .ok { linearizations, nativeTest }

def orderings (harness : Harness) : List String :=
  harness.linearizations.map (CallSequence.render Call.render)

def results (harness : Harness) : Json :=
  .object (("orderings", .array (harness.orderings.map .string)) ::
    (harness.nativeTest.map (fun test => ("translation", test.toJson))).toList)

end Harness

namespace Document

def resultsName : String := "results"

def countName : String := "linearizations"

/-- The document with results and count; members of those names keep their place. -/
def annotate (document : Members Json) (results : Json) (count : Nat) : Members Json :=
  Members.set (Members.set document resultsName results) countName (.natural count)

end Document

end Interleave

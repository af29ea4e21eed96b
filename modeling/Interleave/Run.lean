import Interleave.Harness
import Interleave.Json.Reader
import Interleave.Stream.Reader
import Interleave.Text.Blank

set_option autoImplicit false

/-! Runs over a stream of scenario documents. Documents are taken one at a time and in order;
each becomes one frame of output, written in full and then flushed, or stops the run. -/

namespace Interleave

inductive ErrorPolicy where
  | abort
  | skip
  deriving DecidableEq

namespace ErrorPolicy

def name : ErrorPolicy → String
  | .abort => "abort"
  | .skip => "skip"

/-- Reads a policy with blanks around it and in any mixture of ASCII case; an unknown one is
given back trimmed and in lower case. -/
def ofText (text : String) : Except String ErrorPolicy :=
  match Blank.trim text |>.map Char.toLower with
  | "abort" => .ok .abort
  | "skip" => .ok .skip
  | other => .error other

def unknownMessage (name : String) : String :=
  "unknown error policy '" ++ name ++ "' (expected 'abort' or 'skip')"

end ErrorPolicy

inductive DocumentError where
  | malformed (cause : SyntaxError)
  | harness (cause : HarnessError)

/-- Why a run stops. Documents are counted from one. -/
inductive RunError where
  | readFailed
  | flushFailed
  | document (ordinal : Nat) (cause : DocumentError)

namespace RunError

def message : RunError → String
  | .readFailed => "I/O error on document stream: read failed"
  | .flushFailed => "I/O error on document stream: flush failed"
  | .document ordinal (.malformed cause) =>
      "document " ++ toString ordinal ++ ": malformed JSON object: " ++ cause.message
  | .document ordinal (.harness cause) =>
      "document " ++ toString ordinal ++ ": harness construction failed: " ++ cause.message

def ordinal? : RunError → Option Nat
  | .document ordinal _ => some ordinal
  | _ => none

end RunError

/-- Documents written, error records included, and those that failed. -/
structure Summary where
  emitted : Nat
  failed : Nat
  deriving DecidableEq

def Summary.isSuccess (summary : Summary) : Bool := summary.failed == 0

structure RunResult where
  output : String
  result : Except RunError Summary

namespace Run

def process (settings : Settings) (raw : List UInt8) : Except DocumentError String :=
  match Json.parseObject raw with
  | .error cause => .error (.malformed cause)
  | .ok document =>
      match Harness.build document settings with
      | .error cause => .error (.harness cause)
      | .ok harness =>
          .ok (Json.compact (.object
            (Document.annotate document harness.results harness.linearizations.length)))

def errorRecord (error : RunError) (ordinal : Nat) : String :=
  Json.compact (.object [("error", .string error.message), ("document", .natural ordinal)])

def flushFails (failing : Option Nat) (frames : Nat) : Bool := failing == some frames

def loop (settings : Settings) (policy : ErrorPolicy) (failing : Option Nat)
    (readFails : Bool) : (output : String) → Summary → List (List UInt8) → RunResult
  | output, summary, [] =>
      { output, result := if readFails then .error .readFailed else .ok summary }
  | output, summary, raw :: documents =>
      let ordinal := summary.emitted + 1
      let emit (text : String) (failed : Nat) : RunResult :=
        if flushFails failing ordinal then
          { output := output ++ Frame.ofText text, result := .error .flushFailed }
        else
          loop settings policy failing readFails (output ++ Frame.ofText text)
            { emitted := ordinal, failed := summary.failed + failed } documents
      match process settings raw with
      | .ok text => emit text 0
      | .error cause =>
          match policy with
          | .skip => emit (errorRecord (.document ordinal cause) ordinal) 1
          | .abort => { output, result := .error (.document ordinal cause) }

end Run

/-- Runs over all documents of a source; `failing` is the flush that fails, counted from one. -/
def run (settings : Settings) (policy : ErrorPolicy) (failing : Option Nat) (source : Source) :
    RunResult :=
  let reading := DocumentReader.readAll source
  Run.loop settings policy failing reading.failed "" ⟨0, 0⟩ reading.documents

end Interleave

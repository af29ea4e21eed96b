import Interleave.ClassSpec
import Interleave.Scenario.Wire
import Interleave.Stream.Frame

set_option autoImplicit false

/-! Small scenarios of a class. One method is under test and stands in every scenario; trusted
methods fill the other slots. All order shapes, distributions of slots over threads, methods
and argument values are run through, each scenario once. -/

namespace Interleave

structure EnumerationRequest where
  method : String
  threads : Nat
  /-- Calls in each scenario; with fewer than threads there is none. -/
  calls : Nat
  values : Nat

inductive EnumerationError where
  | malformed (cause : SyntaxError)
  | unknownMethod (method : String)
  | unsupportedThreadCount (count : Nat)
  | unsupportedType (method type : String)

def EnumerationError.message : EnumerationError → String
  | .malformed cause => "class specification is malformed: " ++ cause.message
  | .unknownMethod method =>
      "method '" ++ method ++ "' is not declared by the class specification"
  | .unsupportedThreadCount count =>
      "cannot enumerate scenarios with " ++ toString count ++ " sequences (expected 2 or 3)"
  | .unsupportedType method type =>
      "method '" ++ method ++ "' takes a parameter of unsupported type '" ++ type ++ "'"

namespace Enumeration

def readSpec (text : List UInt8) : Except EnumerationError ClassSpec :=
  (ClassSpec.parse text).mapError .malformed

def orderShapes : (threads : Nat) → Except EnumerationError (List (List (Nat × Nat)))
  | 2 => .ok [[]]
  | 3 => .ok [[], [(0, 1), (0, 2)], [(0, 2), (1, 2)], [(0, 1), (1, 2)]]
  | count => .error (.unsupportedThreadCount count)

/-! ### Slots -/

/-- The slots of each thread so far, and the distributions found, latest first. -/
structure Placing where
  counts : List Nat
  found : List (List Nat)

namespace Placing

def raise (placing : Placing) (thread : Nat) : Placing :=
  { placing with counts := placing.counts.modify thread (· + 1) }

def lower (placing : Placing) (thread : Nat) : Placing :=
  { placing with counts := placing.counts.modify thread (· - 1) }

def keep (placing : Placing) : Placing :=
  { placing with found := placing.counts :: placing.found }

/-- Places the slots that are left, none of them in a thread before `first`, and takes each back
again. -/
def place : (left first : Nat) → Placing → Placing
  | 0, _, placing => placing.keep
  | left + 1, first, placing =>
      (List.range' first (placing.counts.length - first)).foldl
        (fun placing thread => (place left thread (placing.raise thread)).lower thread) placing

end Placing

def slotShapes (threads extra : Nat) : List (List Nat) :=
  (Placing.place extra 0 ⟨List.replicate threads 1, []⟩).found.reverse

/-! ### Choices -/

/-- All ways to take one element of each list, the leftmost varying slowest. -/
def product {α : Type} (choices : List (List α)) : List (List α) :=
  choices.foldl (fun chosen options =>
    chosen.flatMap (fun before => options.map (fun option => before ++ [option]))) [[]]

/-- The fillings of the other slots when the target takes one: methods of its name stand only
after it. -/
def fillings (trusted : List MethodSpec) (target : MethodSpec) (calls slot : Nat) :
    List (List MethodSpec) :=
  let others := trusted.filter (fun method => method.name != target.name)
  product ((List.range (calls - 1)).map (fun place => if place < slot then others else trusted))

def methodChoices (trusted : List MethodSpec) (target : MethodSpec) (calls : Nat) :
    List (List MethodSpec) :=
  (List.range calls).flatMap (fun slot =>
    (fillings trusted target calls slot).map (fun filling => filling.insertIdx slot target))

def valuesOf (method : MethodSpec) (values : Nat) (type : String) :
    Except EnumerationError (List Json) :=
  if type = "int" then .ok ((List.range values).map .natural)
  else .error (.unsupportedType method.name type)

def argumentChoices (methods : List MethodSpec) (values : Nat) :
    Except EnumerationError (List (List Json)) := do
  return (← methods.mapM (fun method => method.parameters.mapM (valuesOf method values))).flatten

/-! ### Scenarios -/

def callsOf (index : Nat) : List MethodSpec → List Json → List Call
  | [], _ => []
  | method :: methods, values =>
      let count := method.parameters.length
      ⟨method.name, values.take count, method.isVoid, some index⟩ ::
        callsOf index methods (values.drop count)

def threadsOf : (index : Nat) → (shape : List Nat) → List MethodSpec → List Json → List Thread
  | _, [], _, _ => []
  | index, slots :: shape, methods, values =>
      let chosen := methods.take slots
      let count := (chosen.flatMap MethodSpec.parameters).length
      ⟨index, callsOf index chosen values⟩ ::
        threadsOf (index + 1) shape (methods.drop slots) (values.drop count)

def withArguments (className : String) (order : List (Nat × Nat)) (shape : List Nat)
    (values : Nat) (methods : List MethodSpec) : Except EnumerationError (List Scenario) := do
  let choices ← argumentChoices methods values
  return (product choices).map (fun arguments =>
    { Scenario.empty with
      className := some className
      threads := threadsOf 0 shape methods arguments
      order })

def identified (scenarios : List Scenario) : List Scenario :=
  scenarios.zipIdx.map (fun entry => { entry.1 with id := some entry.2 })

end Enumeration

def ClassSpec.enumerate (spec : ClassSpec) (request : EnumerationRequest) :
    Except EnumerationError (List Scenario) :=
  match spec.method? request.method with
  | none => .error (.unknownMethod request.method)
  | some target => do
      let orders ← Enumeration.orderShapes request.threads
      if request.calls < request.threads then return []
      let shapes := Enumeration.slotShapes request.threads (request.calls - request.threads)
      let choices := Enumeration.methodChoices spec.trusted target request.calls
      let scenarios ← orders.mapM (fun order =>
        shapes.mapM (fun shape =>
          choices.mapM (Enumeration.withArguments spec.name order shape request.values)))
      return Enumeration.identified scenarios.flatten.flatten.flatten

/-! ### Output -/

structure Written where
  output : String
  count : Option Nat

namespace Written

def flushFailedMessage : String := "I/O error writing scenarios: flush failed"

def loop (failing : Option Nat) : (output : String) → (count : Nat) → List Scenario → Written
  | output, count, [] => ⟨output, some count⟩
  | output, count, scenario :: scenarios =>
      let output := output ++ Frame.ofText (Json.indented scenario.toJson)
      if failing = some (count + 1) then ⟨output, none⟩
      else loop failing output (count + 1) scenarios

/-- Writes each scenario as one frame and flushes; `failing` is the flush that fails, counted
from one. -/
def ofScenarios (failing : Option Nat) (scenarios : List Scenario) : Written :=
  loop failing "" 0 scenarios

end Written

end Interleave

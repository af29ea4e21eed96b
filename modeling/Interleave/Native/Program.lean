import Interleave.Native.Literal
import Interleave.Scenario.Order

set_option autoImplicit false

/-! Native test programs as data. Every thread of a scenario becomes a function; a thread that
the order singles out as initial or final is called by the main function before or after all
others, which run on threads of their own. A call outside the initial thread that has a result
is recorded in the slot of its position among all calls. -/

namespace Interleave

inductive Placement where
  | initial
  | concurrent
  | final
  deriving DecidableEq

/-- A call in a thread function, its expression, and the slot that records its result. -/
structure Statement where
  call : Call
  expression : String
  slot : Option Nat

structure ThreadFunction where
  position : Nat
  statements : List Statement

inductive Action where
  | setUp (expression : String)
  | declare (position : Nat)
  | runInitial (position : Nat)
  | startThreads
  | create (position : Nat)
  | waitForThreads
  | join (position : Nat)
  | runFinal (position : Nat)
  | check

structure Program where
  sharedObject : Option (String × String)
  slots : List Nat
  functions : List ThreadFunction
  main : List Action
  /-- Each accepted outcome as the values of the slots. -/
  accepted : List (List (Nat × String))

namespace Scenario

/-! ### Legality and layout -/

def placement (scenario : Scenario) (index : Nat) : Placement :=
  if scenario.initial? = some index then .initial
  else if scenario.final? = some index then .final
  else .concurrent

/-- A thread that is neither initial nor final follows at most the initial one and precedes at
most the final one. -/
def isLegal (scenario : Scenario) (index : Nat) : Bool :=
  scenario.placement index != .concurrent ||
    ((scenario.order.filter (fun pair => pair.2 == index)).all
      (fun pair => some pair.1 == scenario.initial?) &&
    (scenario.order.filter (fun pair => pair.1 == index)).all
      (fun pair => some pair.2 == scenario.final?))

def illegal? (scenario : Scenario) : Option Nat :=
  (scenario.threads.map Thread.index).find? (fun index => !scenario.isLegal index)

def records (scenario : Scenario) (thread : Thread) (call : Call) : Bool :=
  scenario.placement thread.index != .initial && call.hasResult

/-- Every call of the threads with its position among all calls, counted from `start`. -/
def numbered : (start : Nat) → List Thread → List (Thread × List (Call × Nat))
  | _, [] => []
  | start, thread :: threads =>
      (thread, thread.calls.zipIdx start) :: numbered (start + thread.calls.length) threads

def resultSlots (scenario : Scenario) : List Nat :=
  (numbered 0 scenario.threads).flatMap (fun entry =>
    (entry.2.filter (fun call => scenario.records entry.1 call.1)).map Prod.snd)

def checkOutcomes (scenario : Scenario) : Except NativeError Unit :=
  match scenario.outcomes.zipIdx.find? (fun entry => entry.1.length != scenario.callCount) with
  | some (values, outcome) =>
      .error (.outcomeArity outcome scenario.callCount values.length)
  | none => .ok ()

def checkNative (scenario : Scenario) : Except NativeError Unit :=
  if scenario.targetLanguage = .cpp ∧ scenario.objectName.isNone then
    .error (.missingObject .cpp)
  else if scenario.objectName.isSome ∧ scenario.className.isNone then .error .missingClass
  else match scenario.illegal? with
    | some index => .error (.illegalOrder index)
    | none => scenario.checkOutcomes

/-! ### Parts of the program -/

def callExpression (scenario : Scenario) (method : String) (arguments : List String) : String :=
  let arguments := ", ".intercalate arguments
  match scenario.targetLanguage, scenario.objectName with
  | .cpp, some object => object ++ "." ++ method ++ "(" ++ arguments ++ ")"
  | _, some object =>
      if arguments.isEmpty then method ++ "(" ++ object ++ ")"
      else method ++ "(" ++ object ++ ", " ++ arguments ++ ")"
  | _, none => method ++ "(" ++ arguments ++ ")"

def statement (scenario : Scenario) (thread : Thread) (entry : Call × Nat) :
    Except NativeError Statement := do
  let arguments ← Literal.ofItems scenario.targetLanguage entry.1.arguments
  return { call := entry.1
           expression := scenario.callExpression entry.1.method arguments
           slot := if scenario.records thread entry.1 then some entry.2 else none }

def threadFunction (scenario : Scenario) (entry : (Thread × List (Call × Nat)) × Nat) :
    Except NativeError ThreadFunction := do
  let statements ← entry.1.2.mapM (scenario.statement entry.1.1)
  return { position := entry.2, statements }

def threadFunctions (scenario : Scenario) : Except NativeError (List ThreadFunction) :=
  (numbered 0 scenario.threads).zipIdx.mapM scenario.threadFunction

def setupExpression? (scenario : Scenario) : Except NativeError (Option String) :=
  match scenario.setup with
  | none => .ok none
  | some method => do
      let parameters ←
        scenario.setupParameters.mapM (Literal.ofParameter scenario.targetLanguage)
      return some (scenario.callExpression method parameters)

def positionsOf (scenario : Scenario) (placement : Placement) : List Nat :=
  (scenario.threads.zipIdx.filter
    (fun entry => scenario.placement entry.1.index == placement)).map Prod.snd

def mainActions (scenario : Scenario) (setup : Option String) : List Action :=
  let concurrent := scenario.positionsOf .concurrent
  (setup.map Action.setUp).toList ++
  concurrent.map .declare ++
  (scenario.positionsOf .initial).map .runInitial ++
  .startThreads :: concurrent.map .create ++
  .waitForThreads :: concurrent.map .join ++
  (scenario.positionsOf .final).map .runFinal ++
  [.check]

def acceptedOutcomes (scenario : Scenario) : List (List (Nat × String)) :=
  scenario.outcomes.map (fun outcome =>
    scenario.resultSlots.filterMap (fun slot =>
      outcome[slot]?.map (fun value => (slot, Literal.ofOutcome value))))

def sharedObject (scenario : Scenario) : Option (String × String) := do
  return (← scenario.className, ← scenario.objectName)

def program (scenario : Scenario) : Except NativeError Program := do
  scenario.checkNative
  let functions ← scenario.threadFunctions
  let setup ← scenario.setupExpression?
  return { sharedObject := scenario.sharedObject
           slots := scenario.resultSlots
           functions
           main := scenario.mainActions setup
           accepted := scenario.acceptedOutcomes }

end Scenario

end Interleave

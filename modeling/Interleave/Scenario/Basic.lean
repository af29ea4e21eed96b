import Interleave.Call

set_option autoImplicit false

/-! Scenarios: the calls of each thread in program order, and an order between whole threads. -/

namespace Interleave

inductive Language where
  | c
  | cpp
  deriving DecidableEq

def Language.name : Language → String
  | .c => "c"
  | .cpp => "cpp"

structure Thread where
  index : Nat
  calls : List Call

structure Scenario where
  className : Option String
  id : Option Nat
  threads : List Thread
  /-- In a pair `(a, b)` all calls of thread `a` come before all calls of thread `b`. -/
  order : List (Nat × Nat)
  language : Option Language
  objectName : Option String
  setup : Option String
  setupParameters : List Json
  /-- Accepted outcomes, each with a value for every call, thread after thread. -/
  outcomes : List (List Json)

namespace Scenario

def empty : Scenario := ⟨none, none, [], [], none, none, none, [], []⟩

def callCount (scenario : Scenario) : Nat :=
  (scenario.threads.flatMap Thread.calls).length

def targetLanguage (scenario : Scenario) : Language := scenario.language.getD .c

def tagged (scenario : Scenario) : Scenario :=
  { scenario with
    threads := scenario.threads.map (fun thread =>
      { thread with calls := thread.calls.map (fun call => call.onThread thread.index) }) }

def positionOf? (scenario : Scenario) (index : Nat) : Option Nat :=
  scenario.threads.findIdx? (fun thread => thread.index == index)

end Scenario

end Interleave

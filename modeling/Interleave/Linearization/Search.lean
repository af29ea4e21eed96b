import Interleave.CallSequence
import Interleave.Scenario.Order

set_option autoImplicit false

/-! The linearizations of a scenario: the orders of all its calls that keep the program order of
each thread and start a thread only after every thread ordered before it has finished. A
depth-first walk finds them; it advances one thread at a time, tries threads in the order of
their declaration, and takes its last step back where no thread can advance. -/

namespace Interleave

structure Plan where
  bodies : Array (Array Call)
  predecessors : Array (List Nat)

def Plan.ofScenario (scenario : Scenario) : Plan :=
  { bodies := (scenario.threads.map (fun thread => thread.calls.toArray)).toArray
    predecessors := scenario.predecessors }

inductive LinearizationError where
  | tooMany (limit : Nat)
  deriving DecidableEq

def LinearizationError.message : LinearizationError → String
  | .tooMany limit =>
      "scenario has more than " ++ toString limit ++ " linearizations"

/-- Where the walk stands. The path and the choices are kept latest first. -/
structure Search where
  cursors : Array Nat
  path : List Call
  choices : List Nat
  resume : Nat
  fresh : Bool
  found : Array (CallSequence Call)

namespace Search

-- Powers of naturals are the core ones, whatever else a module imports.
attribute [local instance (high)] instPowNat

def start (plan : Plan) : Search :=
  { cursors := Array.replicate plan.bodies.size 0
    path := []
    choices := []
    resume := 0
    fresh := true
    found := #[] }

def body (plan : Plan) (position : Nat) : Array Call := plan.bodies.getD position #[]

def cursor (search : Search) (position : Nat) : Nat := search.cursors.getD position 0

def finished (plan : Plan) (search : Search) (position : Nat) : Bool :=
  search.cursor position == (body plan position).size

def enabled? (plan : Plan) (search : Search) (position : Nat) : Option Call :=
  match (body plan position)[search.cursor position]? with
  | none => none
  | some call =>
      if (plan.predecessors.getD position []).all (finished plan search) then some call else none

def next? (plan : Plan) (search : Search) : Option (Nat × Call) :=
  (List.range' search.resume (plan.bodies.size - search.resume)).findSome?
    (fun position => (enabled? plan search position).map (fun call => (position, call)))

def advance (search : Search) (position : Nat) (call : Call) : Search :=
  { search with
    cursors := search.cursors.modify position (· + 1)
    path := call :: search.path
    choices := position :: search.choices
    resume := 0
    fresh := true }

def retreat? (search : Search) : Option Search :=
  match search.choices with
  | [] => none
  | position :: choices =>
      some { search with
        cursors := search.cursors.modify position (· - 1)
        path := search.path.tail
        choices
        resume := position + 1
        fresh := false }

def record (search : Search) : Search :=
  { search with found := search.found.push (CallSequence.ofList search.path.reverse) }

inductive Progress where
  | going (search : Search)
  | done (found : Array (CallSequence Call))
  | stopped (error : LinearizationError)

/-- One step: forward where a position may advance, else back, keeping the path first if the
walk had just come here. -/
def step (plan : Plan) (limit : Nat) (search : Search) : Progress :=
  match search.next? plan with
  | some (position, call) => .going (search.advance position call)
  | none =>
      if search.fresh && limit ≤ search.found.size then .stopped (.tooMany limit)
      else
        let search := if search.fresh then search.record else search
        match search.retreat? with
        | some search => .going search
        | none => .done search.found

/-- Every step moves on in the lexicographic order of words that have one digit more than there
are calls, each digit below twice the number of positions and two. -/
def stepBound (plan : Plan) : Nat :=
  (2 * plan.bodies.size + 2) ^ (plan.bodies.flatten.size + 1)

def run (plan : Plan) (limit : Nat) :
    (steps : Nat) → Search → Except LinearizationError (Array (CallSequence Call))
  | 0, search => .ok search.found
  | steps + 1, search =>
      match search.step plan limit with
      | .going search => run plan limit steps search
      | .done found => .ok found
      | .stopped error => .error error

end Search

/-- All linearizations in the order of the walk, unless there are more than `limit`. -/
def Scenario.linearizations (scenario : Scenario) (limit : Nat) :
    Except LinearizationError (List (CallSequence Call)) :=
  let plan := Plan.ofScenario scenario
  (Search.run plan limit (Search.stepBound plan) (Search.start plan)).map Array.toList

end Interleave

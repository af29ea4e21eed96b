import Interleave.Scenario.Basic

set_option autoImplicit false

/-! The order between threads: its tables over positions, its least and greatest thread, and
what makes a scenario valid. Cycles are found by taking away threads whose predecessors are
all gone until none is ready. -/

namespace Interleave

inductive ScenarioError where
  | mismatch (cause : Mismatch)
  | duplicateThread (index : Nat)
  | unknownThread (before after missing : Nat)
  | cyclicOrder (index : Nat)

def ScenarioError.message : ScenarioError → String
  | .mismatch cause => "scenario does not match the harness schema: " ++ cause.message
  | .duplicateThread index =>
      "sequence index " ++ toString index ++ " is declared more than once"
  | .unknownThread before after missing =>
      "order pair [" ++ toString before ++ ", " ++ toString after ++
        "] names undeclared sequence " ++ toString missing
  | .cyclicOrder index =>
      "order relation is cyclic (sequence " ++ toString index ++ " must run before itself)"

namespace Scenario

/-! ### Tables -/

def lastPosition? (scenario : Scenario) (index : Nat) : Option Nat :=
  scenario.threads.zipIdx.foldl
    (fun found entry => if entry.1.index = index then some entry.2 else found) none

/-- The pairs of the order by position; a pair with an undeclared end is left out. -/
def positionPairs (scenario : Scenario) : List (Nat × Nat) :=
  scenario.order.filterMap (fun pair => do
    return (← scenario.lastPosition? pair.1, ← scenario.lastPosition? pair.2))

def addDistinct (row : List Nat) (entry : Nat) : List Nat :=
  if row.contains entry then row else row ++ [entry]

/-- One row for each position; a pair adds its second part to the row of its first. -/
def table (size : Nat) (pairs : List (Nat × Nat)) : Array (List Nat) :=
  pairs.foldl (fun rows pair => rows.modify pair.1 (fun row => addDistinct row pair.2))
    (Array.replicate size [])

def predecessors (scenario : Scenario) : Array (List Nat) :=
  table scenario.threads.length (scenario.positionPairs.map Prod.swap)

def successors (scenario : Scenario) : Array (List Nat) :=
  table scenario.threads.length scenario.positionPairs

/-! ### Ends -/

def unique? : List Nat → Option Nat
  | [only] => some only
  | _ => none

/-- The only thread that follows none, when there is an order and only one such thread. -/
def initial? (scenario : Scenario) : Option Nat :=
  if scenario.order.isEmpty then none
  else unique? ((scenario.threads.map Thread.index).filter
    (fun index => scenario.order.all (fun pair => pair.2 != index)))

def final? (scenario : Scenario) : Option Nat :=
  if scenario.order.isEmpty then none
  else unique? ((scenario.threads.map Thread.index).filter
    (fun index => scenario.order.all (fun pair => pair.1 != index)))

/-! ### Taking threads away -/

/-- How many predecessors of each position are still there, the positions with none that are
still to be taken, and how many have been taken. -/
structure Sweep where
  waiting : Array Nat
  ready : List Nat
  taken : Nat

namespace Sweep

def release (sweep : Sweep) (position : Nat) : Sweep :=
  let left := sweep.waiting.getD position 0 - 1
  { sweep with
    waiting := sweep.waiting.setIfInBounds position left
    ready := if left = 0 then sweep.ready ++ [position] else sweep.ready }

def step? (successors : Array (List Nat)) (sweep : Sweep) : Option Sweep :=
  match sweep.ready with
  | [] => none
  | position :: ready =>
      some ((successors.getD position []).foldl release
        { sweep with ready, taken := sweep.taken + 1 })

def run (successors : Array (List Nat)) : (rounds : Nat) → Sweep → Sweep
  | 0, sweep => sweep
  | rounds + 1, sweep =>
      match sweep.step? successors with
      | none => sweep
      | some next => run successors rounds next

def start (successors : Array (List Nat)) : Sweep :=
  let waiting := successors.foldl
    (fun waiting row => row.foldl (fun waiting entry => waiting.modify entry (· + 1)) waiting)
    (Array.replicate successors.size 0)
  { waiting
    ready := (List.range successors.size).filter (fun position => waiting.getD position 0 == 0)
    taken := 0 }

/-- The state in which nothing more is ready. No position is ready twice, so as many rounds as
there are positions are enough. -/
def finish (successors : Array (List Nat)) : Sweep :=
  run successors successors.size (start successors)

end Sweep

/-! ### Validity -/

def repeated? (met : List Nat) : List Nat → Option Nat
  | [] => none
  | index :: rest => if met.contains index then some index else repeated? (index :: met) rest

def undeclared? (declared : List Nat) : List (Nat × Nat) → Option (Nat × Nat × Nat)
  | [] => none
  | (before, after) :: rest =>
      if !declared.contains before then some (before, after, before)
      else if !declared.contains after then some (before, after, after)
      else undeclared? declared rest

def checkAcyclic (scenario : Scenario) : Except ScenarioError Unit :=
  let sweep := Sweep.finish scenario.successors
  if sweep.taken = scenario.threads.length then .ok ()
  else
    let stuck := (List.range scenario.threads.length).find?
      (fun position => 0 < sweep.waiting.getD position 0)
    .error (.cyclicOrder
      ((stuck.bind (fun position => scenario.threads[position]?.map Thread.index)).getD 0))

def validate (scenario : Scenario) : Except ScenarioError Unit :=
  let declared := scenario.threads.map Thread.index
  match repeated? [] declared with
  | some index => .error (.duplicateThread index)
  | none =>
      match undeclared? declared scenario.order with
      | some (before, after, missing) => .error (.unknownThread before after missing)
      | none => scenario.checkAcyclic

end Scenario

end Interleave

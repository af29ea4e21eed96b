import Interleave.Json.Printer

set_option autoImplicit false

/-! Immutable sequences of calls. The calls lie in an array that several sequences may share,
each seeing it from its own start; what a sequence is, its list of calls tells alone. -/

namespace Interleave

structure CallSequence (α : Type) where
  items : Array α
  start : Nat

inductive Decomposition where
  | head
  | tail
  deriving DecidableEq

inductive SequenceError where
  | empty (operation : Decomposition)
  deriving DecidableEq

def SequenceError.message : SequenceError → String
  | .empty .head => "head() called on an empty invocation sequence"
  | .empty .tail => "tail() called on an empty invocation sequence"

namespace CallSequence

variable {α : Type}

def empty : CallSequence α := ⟨#[], 0⟩

def ofArray (items : Array α) : CallSequence α := ⟨items, 0⟩

def ofList (items : List α) : CallSequence α := ofArray items.toArray

def toList (sequence : CallSequence α) : List α := sequence.items.toList.drop sequence.start

def size (sequence : CallSequence α) : Nat := sequence.items.size - sequence.start

def isEmpty (sequence : CallSequence α) : Bool := sequence.size == 0

def head (sequence : CallSequence α) : Except SequenceError α :=
  match sequence.items[sequence.start]? with
  | some item => .ok item
  | none => .error (.empty .head)

/-- All calls but the first, in the same array. -/
def tail (sequence : CallSequence α) : Except SequenceError (CallSequence α) :=
  if sequence.isEmpty then .error (.empty .tail)
  else .ok { sequence with start := sequence.start + 1 }

/-- One more call at the end, in an array of its own. -/
def snoc (sequence : CallSequence α) (item : α) : CallSequence α :=
  ofArray ((sequence.items.extract sequence.start sequence.items.size).push item)

def rotate (sequence : CallSequence α) : Except SequenceError (CallSequence α) := do
  let rest ← sequence.tail
  let first ← sequence.head
  return rest.snoc first

def separator : String := "; "

def render (text : α → String) (sequence : CallSequence α) : String :=
  separator.intercalate (sequence.toList.map text)

def toJson (encode : α → Json) (sequence : CallSequence α) : Json :=
  .array (sequence.toList.map encode)

def sameValue (same : α → α → Bool) (left right : CallSequence α) : Bool :=
  left.size == right.size && (left.toList.zip right.toList).all (fun pair => same pair.1 pair.2)

/-! ### Registers -/

/-- A way to make one more sequence, possibly from those made before, which are numbered in the
order of their making. -/
inductive Step (α : Type) where
  | empty
  | ofList (items : List α)
  | tail (register : Nat)
  | clone (register : Nat)
  | snoc (register : Nat) (item : α)
  | rotate (register : Nat)

abbrev Registers (α : Type) := Array (CallSequence α)

/-- The sequence a step makes; `none` when it names a register that is not there. -/
def Step.result? (registers : Registers α) :
    Step α → Option (Except SequenceError (CallSequence α))
  | .empty => some (.ok CallSequence.empty)
  | .ofList items => some (.ok (CallSequence.ofList items))
  | .tail register => registers[register]?.map CallSequence.tail
  | .clone register => registers[register]?.map .ok
  | .snoc register item => registers[register]?.map (fun sequence => .ok (sequence.snoc item))
  | .rotate register => registers[register]?.map CallSequence.rotate

def Step.run (registers : Registers α) (step : Step α) : Registers α :=
  match step.result? registers with
  | some (.ok sequence) => registers.push sequence
  | _ => registers

end CallSequence

end Interleave

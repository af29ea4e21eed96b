import Interleave.Json.Fault

set_option autoImplicit false

/-! Decoders for the parts of JSON values that have been read already. A decoder names what it
found and what it wanted, without a place. -/

namespace Interleave.Decode

variable {α : Type}

def refuse (found : Json) (wanted : Wanted) : Except Mismatch α :=
  .error (.wrongType (.ofJson found) wanted)

def string : Json → Except Mismatch String
  | .string value => .ok value
  | other => refuse other .string

def boolean : Json → Except Mismatch Bool
  | .bool value => .ok value
  | other => refuse other .boolean

def natural (type : String) : Json → Except Mismatch Nat
  | .number (.whole (.ofNat value)) => .ok value
  | .number (.whole value) => .error (.wrongValue (.number (.whole value)) (.natural type))
  | other => refuse other (.natural type)

def array : Json → Except Mismatch (List Json)
  | .array items => .ok items
  | other => refuse other .array

/-- Null stands for nothing. -/
def optional (decode : Json → Except Mismatch α) : Json → Except Mismatch (Option α)
  | .null => .ok none
  | value => (decode value).map some

def list (decode : Json → Except Mismatch α) (value : Json) : Except Mismatch (List α) := do
  (← array value).mapM decode

/-- A place in the array form of a record, or its default where the array has ended. -/
def place (places : List Json) (position : Nat) (default : α)
    (decode : Json → Except Mismatch α) : Except Mismatch α :=
  match places[position]? with
  | some value => decode value
  | none => .ok default

def noMoreThan (count : Nat) (places : List Json) : Except Mismatch Unit :=
  if count < places.length then .error (.tooLong places.length) else .ok ()

end Interleave.Decode

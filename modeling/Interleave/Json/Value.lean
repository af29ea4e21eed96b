import Interleave.Decimal.Binary64

set_option autoImplicit false

/-! JSON values. Objects keep the order in which their members were first given; numbers are
whole or binary64, and a whole number never equals a binary64 one. -/

namespace Interleave

inductive Number where
  | whole (value : Int)
  | real (value : Binary64)
  deriving DecidableEq

inductive Json where
  | null
  | bool (value : Bool)
  | number (value : Number)
  | string (value : String)
  | array (items : List Json)
  | object (members : List (String × Json))

abbrev Members (α : Type) := List (String × α)

namespace Members

variable {α : Type}

def find? (members : Members α) (name : String) : Option α :=
  match members with
  | [] => none
  | (key, value) :: rest => if key = name then some value else find? rest name

/-- A name that is present keeps its place and takes the new value; a new name goes last. -/
def set (members : Members α) (name : String) (value : α) : Members α :=
  match members with
  | [] => [(name, value)]
  | (key, old) :: rest =>
      if key = name then (key, value) :: rest else (key, old) :: set rest name value

def names (members : Members α) : List String := members.map Prod.fst

end Members

namespace Number

def natural (value : Nat) : Number := .whole (.ofNat value)

def sameValue : Number → Number → Bool
  | .whole left, .whole right => left == right
  | .real left, .real right => left.sameValue right
  | _, _ => false

end Number

namespace Json

def natural (value : Nat) : Json := .number (.natural value)

mutual

/-- Equality of values: the order of an object's members and the sign of zero are immaterial. -/
def sameValue : Json → Json → Bool
  | .null, .null => true
  | .bool left, .bool right => left == right
  | .number left, .number right => left.sameValue right
  | .string left, .string right => left == right
  | .array left, .array right => sameItems left right
  | .object left, .object right => left.length == right.length && sameMembers left right
  | _, _ => false

def sameItems : List Json → List Json → Bool
  | [], [] => true
  | left :: lefts, right :: rights => sameValue left right && sameItems lefts rights
  | _, _ => false

def sameMembers : Members Json → Members Json → Bool
  | [], _ => true
  | (name, left) :: lefts, rights =>
      (match Members.find? rights name with
        | some right => sameValue left right
        | none => false) && sameMembers lefts rights

end

end Json

end Interleave

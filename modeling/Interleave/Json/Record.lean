import Interleave.Json.Skip

set_option autoImplicit false

/-! Typed reading: strings, flags, arrays and records straight from a text, without a JSON value
in between. A value of the wrong type is complained about where it stands. A record is an object,
in which unknown fields are passed over, or an array of its places. -/

namespace Interleave.Reader

open Token

def firstByte (bytes : List UInt8) : Read UInt8 :=
  match dropBlank bytes with
  | [] => .error (.before .endOfValue [])
  | byte :: rest => .ok (byte, rest)

def text (bytes : List UInt8) : Read String :=
  match firstByte bytes with
  | .error stop => .error stop
  | .ok (byte, rest) =>
      if byte = 0x22 then string rest else .error (unwanted .string byte rest)

def flag (bytes : List UInt8) : Read Bool :=
  match firstByte bytes with
  | .error stop => .error stop
  | .ok (byte, rest) =>
      match scalar byte rest with
      | .ok (.bool value, rest) => .ok (value, rest)
      | .ok _ => .error (unwanted .boolean byte rest)
      | .error _ => .error (unwanted .boolean byte rest)

def list {α : Type} (item : List UInt8 → Read α) (size : Nat) (bytes : List UInt8) :
    Read (List α) :=
  match firstByte bytes with
  | .error stop => .error stop
  | .ok (byte, rest) =>
      if byte = 0x5b then items item size true [] rest
      else .error (unwanted .array byte rest)

/-- The complaint about a name that is given twice. It points after the blanks that follow the
name, and after a brace if that comes next. -/
def duplicate {α : Type} (name : String) (bytes : List UInt8) : Read α :=
  let rest := match dropBlank bytes with
    | 0x7d :: rest => rest
    | rest => rest
  .error (.after (.mismatch (.duplicateField name)) rest)

def fieldOnce {α β : Type} (name : String) (present : Bool) (reader : List UInt8 → Read β)
    (keep : β → α) (bytes : List UInt8) : Read α :=
  if present then duplicate name bytes
  else
    match colon bytes with
    | .error stop => .error stop
    | .ok bytes => (reader bytes).map (fun (value, rest) => (keep value, rest))

def unknownField {α : Type} (draft : α) (bytes : List UInt8) : Read α :=
  match colon bytes with
  | .error stop => .error stop
  | .ok bytes => (Skip.value bytes).map (fun rest => (draft, rest))

/-- A place of an array form after the first, or its default when the array has ended. The flag
tells whether the array is still open. -/
def nextPlace {α : Type} (default : α) (reader : List UInt8 → Read α) (bytes : List UInt8) :
    Read (α × Bool) :=
  match nextItem false bytes with
  | .error stop => .error stop
  | .ok (.close rest) => .ok ((default, false), rest)
  | .ok (.more bytes) => (reader bytes).map (fun (value, rest) => ((value, true), rest))

def placeIf {α : Type} (isOpen : Bool) (default : α) (reader : List UInt8 → Read α)
    (bytes : List UInt8) : Read (α × Bool) :=
  if isOpen then nextPlace default reader bytes else .ok ((default, false), bytes)

def endOfPlaces (bytes : List UInt8) : Except Stop (List UInt8) :=
  match dropBlank bytes with
  | [] => .error (.before .endOfArray [])
  | byte :: rest =>
      if byte = 0x5d then .ok rest
      else if byte = 0x2c then
        match dropBlank rest with
        | 0x5d :: others => .error (.before .trailingComma (0x5d :: others))
        | others => .error (.before .trailingCharacters others)
      else .error (.before .trailingCharacters (byte :: rest))

def endOfPlacesIf (isOpen : Bool) (bytes : List UInt8) : Except Stop (List UInt8) :=
  if isOpen then endOfPlaces bytes else .ok bytes

def record {α : Type} (wanted : Wanted) (ofPlaces ofFields : List UInt8 → Read α)
    (bytes : List UInt8) : Read α :=
  match firstByte bytes with
  | .error stop => .error stop
  | .ok (byte, rest) =>
      if byte = 0x5b then
        match nextItem true rest with
        | .error stop => .error stop
        | .ok (.close rest) => .error (.after (.mismatch (.tooShort 0 wanted)) rest)
        | .ok (.more bytes) => ofPlaces bytes
      else if byte = 0x7b then ofFields rest
      else .error (unwanted wanted byte rest)

end Interleave.Reader

import Interleave.Decimal.Shortest
import Interleave.Json.Value
import Interleave.Text.Hex

set_option autoImplicit false

/-! The text of JSON values: compact, without any space, and indented. Each writer extends
the text before it. -/

namespace Interleave

def Number.text : Number → String
  | .whole value => toString value
  | .real value => value.text

namespace Json

/-- Quotes, backslashes and the characters below U+0020 are escaped, all others stand for
themselves. -/
def escape (char : Char) : List Char :=
  if char = '"' then ['\\', '"']
  else if char = '\\' then ['\\', '\\']
  else if char = '\x08' then ['\\', 'b']
  else if char = '\x0c' then ['\\', 'f']
  else if char = '\n' then ['\\', 'n']
  else if char = '\r' then ['\\', 'r']
  else if char = '\t' then ['\\', 't']
  else if char.toNat < 32 then
    ['\\', 'u', '0', '0', Hex.digit (char.toNat / 16), Hex.digit (char.toNat % 16)]
  else [char]

def quoted (value : String) : String :=
  String.ofList ('"' :: value.toList.flatMap escape ++ ['"'])

mutual

/-- The compact text of a value after `before`. -/
def write (before : String) : Json → String
  | .null => before ++ "null"
  | .bool value => before ++ (if value then "true" else "false")
  | .number value => before ++ value.text
  | .string value => before ++ quoted value
  | .array [] => before ++ "[]"
  | .array (item :: items) => writeItems (write (before ++ "[") item) items
  | .object [] => before ++ "\x7b\x7d"
  | .object ((name, value) :: members) =>
      writeMembers (write (before ++ "\x7b" ++ quoted name ++ ":") value) members

def writeItems (before : String) : List Json → String
  | [] => before ++ "]"
  | item :: items => writeItems (write (before ++ ",") item) items

def writeMembers (before : String) : Members Json → String
  | [] => before ++ "\x7d"
  | (name, value) :: members =>
      writeMembers (write (before ++ "," ++ quoted name ++ ":") value) members

end

def compact (value : Json) : String := write "" value

def newline (level : Nat) : String := String.ofList ('\n' :: List.replicate (2 * level) ' ')

mutual

def writeIndented (level : Nat) (before : String) : Json → String
  | .null => before ++ "null"
  | .bool value => before ++ (if value then "true" else "false")
  | .number value => before ++ value.text
  | .string value => before ++ quoted value
  | .array [] => before ++ "[]"
  | .array (item :: items) =>
      indentedItems level
        (writeIndented (level + 1) (before ++ "[" ++ newline (level + 1)) item) items
  | .object [] => before ++ "\x7b\x7d"
  | .object ((name, value) :: members) =>
      indentedMembers level
        (writeIndented (level + 1)
          (before ++ "\x7b" ++ newline (level + 1) ++ quoted name ++ ": ") value) members

def indentedItems (level : Nat) (before : String) : List Json → String
  | [] => before ++ newline level ++ "]"
  | item :: items =>
      indentedItems level
        (writeIndented (level + 1) (before ++ "," ++ newline (level + 1)) item) items

def indentedMembers (level : Nat) (before : String) : Members Json → String
  | [] => before ++ newline level ++ "\x7d"
  | (name, value) :: members =>
      indentedMembers level
        (writeIndented (level + 1)
          (before ++ "," ++ newline (level + 1) ++ quoted name ++ ": ") value) members

end

def indented (value : Json) : String := writeIndented 0 "" value

end Json

end Interleave

import Interleave.Decimal.Shortest
import Interleave.Json.Value
import Interleave.Text.Shown

set_option autoImplicit false

/-! What can be wrong with a JSON text, or with a JSON value where another shape is wanted,
and the wording of each cause. -/

namespace Interleave

inductive Found where
  | null
  | bool (value : Bool)
  | number (value : Number)
  | string (value : String)
  | array
  | object

def Found.ofJson : Json → Found
  | .null => .null
  | .bool value => .bool value
  | .number value => .number value
  | .string value => .string value
  | .array _ => .array
  | .object _ => .object

def Found.text : Found → String
  | .null => "null"
  | .bool value => "boolean `" ++ (if value then "true" else "false") ++ "`"
  | .number (.whole value) => "integer `" ++ toString value ++ "`"
  | .number (.real value) => "floating point `" ++ value.text ++ "`"
  | .string value => "string " ++ Shown.ofString value
  | .array => "sequence"
  | .object => "map"

inductive Wanted where
  | string
  | boolean
  | array
  | object
  | nothing
  | natural (type : String)
  | pair
  /-- One of some names, alone or as the only name of an object. -/
  | choice
  | singleEntry
  /-- A record of this name whose array form has so many places. -/
  | record (name : String) (places : Nat)
  deriving DecidableEq

def Wanted.text : Wanted → String
  | .string => "a string"
  | .boolean => "a boolean"
  | .array => "a sequence"
  | .object => "a map"
  | .nothing => "unit"
  | .natural type => type
  | .pair => "a tuple of size 2"
  | .choice => "string or map"
  | .singleEntry => "map with a single key"
  | .record name _ => "struct " ++ name

def Wanted.fullText : Wanted → String
  | .record name places => "struct " ++ name ++ " with " ++ toString places ++ " elements"
  | wanted => wanted.text

inductive Mismatch where
  | wrongType (found : Found) (wanted : Wanted)
  | wrongValue (found : Found) (wanted : Wanted)
  | tooShort (length : Nat) (wanted : Wanted)
  | tooLong (length : Nat)
  | missingField (name : String)
  | duplicateField (name : String)
  | unknownChoice (name : String) (known : List String)

def Mismatch.message : Mismatch → String
  | .wrongType found wanted => "invalid type: " ++ found.text ++ ", expected " ++ wanted.text
  | .wrongValue found wanted => "invalid value: " ++ found.text ++ ", expected " ++ wanted.text
  | .tooShort length wanted =>
      "invalid length " ++ toString length ++ ", expected " ++ wanted.fullText
  | .tooLong length =>
      "invalid length " ++ toString length ++ ", expected fewer elements in array"
  | .missingField name => "missing field `" ++ name ++ "`"
  | .duplicateField name => "duplicate field `" ++ name ++ "`"
  | .unknownChoice name known =>
      "unknown variant `" ++ name ++ "`, expected one of " ++
        ", ".intercalate (known.map (fun name => "`" ++ name ++ "`"))

inductive Complaint where
  | endOfValue
  | endOfString
  | endOfArray
  | endOfObject
  | expectedValue
  | expectedWord
  | expectedColon
  | expectedArrayEnd
  | expectedObjectEnd
  | invalidNumber
  | numberOutOfRange
  | controlCharacter
  | invalidEscape
  | loneSurrogate
  | unfinishedSurrogate
  | invalidUnicode
  | trailingComma
  | trailingCharacters
  | nameNotString
  | tooDeep
  | mismatch (cause : Mismatch)

def Complaint.message : Complaint → String
  | .endOfValue => "EOF while parsing a value"
  | .endOfString => "EOF while parsing a string"
  | .endOfArray => "EOF while parsing a list"
  | .endOfObject => "EOF while parsing an object"
  | .expectedValue => "expected value"
  | .expectedWord => "expected ident"
  | .expectedColon => "expected `:`"
  | .expectedArrayEnd => "expected `,` or `]`"
  | .expectedObjectEnd => "expected `,` or `\x7d`"
  | .invalidNumber => "invalid number"
  | .numberOutOfRange => "number out of range"
  | .controlCharacter => "control character (\\u0000-\\u001F) found while parsing a string"
  | .invalidEscape => "invalid escape"
  | .loneSurrogate => "lone leading surrogate in hex escape"
  | .unfinishedSurrogate => "unexpected end of hex escape"
  | .invalidUnicode => "invalid unicode code point"
  | .trailingComma => "trailing comma"
  | .trailingCharacters => "trailing characters"
  | .nameNotString => "key must be a string"
  | .tooDeep => "recursion limit exceeded"
  | .mismatch cause => cause.message

/-- A complaint and the place it points at: a line from one, and the bytes on that line. -/
structure SyntaxError where
  complaint : Complaint
  line : Nat
  column : Nat

def SyntaxError.message (error : SyntaxError) : String :=
  error.complaint.message ++ " at line " ++ toString error.line ++
    " column " ++ toString error.column

end Interleave

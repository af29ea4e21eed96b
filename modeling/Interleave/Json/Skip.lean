import Interleave.Json.Reader

set_option autoImplicit false

/-! Passing over a value that nobody wants. Its syntax is checked, but neither the depth of its
nesting nor the range of its numbers nor the pairing of its surrogates. -/

namespace Interleave.Skip

open Token

inductive Bracket where
  | array
  | object

def Bracket.closing : Bracket → UInt8
  | .array => 0x5d
  | .object => 0x7d

def Bracket.atEnd : Bracket → Complaint
  | .array => .endOfArray
  | .object => .endOfObject

def Bracket.expected : Bracket → Complaint
  | .array => .expectedArrayEnd
  | .object => .expectedObjectEnd

/-! ### Numbers and strings -/

def digits (bytes : List UInt8) : List UInt8 := bytes.dropWhile isDigit

def exponentPart (bytes : List UInt8) : Except Stop (List UInt8) :=
  let bytes := match bytes with
    | 0x2b :: rest => rest
    | 0x2d :: rest => rest
    | _ => bytes
  match bytes with
  | [] => .error (.after .invalidNumber [])
  | first :: rest =>
      if isDigit first then .ok (digits rest) else .error (.after .invalidNumber rest)

def fractionPart (bytes : List UInt8) : Except Stop (List UInt8) :=
  match bytes with
  | [] => .error (.before .invalidNumber [])
  | first :: _ =>
      if isDigit first then
        match digits bytes with
        | 0x65 :: rest => exponentPart rest
        | 0x45 :: rest => exponentPart rest
        | rest => .ok rest
      else .error (.before .invalidNumber bytes)

def afterDigits : List UInt8 → Except Stop (List UInt8)
  | 0x2e :: rest => fractionPart rest
  | 0x65 :: rest => exponentPart rest
  | 0x45 :: rest => exponentPart rest
  | rest => .ok rest

def number : List UInt8 → Except Stop (List UInt8)
  | [] => .error (.after .invalidNumber [])
  | first :: rest =>
      if first = 0x30 then
        match rest with
        | [] => .ok []
        | second :: _ =>
            if isDigit second then .error (.before .invalidNumber rest) else afterDigits rest
      else if isDigit first then afterDigits (digits rest)
      else .error (.after .invalidNumber rest)

/-- A string after its opening quote. A control character is pointed at from before it. -/
def string : List UInt8 → Except Stop (List UInt8)
  | [] => .error (.after .endOfString [])
  | byte :: tail =>
      if byte = 0x22 then .ok tail
      else if byte = 0x5c then
        match tail with
        | [] => .error (.after .endOfString [])
        | letter :: tail =>
            if letter = 0x75 then
              match tail with
              | a :: b :: c :: d :: tail =>
                  match hexValue4? a b c d with
                  | some _ => string tail
                  | none => .error (.after .invalidEscape tail)
              | _ => .error (.after .endOfString [])
            else
              match shortEscape? letter with
              | some _ => string tail
              | none => .error (.after .invalidEscape tail)
      else if byte < 0x20 then .error (.after .controlCharacter (byte :: tail))
      else string tail

/-! ### Values -/

def scalar (byte : UInt8) (rest : List UInt8) : Except Stop (List UInt8) :=
  if byte = 0x6e then word [0x75, 0x6c, 0x6c] rest
  else if byte = 0x74 then word [0x72, 0x75, 0x65] rest
  else if byte = 0x66 then word [0x61, 0x6c, 0x73, 0x65] rest
  else if byte = 0x2d then number rest
  else if isDigit byte then number (byte :: rest)
  else if byte = 0x22 then string rest
  else .error (.before .expectedValue (byte :: rest))

def name (bracket : Bracket) (bytes : List UInt8) : Except Stop (List UInt8) :=
  match bracket with
  | .array => .ok bytes
  | .object =>
      match dropBlank bytes with
      | [] => .error (.before .endOfObject [])
      | byte :: rest =>
          if byte = 0x22 then
            match string rest with
            | .error stop => .error stop
            | .ok rest => Reader.colon rest
          else .error (.before .nameNotString (byte :: rest))

inductive Place where
  | value
  | opened
  | item

/-- Goes on with the innermost bracket first in `enclosing`, until none is left. At most two
rounds are spent on a byte. -/
def run : (rounds : Nat) → (enclosing : List Bracket) → Place → List UInt8 →
    Except Stop (List UInt8)
  | 0, _, _, bytes => .error (.before .endOfValue bytes)
  | rounds + 1, enclosing, .value, bytes =>
      match dropBlank bytes with
      | [] => .error (.before .endOfValue [])
      | byte :: rest =>
          if byte = 0x5b then run rounds (.array :: enclosing) .opened rest
          else if byte = 0x7b then run rounds (.object :: enclosing) .opened rest
          else match scalar byte rest with
            | .error stop => .error stop
            | .ok rest => run rounds enclosing .item rest
  | _ + 1, [], _, bytes => .ok bytes
  | rounds + 1, bracket :: enclosing, place, bytes =>
      match dropBlank bytes, place with
      | [], _ => .error (.before bracket.atEnd [])
      | byte :: rest, .opened =>
          if byte = bracket.closing then run rounds enclosing .item rest
          else match name bracket (byte :: rest) with
            | .error stop => .error stop
            | .ok bytes => run rounds (bracket :: enclosing) .value bytes
      | byte :: rest, _ =>
          if byte = 0x2c then
            match name bracket rest with
            | .error stop => .error stop
            | .ok bytes => run rounds (bracket :: enclosing) .value bytes
          else if byte = bracket.closing then run rounds enclosing .item rest
          else .error (.before bracket.expected (byte :: rest))

def value (bytes : List UInt8) : Except Stop (List UInt8) :=
  run (2 * bytes.length + 2) [] .value bytes

end Interleave.Skip

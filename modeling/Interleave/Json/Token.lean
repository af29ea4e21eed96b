import Interleave.Decimal.Binary64
import Interleave.Json.Fault
import Interleave.Text.Utf8

set_option autoImplicit false

/-! The words, numbers and strings of a JSON text, read from the front of a list of bytes. A
reader gives its value and the bytes after it, or stops with a complaint. -/

namespace Interleave

/-- A complaint, the bytes after the place it points at, and how many columns before that
place it really lies. -/
structure Stop where
  complaint : Complaint
  rest : List UInt8
  back : Nat

abbrev Read (α : Type) := Except Stop (α × List UInt8)

namespace Stop

/-- Points at the last byte consumed, with `rest` to come. -/
def after (complaint : Complaint) (rest : List UInt8) : Stop := ⟨complaint, rest, 0⟩

def before (complaint : Complaint) (bytes : List UInt8) : Stop := ⟨complaint, bytes.tail, 0⟩

end Stop

namespace Token

-- Powers of naturals are the core ones, whatever else a module imports.
attribute [local instance (high)] instPowNat

def isBlank (byte : UInt8) : Bool :=
  byte == 0x20 || byte == 0x0a || byte == 0x0d || byte == 0x09

def dropBlank (bytes : List UInt8) : List UInt8 := bytes.dropWhile isBlank

def isDigit (byte : UInt8) : Bool := 0x30 ≤ byte && byte ≤ 0x39

def digitValue (byte : UInt8) : Nat := byte.toNat - 48

def word : List UInt8 → List UInt8 → Except Stop (List UInt8)
  | [], bytes => .ok bytes
  | _ :: _, [] => .error (.after .endOfValue [])
  | letter :: letters, byte :: bytes =>
      if byte = letter then word letters bytes else .error (.after .expectedWord bytes)

/-! ### Numbers -/

/-- Appends digits to a number as long as it stays within `limit`; gives the number and the
digits that are left. -/
def absorb (limit : Nat) : Nat → List UInt8 → Nat × List UInt8
  | value, [] => (value, [])
  | value, digit :: digits =>
      let longer := value * 10 + digitValue digit
      if longer ≤ limit then absorb limit longer digits else (value, digit :: digits)

def largestSignificand : Nat := 2 ^ (64 : Nat) - 1

def largestExponent : Nat := 2 ^ (31 : Nat) - 1

def real (negative : Bool) (significand : Nat) (exponent : Int) (rest : List UInt8) :
    Read Number :=
  match Binary64.ofCode? negative (Magnitude.ofDecimal significand exponent) with
  | some value => .ok (.real value, rest)
  | none => .error (.after .numberOutOfRange rest)

def exponentPart (negative : Bool) (significand : Nat) (exponent : Int) (bytes : List UInt8) :
    Read Number :=
  let (below, bytes) := match bytes with
    | 0x2b :: rest => (false, rest)
    | 0x2d :: rest => (true, rest)
    | _ => (false, bytes)
  match bytes with
  | [] => .error (.after .endOfValue [])
  | first :: others =>
      if isDigit first then
        let rest := bytes.dropWhile isDigit
        match absorb largestExponent 0 (bytes.takeWhile isDigit) with
        | (value, []) =>
            real negative significand (if below then exponent - value else exponent + value) rest
        | (_, _ :: unread) =>
            if significand ≠ 0 ∧ below = false then
              .error (.after .numberOutOfRange (unread ++ rest))
            else real negative 0 0 rest
      else .error (.after .invalidNumber others)

/-- The number after its point. Digits that no longer fit the significand are dropped. -/
def fractionPart (negative : Bool) (significand : Nat) (exponent : Int) (bytes : List UInt8) :
    Read Number :=
  let digits := bytes.takeWhile isDigit
  let rest := bytes.dropWhile isDigit
  if digits.isEmpty then
    match rest with
    | [] => .error (.before .endOfValue [])
    | _ => .error (.before .invalidNumber rest)
  else
    let (significand, dropped) := absorb largestSignificand significand digits
    let exponent := exponent - (digits.length - dropped.length : Nat)
    match rest with
    | 0x65 :: rest => exponentPart negative significand exponent rest
    | 0x45 :: rest => exponentPart negative significand exponent rest
    | _ => real negative significand exponent rest

/-- A literal without point and exponent whose digits all fit. Negative zero, and what is below
the signed 64-bit range, has no whole number. -/
def wholeNumber (negative : Bool) (significand : Nat) (rest : List UInt8) : Read Number :=
  if negative then
    if significand = 0 ∨ 2 ^ (63 : Nat) < significand then real true significand 0 rest
    else .ok (.whole (-significand), rest)
  else .ok (.natural significand, rest)

def afterDigits (negative : Bool) (digits rest : List UInt8) : Read Number :=
  let (significand, dropped) := absorb largestSignificand 0 digits
  match rest with
  | 0x2e :: rest => fractionPart negative significand dropped.length rest
  | 0x65 :: rest => exponentPart negative significand dropped.length rest
  | 0x45 :: rest => exponentPart negative significand dropped.length rest
  | _ =>
      if dropped.isEmpty then wholeNumber negative significand rest
      else real negative significand dropped.length rest

def number (negative : Bool) : List UInt8 → Read Number
  | [] => .error (.after .endOfValue [])
  | first :: others =>
      if first = 0x30 then
        match others with
        | [] => afterDigits negative [first] []
        | second :: _ =>
            if isDigit second then .error (.before .invalidNumber others)
            else afterDigits negative [first] others
      else if isDigit first then
        afterDigits negative (first :: others.takeWhile isDigit) (others.dropWhile isDigit)
      else .error (.after .invalidNumber others)

/-! ### Strings -/

def hexValue? (byte : UInt8) : Option Nat :=
  if isDigit byte then some (digitValue byte)
  else if 0x61 ≤ byte && byte ≤ 0x66 then some (byte.toNat - 87)
  else if 0x41 ≤ byte && byte ≤ 0x46 then some (byte.toNat - 55)
  else none

def hexValue4? (a b c d : UInt8) : Option Nat := do
  return (← hexValue? a) * 4096 + (← hexValue? b) * 256 + (← hexValue? c) * 16 + (← hexValue? d)

def isHighSurrogate (unit : Nat) : Bool := 0xd800 ≤ unit && unit ≤ 0xdbff

def isLowSurrogate (unit : Nat) : Bool := 0xdc00 ≤ unit && unit ≤ 0xdfff

def joinSurrogates (high low : Nat) : Nat := (high - 0xd800) * 1024 + (low - 0xdc00) + 0x10000

def shortEscape? (letter : UInt8) : Option UInt8 :=
  if letter = 0x22 then some 0x22
  else if letter = 0x5c then some 0x5c
  else if letter = 0x2f then some 0x2f
  else if letter = 0x62 then some 0x08
  else if letter = 0x66 then some 0x0c
  else if letter = 0x6e then some 0x0a
  else if letter = 0x72 then some 0x0d
  else if letter = 0x74 then some 0x09
  else none

def pushPoint (point : Nat) (bytes : List UInt8) : List UInt8 :=
  (String.utf8EncodeChar (Char.ofNat point)).reverse ++ bytes

def stringBytes (done : List UInt8) : List UInt8 → Read (List UInt8)
  | [] => .error (.after .endOfString [])
  | byte :: tail =>
      if byte = 0x22 then .ok (done.reverse, tail)
      else if byte = 0x5c then
        match tail with
        | [] => .error (.after .endOfString [])
        | letter :: tail =>
            if letter = 0x75 then
              match tail with
              | a :: b :: c :: d :: tail =>
                  match hexValue4? a b c d with
                  | none => .error (.after .invalidEscape tail)
                  | some unit =>
                      if isLowSurrogate unit then .error (.after .loneSurrogate tail)
                      else if isHighSurrogate unit then
                        match tail with
                        | [] => .error (.after .endOfString [])
                        | slash :: tail =>
                            if slash = 0x5c then
                              match tail with
                              | [] => .error (.after .endOfString [])
                              | letter :: tail =>
                                  if letter = 0x75 then
                                    match tail with
                                    | e :: f :: g :: h :: tail =>
                                        match hexValue4? e f g h with
                                        | none => .error (.after .invalidEscape tail)
                                        | some low =>
                                            if isLowSurrogate low then
                                              stringBytes
                                                (pushPoint (joinSurrogates unit low) done) tail
                                            else .error (.after .loneSurrogate tail)
                                    | _ => .error (.after .endOfString [])
                                  else .error (.after .unfinishedSurrogate tail)
                            else .error (.after .unfinishedSurrogate tail)
                      else stringBytes (pushPoint unit done) tail
              | _ => .error (.after .endOfString [])
            else
              match shortEscape? letter with
              | some meant => stringBytes (meant :: done) tail
              | none => .error (.after .invalidEscape tail)
      else if byte < 0x20 then .error (.after .controlCharacter tail)
      else stringBytes (byte :: done) tail

/-- A string after its opening quote. When its bytes are no text, the complaint points back by
as many columns as bytes follow the longest prefix that is one. -/
def string (bytes : List UInt8) : Read String :=
  match stringBytes [] bytes with
  | .error stop => .error stop
  | .ok (content, rest) =>
      match Utf8.decode content with
      | (text, []) => .ok (text, rest)
      | (_, wrong) => .error ⟨.invalidUnicode, rest, wrong.length⟩

end Token

end Interleave

set_option autoImplicit false

/-! UTF-8 over lists of bytes: the bytes of a text, and the longest prefix of a list of bytes
that is a text. -/

namespace Interleave.Utf8

-- Powers of naturals are the core ones, whatever else a module imports.
attribute [local instance (high)] instPowNat

def encode (text : String) : List UInt8 := text.toList.flatMap String.utf8EncodeChar

def continues (byte : UInt8) : Bool := 0x80 ≤ byte && byte ≤ 0xbf

def payload (byte : UInt8) (bits : Nat) : Nat := byte.toNat % 2 ^ bits

def pair? (a b : UInt8) : Option Char :=
  if 0xc2 ≤ a && a ≤ 0xdf && continues b then
    some (Char.ofNat (payload a 5 * 64 + payload b 6))
  else none

/-- A three-byte character; overlong forms and surrogates are none. -/
def triple? (a b c : UInt8) : Option Char :=
  let second :=
    if a == 0xe0 then 0xa0 ≤ b && b ≤ 0xbf
    else if a == 0xed then 0x80 ≤ b && b ≤ 0x9f
    else 0xe1 ≤ a && a ≤ 0xef && continues b
  if second && continues c then
    some (Char.ofNat (payload a 4 * 4096 + payload b 6 * 64 + payload c 6))
  else none

def quadruple? (a b c d : UInt8) : Option Char :=
  let second :=
    if a == 0xf0 then 0x90 ≤ b && b ≤ 0xbf
    else if a == 0xf4 then 0x80 ≤ b && b ≤ 0x8f
    else 0xf1 ≤ a && a ≤ 0xf3 && continues b
  if second && continues c && continues d then
    some (Char.ofNat
      (payload a 3 * 262144 + payload b 6 * 4096 + payload c 6 * 64 + payload d 6))
  else none

/-- Decodes as long as characters follow; `done` holds the characters so far, latest first.
The second part is what no character starts. -/
def decodeOnto (done : List Char) : List UInt8 → List Char × List UInt8
  | [] => (done.reverse, [])
  | a :: tail =>
      if a < 0x80 then decodeOnto (Char.ofNat a.toNat :: done) tail
      else match tail with
        | [] => (done.reverse, [a])
        | b :: tail =>
            match pair? a b with
            | some char => decodeOnto (char :: done) tail
            | none => match tail with
              | [] => (done.reverse, [a, b])
              | c :: tail =>
                  match triple? a b c with
                  | some char => decodeOnto (char :: done) tail
                  | none => match tail with
                    | [] => (done.reverse, [a, b, c])
                    | d :: tail =>
                        match quadruple? a b c d with
                        | some char => decodeOnto (char :: done) tail
                        | none => (done.reverse, a :: b :: c :: d :: tail)

def decode (bytes : List UInt8) : String × List UInt8 :=
  let (chars, rest) := decodeOnto [] bytes
  (String.ofList chars, rest)

def decode? (bytes : List UInt8) : Option String :=
  match decode bytes with
  | (text, []) => some text
  | _ => none

end Interleave.Utf8

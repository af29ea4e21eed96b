set_option autoImplicit false

/-! Finite binary64 numbers as exact values, without the machine's floating point.

A magnitude is named by its code: its rank among the magnitudes, so that zero has code zero
and neighbouring codes are neighbouring numbers. Every magnitude is a whole number of
units of `2 ^ -1074`, which makes each operation one division of naturals that rounds to
nearest, ties to the even code. -/

namespace Interleave

-- Powers of naturals are the core ones, whatever else a module imports.
attribute [local instance (high)] instPowNat

def roundHalfEven (numerator denominator : Nat) : Nat :=
  let quotient := numerator / denominator
  let twice := 2 * (numerator % denominator)
  if denominator < twice then quotient + 1
  else if twice = denominator ∧ quotient % 2 = 1 then quotient + 1
  else quotient

namespace Magnitude

def infinity : Nat := 2047 * 2 ^ (52 : Nat)

/-- How far the last place of a code lies above the smallest unit, in powers of two. -/
def scale (code : Nat) : Nat := code / 2 ^ (52 : Nat) - 1

/-- The number of units of `2 ^ -1074` in the magnitude of this code. -/
def units (code : Nat) : Nat :=
  if code < 2 ^ (52 : Nat) then code else (2 ^ (52 : Nat) + code % 2 ^ (52 : Nat)) * 2 ^ scale code

def nearest (numerator denominator : Nat) : Nat :=
  let scaled := numerator * 2 ^ (1074 : Nat)
  let shift := (scaled / denominator).log2 - 52
  shift * 2 ^ (52 : Nat) + roundHalfEven scaled (denominator * 2 ^ shift)

def ofNat (value : Nat) : Nat := nearest value 1

def powerOfTen (exponent : Nat) : Nat := ofNat (10 ^ exponent)

def product (left right : Nat) : Nat :=
  nearest (units left * units right) (2 ^ (1074 : Nat) * 2 ^ (1074 : Nat))

def quotient (left right : Nat) : Nat := nearest (units left) (units right)

def divideDown : Nat → Nat → Nat
  | 0, code => code
  | steps + 1, code => if code = 0 then 0 else divideDown steps (quotient code (powerOfTen 308))

/-- The code that a literal with this significand and power of ten denotes, at or above
`infinity` when it is out of range. The significand, the power and their product or quotient
are each rounded on their own, so the result is not always the number nearest to the
literal. -/
def ofDecimal (significand : Nat) : Int → Nat
  | .ofNat exponent =>
      if exponent ≤ 308 then product (ofNat significand) (powerOfTen exponent)
      else if significand = 0 then 0 else infinity
  | .negSucc below =>
      let steps := below / 308
      quotient (divideDown steps (ofNat significand)) (powerOfTen (below + 1 - 308 * steps))

end Magnitude

structure Binary64 where
  negative : Bool
  code : Nat
  finite : code < Magnitude.infinity
  deriving DecidableEq

namespace Binary64

def zero : Binary64 := ⟨false, 0, by decide⟩

def ofCode? (negative : Bool) (code : Nat) : Option Binary64 :=
  if finite : code < Magnitude.infinity then some ⟨negative, code, finite⟩ else none

/-- Equality of values: the two zeros are equal. -/
def sameValue (left right : Binary64) : Bool :=
  left.code == right.code && (left.negative == right.negative || left.code == 0)

end Binary64

end Interleave

import Interleave.Decimal.Binary64

set_option autoImplicit false

/-! The shortest decimal that reads back as a given magnitude. The candidates on a grid of
step `10 ^ exponent` are the two neighbours of the exact value; the coarsest grid with a
candidate inside the rounding interval gives the fewest digits. -/

namespace Interleave

-- Powers of naturals are the core ones, whatever else a module imports.
attribute [local instance (high)] instPowNat

structure Decimal where
  digits : Nat
  exponent : Int
  deriving DecidableEq

namespace Decimal

/-- A magnitude between the ends of its rounding interval, in quarters of the smallest unit.
The ends themselves round to the magnitude exactly when `closed`. -/
structure Interval where
  lower : Nat
  value : Nat
  upper : Nat
  closed : Bool

/-- Below a power of two the neighbours are twice as near as above it. -/
def Interval.ofCode (code : Nat) : Interval :=
  let gap := 2 ^ Magnitude.scale code
  let narrow := code % 2 ^ (52 : Nat) = 0 ∧ 1 < code / 2 ^ (52 : Nat)
  { lower := 4 * Magnitude.units code - (if narrow then gap else 2 * gap)
    value := 4 * Magnitude.units code
    upper := 4 * Magnitude.units code + 2 * gap
    closed := code % 2 == 0 }

/-- Whether `digits` steps of a grid lie inside; `up` and `down` scale the two sides to whole
numbers. -/
def Interval.holds (interval : Interval) (digits up down : Nat) : Bool :=
  let point := digits * up
  if interval.closed then interval.lower * down ≤ point && point ≤ interval.upper * down
  else interval.lower * down < point && point < interval.upper * down

/-- The candidate of one grid: of the two neighbours of the value that lie inside, the nearer
one, and the even one of two equally near. -/
def Interval.candidate? (interval : Interval) (exponent : Int) : Option Nat :=
  let up := 10 ^ exponent.toNat * 2 ^ (1076 : Nat)
  let down := 10 ^ (-exponent).toNat
  let below := interval.value * down / up
  let remainder := interval.value * down % up
  let above := below + 1
  let preferBelow := 2 * remainder < up || (2 * remainder == up && below % 2 == 0)
  match interval.holds below up down, interval.holds above up down with
  | true, true => some (if preferBelow then below else above)
  | true, false => some below
  | false, true => some above
  | false, false => none

/-- An exponent with `value ≤ 10 ^ exponent`, at most a few above the least one. -/
def coarsest (code : Nat) : Int :=
  let bits : Int := (Magnitude.units code).log2 + 1 - 1074
  (if bits < 0 then bits * 30 / 100 else bits * 31 / 100) + 1

/-- Tries finer and finer grids; the exact value stands by, on a grid of `10 ^ -1074`. -/
def searchFrom (code : Nat) (interval : Interval) : Nat → Int → Decimal
  | 0, _ => ⟨Magnitude.units code * 5 ^ (1074 : Nat), -1074⟩
  | grids + 1, exponent =>
      match interval.candidate? exponent with
      | some digits => ⟨digits, exponent⟩
      | none => searchFrom code interval grids (exponent - 1)

def shortest (code : Nat) : Decimal :=
  if code = 0 then ⟨0, 0⟩
  else searchFrom code (Interval.ofCode code) 64 (coarsest code)

def leading (decimal : Decimal) : Int :=
  decimal.exponent + (toString decimal.digits).length - 1

def zeros (count : Nat) : String := String.ofList (List.replicate count '0')

def pointed (digits : List Char) (whole : Nat) : String :=
  let fraction := digits.drop whole
  String.ofList (digits.take whole) ++ "." ++
    (if fraction.isEmpty then "0" else String.ofList fraction)

def positional (digits : List Char) (leading exponent : Int) : String :=
  if 0 ≤ exponent then String.ofList digits ++ zeros exponent.toNat ++ ".0"
  else if 0 ≤ leading then pointed digits (leading.toNat + 1)
  else "0." ++ zeros (-leading - 1).toNat ++ String.ofList digits

def scientific (digits : List Char) (leading : Int) : String :=
  let mantissa := match digits with
    | [only] => String.ofList [only]
    | _ => pointed digits 1
  mantissa ++ (if leading < 0 then "e-" else "e+") ++ toString leading.natAbs

def text (decimal : Decimal) : String :=
  let digits := (toString decimal.digits).toList
  if -5 ≤ decimal.leading ∧ decimal.leading < 16 then
    positional digits decimal.leading decimal.exponent
  else scientific digits decimal.leading

end Decimal

def Binary64.text (number : Binary64) : String :=
  (if number.negative then "-" else "") ++ (Decimal.shortest number.code).text

end Interleave

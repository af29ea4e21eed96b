import Interleave.Json.Printer
import Interleave.Json.Token
import Interleave.Proofs.Shortest
import Interleave.Proofs.Unicode

set_option autoImplicit false

/-! Printed numbers are numbers again: a whole number the same one, a binary64 number one that is
in range. -/

namespace Interleave

namespace Token

open Utf8

/-! ### Digits -/

/-- The number that digits spell when they go on from a number. -/
def spelled (value : Nat) (digits : List UInt8) : Nat :=
  digits.foldl (fun value digit => value * 10 + digitValue digit) value

private theorem spelled_append (value : Nat) (left right : List UInt8) :
    spelled value (left ++ right) = spelled (spelled value left) right := List.foldl_append

private theorem le_spelled (value : Nat) (digits : List UInt8) :
    value * 10 ^ digits.length ≤ spelled value digits := by
  induction digits generalizing value with
  | nil => exact Nat.le_of_eq (Nat.mul_one value)
  | cons digit digits ih =>
      have later := ih (value * 10 + digitValue digit)
      change _ ≤ spelled (value * 10 + digitValue digit) digits
      refine Nat.le_trans ?_ later
      rw [List.length_cons, Nat.pow_succ, Nat.mul_comm (10 ^ digits.length), ← Nat.mul_assoc]
      exact Nat.mul_le_mul_right _ (Nat.le_add_right _ _)

private theorem le_spelled_self (value : Nat) (digits : List UInt8) :
    value ≤ spelled value digits :=
  Nat.le_trans (Nat.le_mul_of_pos_right _ (Nat.pow_pos (by decide))) (le_spelled value digits)

theorem absorb_parts {limit value : Nat} (digits : List UInt8) (fits : value ≤ limit) :
    ∃ taken left, digits = taken ++ left ∧ spelled value taken ≤ limit ∧
      absorb limit value digits = (spelled value taken, left) := by
  induction digits generalizing value with
  | nil => exact ⟨[], [], rfl, fits, rfl⟩
  | cons digit digits ih =>
      unfold absorb
      dsimp only
      by_cases longer : value * 10 + digitValue digit ≤ limit
      · rw [if_pos longer]
        obtain ⟨taken, left, split, within, same⟩ := ih longer
        refine ⟨digit :: taken, left, ?_, within, same⟩
        rw [split]
        rfl
      · rw [if_neg longer]
        exact ⟨[], digit :: digits, rfl, fits, rfl⟩

private theorem absorb_all {limit value : Nat} {digits : List UInt8}
    (fits : spelled value digits ≤ limit) :
    absorb limit value digits = (spelled value digits, []) := by
  induction digits generalizing value with
  | nil => rfl
  | cons digit digits ih =>
      change spelled (value * 10 + digitValue digit) digits ≤ limit at fits
      have first := Nat.le_trans (le_spelled_self _ _) fits
      unfold absorb
      dsimp only
      rw [if_pos first]
      exact ih fits

private theorem digitValue_le {digit : UInt8} (isDigit : isDigit digit = true) :
    digitValue digit ≤ 9 := by
  unfold Token.isDigit at isDigit
  rw [Bool.and_eq_true, decide_eq_true_iff, decide_eq_true_iff] at isDigit
  have upper := UInt8.le_iff_toNat_le.mp isDigit.2
  change digit.toNat ≤ 57 at upper
  unfold digitValue
  omega

theorem absorb_left_lt {limit value : Nat} {digits : List UInt8} (some : digits ≠ [])
    (all : ∀ digit ∈ digits, isDigit digit = true) (fits : value * 10 + 9 ≤ limit) :
    (absorb limit value digits).2.length < digits.length := by
  cases digits with
  | nil => exact absurd rfl some
  | cons digit digits =>
      have small := digitValue_le (all digit List.mem_cons_self)
      have first : value * 10 + digitValue digit ≤ limit := by omega
      unfold absorb
      dsimp only
      rw [if_pos first]
      obtain ⟨taken, left, split, _, same⟩ := absorb_parts digits first
      rw [same, split, List.length_cons, List.length_append]
      dsimp only
      omega

private theorem digit_range {char : Char} (digit : char.isDigit = true) :
    48 ≤ char.toNat ∧ char.toNat ≤ 57 := by
  unfold Char.isDigit at digit
  rw [Bool.and_eq_true, decide_eq_true_iff, decide_eq_true_iff] at digit
  exact ⟨UInt32.le_iff_toNat_le.mp digit.1, UInt32.le_iff_toNat_le.mp digit.2⟩

private theorem bytes_digit {char : Char} (digit : char.isDigit = true) :
    String.utf8EncodeChar char = [UInt8.ofNat char.toNat] := by
  have range := digit_range digit
  exact utf8EncodeChar_ascii (by omega)

private theorem isDigit_ofNat {value : Nat} (lower : 48 ≤ value) (upper : value ≤ 57) :
    isDigit (UInt8.ofNat value) = true := by
  unfold isDigit
  rw [Bool.and_eq_true, decide_eq_true_iff, decide_eq_true_iff, UInt8.le_iff_toNat_le,
    UInt8.le_iff_toNat_le, toNat_byte (by omega)]
  exact ⟨lower, upper⟩

section

variable {chars : List Char} (digits : ∀ char ∈ chars, char.isDigit = true)

include digits

theorem isDigit_bytes : ∀ byte ∈ bytes chars, isDigit byte = true := by
  intro byte member
  obtain ⟨char, present, inChar⟩ := List.mem_flatMap.mp member
  have range := digit_range (digits char present)
  rw [bytes_digit (digits char present), List.mem_singleton] at inChar
  rw [inChar]
  exact isDigit_ofNat range.1 range.2

private theorem bytes_length : (bytes chars).length = chars.length := by
  induction chars with
  | nil => rfl
  | cons char chars ih =>
      have later := ih (fun other member => digits other (List.mem_cons_of_mem _ member))
      unfold bytes at later ⊢
      rw [List.flatMap_cons, bytes_digit (digits char List.mem_cons_self), List.length_append,
        later, List.length_singleton, List.length_cons]
      omega

private theorem bytes_ne_nil (some : chars ≠ []) : bytes chars ≠ [] := by
  intro none
  apply some
  rw [← List.length_eq_zero_iff, ← bytes_length digits, none]
  rfl

private theorem spelled_bytes (value : Nat) :
    spelled value (bytes chars) = Nat.ofDigitChars 10 chars value := by
  induction chars generalizing value with
  | nil => rfl
  | cons char chars ih =>
      have later := ih (fun other member => digits other (List.mem_cons_of_mem _ member))
      have range := digit_range (digits char List.mem_cons_self)
      unfold bytes at later ⊢
      rw [List.flatMap_cons, bytes_digit (digits char List.mem_cons_self),
        Nat.ofDigitChars_cons, spelled_append, later]
      have single : digitValue (UInt8.ofNat char.toNat) = char.toNat - 48 := by
        unfold digitValue
        rw [toNat_byte (by omega)]
      change Nat.ofDigitChars 10 chars (value * 10 + digitValue (UInt8.ofNat char.toNat)) = _
      rw [single, Nat.mul_comm]
      rfl

end

/-! ### Literals -/

private theorem digits_split {digits rest : List UInt8}
    (all : ∀ digit ∈ digits, isDigit digit = true)
    (ends : ∀ byte ∈ rest.head?, isDigit byte = false) :
    (digits ++ rest).takeWhile isDigit = digits ∧
    (digits ++ rest).dropWhile isDigit = rest := by
  have stopped : rest.takeWhile isDigit = [] ∧ rest.dropWhile isDigit = rest := by
    cases rest with
    | nil => exact ⟨rfl, rfl⟩
    | cons byte rest =>
        have last := ends byte rfl
        rw [List.takeWhile_cons, List.dropWhile_cons, last]
        exact ⟨rfl, rfl⟩
  rw [List.takeWhile_append_of_pos all, List.dropWhile_append_of_pos all, stopped.1, stopped.2,
    List.append_nil]
  exact ⟨rfl, rfl⟩

/-- Digits that may stand at the start of a number: no zero comes before others. -/
structure Numeral (chars : List Char) : Prop where
  digits : ∀ char ∈ chars, char.isDigit = true
  ne_nil : chars ≠ []
  zero : chars.head? = some '0' → chars = ['0']

theorem Numeral.single {char : Char} (digit : char.isDigit = true) : Numeral [char] where
  digits other member := by
    rw [List.mem_singleton.mp member]
    exact digit
  ne_nil := List.cons_ne_nil _ _
  zero head := by
    rw [List.head?_cons, Option.some.injEq] at head
    rw [head]

private theorem Numeral.of_head_ne {chars : List Char}
    (digits : ∀ char ∈ chars, char.isDigit = true) (some : chars ≠ [])
    (solid : chars.head? ≠ .some '0') : Numeral chars :=
  ⟨digits, some, fun zero => absurd zero solid⟩

private theorem toDigits_head {value : Nat} (positive : 0 < value) :
    (Nat.toDigits 10 value).head? ≠ some '0' := by
  induction value using Nat.strong_induction_on with
  | h value ih =>
      by_cases single : value < 10
      · rw [Nat.toDigits_of_lt_base single, List.head?_cons]
        intro zero
        rw [Option.some.injEq, Nat.digitChar_eq_zero] at zero
        omega
      · rw [Nat.toDigits_of_base_le (by decide) (Nat.le_of_not_lt single),
          List.head?_append_of_ne_nil _ Nat.toDigits_ne_nil]
        exact ih (value / 10) (by omega) (by omega)

theorem numeral_toDigits (value : Nat) : Numeral (Nat.toDigits 10 value) := by
  refine ⟨?_, Nat.toDigits_ne_nil, ?_⟩
  · intro char member
    exact Nat.isDigit_of_mem_toDigits (by decide) (by decide) member
  · intro zero
    cases value with
    | zero => exact Nat.toDigits_zero 10
    | succ value => exact absurd zero (toDigits_head (Nat.succ_pos value))

private theorem number_literal (negative : Bool) {whole : List Char} (numeral : Numeral whole)
    {tail : List UInt8} (ends : ∀ byte ∈ tail.head?, isDigit byte = false) :
    number negative (bytes whole ++ tail) = afterDigits negative (bytes whole) tail := by
  cases whole with
  | nil => exact absurd rfl numeral.ne_nil
  | cons char chars =>
      have digit := numeral.digits char List.mem_cons_self
      have range := digit_range digit
      have others : ∀ other ∈ chars, other.isDigit = true := by
        intro other member
        exact numeral.digits other (List.mem_cons_of_mem _ member)
      have first : bytes (char :: chars) = UInt8.ofNat char.toNat :: bytes chars := by
        unfold bytes
        rw [List.flatMap_cons, bytes_digit digit, List.singleton_append]
      rw [first, List.cons_append]
      unfold number
      dsimp only
      by_cases zero : UInt8.ofNat char.toNat = 0x30
      · rw [if_pos zero]
        have same : char = '0' := by
          have point := congrArg UInt8.toNat zero
          rw [toNat_byte (by omega)] at point
          exact Char.toNat_inj.mp point
        subst same
        have alone := numeral.zero rfl
        rw [List.cons.injEq] at alone
        have none : bytes chars = [] := by rw [alone.2]; rfl
        rw [none, List.nil_append]
        cases tail with
        | nil => rfl
        | cons second tail =>
            have last := ends second rfl
            dsimp only
            rw [last, if_neg Bool.false_ne_true]
      · rw [if_neg zero, if_pos (isDigit_ofNat range.1 range.2)]
        obtain ⟨taken, dropped⟩ := digits_split (isDigit_bytes others) ends
        rw [taken, dropped]

/-- Nothing that could go on a number comes next. -/
def Stops (rest : List UInt8) : Prop :=
  ∀ byte ∈ rest.head?, isDigit byte = false ∧ byte ≠ 0x2e ∧ byte ≠ 0x65 ∧ byte ≠ 0x45

theorem Stops.ends {rest : List UInt8} (stops : Stops rest) :
    ∀ byte ∈ rest.head?, isDigit byte = false := by
  intro byte first
  exact (stops byte first).1

private theorem afterDigits_whole (negative : Bool) {digits rest : List UInt8} (stops : Stops rest)
    (fits : spelled 0 digits ≤ largestSignificand) :
    afterDigits negative digits rest = wholeNumber negative (spelled 0 digits) rest := by
  unfold afterDigits
  rw [absorb_all fits]
  dsimp only
  split
  · rename_i rest
    have impossible : (0x2e : UInt8) ≠ 0x2e := (stops 0x2e rfl).2.1
    exact absurd rfl impossible
  · rename_i rest
    have impossible : (0x65 : UInt8) ≠ 0x65 := (stops 0x65 rfl).2.2.1
    exact absurd rfl impossible
  · rename_i rest
    have impossible : (0x45 : UInt8) ≠ 0x45 := (stops 0x45 rfl).2.2.2
    exact absurd rfl impossible
  · exact if_pos List.isEmpty_nil

private theorem afterDigits_point (negative : Bool) {digits : List UInt8} (rest : List UInt8)
    (fits : spelled 0 digits ≤ largestSignificand) :
    afterDigits negative digits (0x2e :: rest) =
      fractionPart negative (spelled 0 digits) 0 rest := by
  unfold afterDigits
  rw [absorb_all fits]
  dsimp only
  rw [List.length_nil, Int.natCast_zero]
  rfl

private theorem afterDigits_exponent (negative : Bool) {digits : List UInt8} (rest : List UInt8)
    (fits : spelled 0 digits ≤ largestSignificand) :
    afterDigits negative digits (0x65 :: rest) =
      exponentPart negative (spelled 0 digits) 0 rest := by
  unfold afterDigits
  rw [absorb_all fits]
  dsimp only
  rw [List.length_nil, Int.natCast_zero]
  rfl

theorem exponentPart_signed (negative below : Bool) (significand : Nat) (exponent : Int)
    {digits rest : List UInt8} (some : digits ≠ [])
    (all : ∀ digit ∈ digits, isDigit digit = true)
    (ends : ∀ byte ∈ rest.head?, isDigit byte = false)
    (fits : spelled 0 digits ≤ largestExponent) :
    exponentPart negative significand exponent
        ((if below then 0x2d else 0x2b) :: (digits ++ rest)) =
      real negative significand
        (if below then exponent - spelled 0 digits else exponent + spelled 0 digits) rest := by
  obtain ⟨taken, dropped⟩ := digits_split all ends
  cases digits with
  | nil => exact absurd rfl some
  | cons digit digits =>
      have first : isDigit digit = true := all digit List.mem_cons_self
      rw [List.cons_append] at taken dropped ⊢
      cases below with
      | true => simp [exponentPart, first, taken, dropped, absorb_all fits]
      | false => simp [exponentPart, first, taken, dropped, absorb_all fits]

private theorem head_of_cons {byte : UInt8} (other : isDigit byte = false) (rest : List UInt8) :
    ∀ head ∈ (byte :: rest).head?, isDigit head = false := by
  intro head first
  rw [List.head?_cons, Option.mem_some_iff] at first
  rw [← first]
  exact other

private theorem fractionPart_digits (negative : Bool) {significand : Nat} (exponent : Int)
    {digits : List UInt8} (some : digits ≠ []) (all : ∀ digit ∈ digits, isDigit digit = true)
    (fits : significand ≤ largestSignificand) :
    ∃ taken left, digits = taken ++ left ∧
      absorb largestSignificand significand digits = (spelled significand taken, left) ∧
      spelled significand taken ≤ largestSignificand ∧
      (∀ rest, Stops rest → fractionPart negative significand exponent (digits ++ rest) =
        real negative (spelled significand taken) (exponent - taken.length) rest) ∧
      ∀ rest, fractionPart negative significand exponent (digits ++ 0x65 :: rest) =
        exponentPart negative (spelled significand taken) (exponent - taken.length) rest := by
  obtain ⟨taken, left, split, within, same⟩ := absorb_parts digits fits
  have nonempty : digits.isEmpty = false := List.isEmpty_eq_false_iff.mpr some
  have count : digits.length - left.length = taken.length := by
    rw [split, List.length_append]
    omega
  refine ⟨taken, left, split, same, within, ?_, ?_⟩
  · intro rest stops
    obtain ⟨front, back⟩ := digits_split all stops.ends
    unfold fractionPart
    rw [front, back]
    dsimp only
    rw [nonempty, if_neg Bool.false_ne_true, same]
    dsimp only
    rw [count]
    split
    · rename_i rest
      have impossible : (0x65 : UInt8) ≠ 0x65 := (stops 0x65 rfl).2.2.1
      exact absurd rfl impossible
    · rename_i rest
      have impossible : (0x45 : UInt8) ≠ 0x45 := (stops 0x45 rfl).2.2.2
      exact absurd rfl impossible
    · rfl
  · intro rest
    have letter : isDigit 0x65 = false := rfl
    obtain ⟨front, back⟩ := digits_split all (head_of_cons letter rest)
    unfold fractionPart
    rw [front, back]
    dsimp only
    rw [nonempty, if_neg Bool.false_ne_true, same]
    dsimp only
    rw [count]
    rfl

private theorem spelled_lt {digits : List UInt8} (all : ∀ digit ∈ digits, isDigit digit = true)
    (value : Nat) : spelled value digits < (value + 1) * 10 ^ digits.length := by
  induction digits generalizing value with
  | nil =>
      change value < (value + 1) * 1
      omega
  | cons digit digits ih =>
      have later := ih (fun other member => all other (List.mem_cons_of_mem _ member))
        (value * 10 + digitValue digit)
      have small := digitValue_le (all digit List.mem_cons_self)
      change spelled (value * 10 + digitValue digit) digits < _
      refine Nat.lt_of_lt_of_le later ?_
      rw [List.length_cons, Nat.pow_succ, Nat.mul_comm (10 ^ digits.length), ← Nat.mul_assoc]
      exact Nat.mul_le_mul_right _ (by omega)

/-- A number with a point and few digits before it has a negative exponent. -/
theorem number_pointed (negative : Bool) {whole fraction : List Char} (numeral : Numeral whole)
    (short : whole.length ≤ 16) (some : fraction ≠ [])
    (digits : ∀ char ∈ fraction, char.isDigit = true) :
    ∃ (significand : Nat) (exponent : Int), significand < 2 ^ 64 ∧ exponent < 0 ∧
      ∀ rest, Stops rest → number negative (bytes whole ++ 0x2e :: (bytes fraction ++ rest)) =
        real negative significand exponent rest := by
  have small : spelled 0 (bytes whole) < 10 ^ 16 := by
    have below := spelled_lt (isDigit_bytes numeral.digits) 0
    rw [bytes_length numeral.digits, Nat.zero_add, Nat.one_mul] at below
    exact Nat.lt_of_lt_of_le below (Nat.pow_le_pow_right (by decide) short)
  have limit : 10 ^ 16 * 10 + 9 ≤ largestSignificand := by decide
  have all := isDigit_bytes digits
  have nonempty := bytes_ne_nil digits some
  have room : spelled 0 (bytes whole) ≤ largestSignificand := by omega
  obtain ⟨taken, left, split, same, within, reads, _⟩ :=
    fractionPart_digits negative 0 nonempty all room
  have first := absorb_left_lt nonempty all
    (show spelled 0 (bytes whole) * 10 + 9 ≤ largestSignificand by omega)
  rw [same, split, List.length_append] at first
  refine ⟨spelled (spelled 0 (bytes whole)) taken, 0 - taken.length, ?_, ?_, ?_⟩
  · exact Nat.lt_of_le_of_lt within (by decide)
  · dsimp only at first
    omega
  · intro rest stops
    have point : isDigit 0x2e = false := rfl
    rw [number_literal negative numeral (head_of_cons point _),
      afterDigits_point negative _ room, reads rest stops]

def scientificBytes (lead : Char) (fraction power : List Char) (below : Bool) : List UInt8 :=
  bytes [lead] ++ ((if fraction.isEmpty then [] else 0x2e :: bytes fraction) ++
    0x65 :: (if below then 0x2d else 0x2b) :: bytes power)

theorem exponentPart_places (negative below : Bool) {power : List Char} (some : power ≠ [])
    (digits : ∀ char ∈ power, char.isDigit = true)
    (fits : spelled 0 (bytes power) ≤ largestExponent) (significand places : Nat)
    {rest : List UInt8} (stops : Stops rest) :
    exponentPart negative significand (0 - (places : Int))
        ((if below then 0x2d else 0x2b) :: (bytes power ++ rest)) =
      real negative significand
        ((if below then -(spelled 0 (bytes power) : Int) else spelled 0 (bytes power)) - places)
        rest := by
  rw [exponentPart_signed negative below _ _ (bytes_ne_nil digits some) (isDigit_bytes digits)
    stops.ends fits]
  congr 1
  split <;> omega

private theorem number_scientific (negative below : Bool) {lead : Char} {fraction power : List Char}
    (numeral : Numeral [lead]) (digits : ∀ char ∈ fraction, char.isDigit = true)
    (powerDigits : ∀ char ∈ power, char.isDigit = true) (some : power ≠ [])
    (fits : spelled 0 (bytes power) ≤ largestExponent) :
    ∃ taken left, bytes (lead :: fraction) = taken ++ left ∧ left.length < fraction.length + 1 ∧
      spelled 0 taken < 2 ^ 64 ∧
      (spelled 0 (bytes (lead :: fraction)) < 2 ^ 64 → left = []) ∧
      ∀ rest, Stops rest →
        number negative (scientificBytes lead fraction power below ++ rest) =
          real negative (spelled 0 taken)
            ((if below then -(spelled 0 (bytes power) : Int) else spelled 0 (bytes power)) -
              (taken.length - 1 : Nat)) rest := by
  have small : spelled 0 (bytes [lead]) < 10 := by
    have below := spelled_lt (isDigit_bytes numeral.digits) 0
    rw [bytes_length numeral.digits] at below
    exact below
  have limit : 10 ≤ largestSignificand := by decide
  have room : spelled 0 (bytes [lead]) ≤ largestSignificand := by omega
  have point : isDigit 0x2e = false := rfl
  have letter : isDigit 0x65 = false := rfl
  have whole : bytes (lead :: fraction) = bytes [lead] ++ bytes fraction :=
    bytes_append [lead] fraction
  have single : (bytes [lead]).length = 1 := bytes_length numeral.digits
  have exponents (significand places : Nat) {rest : List UInt8} (stops : Stops rest) :=
    exponentPart_places negative below some powerDigits fits significand places stops
  by_cases bare : fraction = []
  · subst bare
    refine ⟨bytes [lead], [], ?_, ?_, ?_, ?_, ?_⟩
    · rw [List.append_nil]
    · exact Nat.zero_lt_succ _
    · omega
    · intro _
      rfl
    · intro rest stops
      unfold scientificBytes
      rw [List.isEmpty_nil, if_pos rfl, List.nil_append, List.append_assoc, List.cons_append,
        List.cons_append, number_literal negative numeral (head_of_cons letter _),
        afterDigits_exponent negative _ room, single]
      exact exponents _ 0 stops
  · obtain ⟨taken, left, split, same, within, _, reads⟩ :=
      fractionPart_digits negative 0 (bytes_ne_nil digits bare) (isDigit_bytes digits) room
    have length := bytes_length digits
    rw [split, List.length_append] at length
    refine ⟨bytes [lead] ++ taken, left, ?_, ?_, ?_, ?_, ?_⟩
    · rw [whole, split, List.append_assoc]
    · omega
    · rw [spelled_append]
      exact Nat.lt_of_le_of_lt within (by decide)
    · intro small
      have fitting : spelled (spelled 0 (bytes [lead])) (bytes fraction) ≤
          largestSignificand := by
        rw [← spelled_append, ← whole]
        exact Nat.le_pred_of_lt small
      rw [absorb_all fitting] at same
      exact ((Prod.mk.inj same).2).symm
    · intro rest stops
      have listed : fraction.isEmpty = false := List.isEmpty_eq_false_iff.mpr bare
      unfold scientificBytes
      rw [listed, if_neg Bool.false_ne_true, List.append_assoc, List.append_assoc,
        List.cons_append, number_literal negative numeral (head_of_cons point _),
        afterDigits_point negative _ room, List.cons_append, List.cons_append,
        reads, spelled_append]
      rw [exponents _ _ stops, List.length_append, single, Nat.add_sub_cancel_left]

end Token

namespace Decimal

open Utf8 Token

/-! ### Texts of decimals -/

private theorem encode_zeros (count : Nat) :
    encode (zeros count) = bytes (List.replicate count '0') := by
  unfold zeros
  rw [encode_ofList]

private theorem isDigit_zeros (count : Nat) :
    ∀ char ∈ List.replicate count '0', char.isDigit = true := by
  intro char member
  rw [List.eq_of_mem_replicate member]
  rfl

private theorem encode_pointed (digits : List Char) (whole : Nat) (more : whole < digits.length) :
    encode (pointed digits whole) =
      bytes (digits.take whole) ++ 0x2e :: bytes (digits.drop whole) := by
  have nonempty : (digits.drop whole).isEmpty = false := by
    rw [List.isEmpty_eq_false_iff]
    intro none
    have length := congrArg List.length none
    rw [List.length_drop, List.length_nil] at length
    omega
  unfold pointed
  dsimp only
  rw [nonempty, if_neg Bool.false_ne_true, encode_append, encode_append,
    encode_ofList (digits.take whole), encode_ofList (digits.drop whole), List.append_assoc]
  rfl

theorem encode_positional {digits : List Char} {leading exponent : Int}
    (numeral : Numeral digits) (solid : digits.head? ≠ some '0')
    (place : leading = exponent + digits.length - 1) (low : leading < 16) :
    ∃ whole fraction, Numeral whole ∧ whole.length ≤ 16 ∧ fraction ≠ [] ∧
      (∀ char ∈ fraction, char.isDigit = true) ∧
      encode (positional digits leading exponent) = bytes whole ++ 0x2e :: bytes fraction := by
  unfold positional
  by_cases integral : 0 ≤ exponent
  · rw [if_pos integral]
    refine ⟨digits ++ List.replicate exponent.toNat '0', ['0'], ?_, ?_, List.cons_ne_nil _ _,
      isDigit_zeros 1, ?_⟩
    · apply Numeral.of_head_ne
      · exact List.forall_mem_append.mpr ⟨numeral.digits, isDigit_zeros _⟩
      · exact List.append_ne_nil_of_left_ne_nil numeral.ne_nil _
      · rw [List.head?_append_of_ne_nil _ numeral.ne_nil]
        exact solid
    · rw [List.length_append, List.length_replicate]
      omega
    · rw [encode_append, encode_append, encode_zeros, encode_ofList, bytes_append]
      rfl
  rw [if_neg integral]
  by_cases mixed : 0 ≤ leading
  · have more : leading.toNat + 1 < digits.length := by omega
    rw [if_pos mixed]
    refine ⟨digits.take (leading.toNat + 1), digits.drop (leading.toNat + 1), ?_, ?_, ?_, ?_,
      encode_pointed digits _ more⟩
    · apply Numeral.of_head_ne
      · intro char member
        exact numeral.digits char (List.mem_of_mem_take member)
      · intro none
        rcases List.take_eq_nil_iff.mp none with impossible | impossible
        · cases impossible
        · exact numeral.ne_nil impossible
      · rw [List.head?_take, if_neg (Nat.succ_ne_zero _)]
        exact solid
    · rw [List.length_take]
      omega
    · intro none
      have length := congrArg List.length none
      rw [List.length_drop, List.length_nil] at length
      omega
    · intro char member
      exact numeral.digits char (List.mem_of_mem_drop member)
  · rw [if_neg mixed]
    refine ⟨['0'], List.replicate (-leading - 1).toNat '0' ++ digits, .single rfl, ?_, ?_, ?_, ?_⟩
    · exact Nat.succ_le_succ (Nat.zero_le 15)
    · exact List.append_ne_nil_of_right_ne_nil _ numeral.ne_nil
    · exact List.forall_mem_append.mpr ⟨isDigit_zeros _, numeral.digits⟩
    · rw [encode_append, encode_append, encode_zeros, encode_ofList digits, bytes_append,
        List.append_assoc]
      rfl

theorem encode_scientific (lead : Char) (fraction : List Char) (leading : Int) :
    encode (scientific (lead :: fraction) leading) =
      scientificBytes lead fraction (Nat.toDigits 10 leading.natAbs) (decide (leading < 0)) := by
  have power : encode (toString leading.natAbs) = bytes (Nat.toDigits 10 leading.natAbs) := by
    rw [Nat.toString_eq_repr, Nat.repr_eq_ofList_toDigits, encode_ofList]
  have sign : encode (if leading < 0 then "e-" else "e+") =
      [0x65, if decide (leading < 0) then 0x2d else 0x2b] := by
    by_cases negative : leading < 0
    · rw [if_pos negative, decide_eq_true negative]
      rfl
    · rw [if_neg negative, decide_eq_false negative]
      rfl
  unfold scientific scientificBytes
  cases fraction with
  | nil =>
      dsimp only
      rw [encode_append, encode_append, power, sign, encode_ofList [lead], List.isEmpty_nil,
        if_pos rfl, List.append_assoc]
      rfl
  | cons second fraction =>
      dsimp only
      rw [encode_append, encode_append, power, sign,
        encode_pointed _ 1 (by rw [List.length_cons, List.length_cons]; omega),
        List.append_assoc, List.append_assoc]
      rfl

private theorem leading_eq (decimal : Decimal) :
    decimal.leading = decimal.exponent + (Nat.toDigits 10 decimal.digits).length - 1 := by
  unfold leading
  rw [Nat.toString_eq_repr, Nat.repr_eq_ofList_toDigits, String.length_ofList]

private theorem Fits.leading_ge {decimal : Decimal} {code : Nat} (fits : decimal.Fits code) :
    -1074 ≤ decimal.leading := by
  have exponent := fits.exponent_ge
  have some : 0 < (Nat.toDigits 10 decimal.digits).length :=
    List.length_pos_of_ne_nil Nat.toDigits_ne_nil
  rw [leading_eq]
  omega

private theorem spelled_toDigits (value : Nat) :
    spelled 0 (bytes (Nat.toDigits 10 value)) = value := by
  rw [spelled_bytes (numeral_toDigits value).digits, Nat.ofDigitChars_ten_toDigits]

private theorem signed_natAbs (value : Int) :
    (if decide (value < 0) = true then -(value.natAbs : Int) else value.natAbs) = value := by
  by_cases below : value < 0
  · rw [decide_eq_true below, if_pos rfl]
    omega
  · rw [decide_eq_false below, if_neg Bool.false_ne_true]
    omega

private theorem scientific_reads {decimal : Decimal} {code : Nat} (fits : decimal.Fits code)
    (finite : code < Magnitude.infinity) (negative : Bool) :
    ∃ significand exponent, decimal.Truncates significand exponent ∧ ∀ rest, Stops rest →
      number negative
        (encode (scientific (Nat.toDigits 10 decimal.digits) decimal.leading) ++ rest) =
        real negative significand exponent rest := by
  have lower := fits.leading_ge
  have upper := fits.leading_le finite
  have numeral := numeral_toDigits decimal.digits
  have length := decimal.leading_eq
  have value := spelled_toDigits decimal.digits
  have limit : 1074 ≤ largestExponent := by decide
  have power := spelled_toDigits decimal.leading.natAbs
  cases written : Nat.toDigits 10 decimal.digits with
  | nil => exact absurd written Nat.toDigits_ne_nil
  | cons lead fraction =>
      rw [written] at numeral length value
      have single := Numeral.single (numeral.digits lead List.mem_cons_self)
      have digits : ∀ char ∈ fraction, char.isDigit = true := by
        intro char member
        exact numeral.digits char (List.mem_cons_of_mem _ member)
      have bounded : spelled 0 (bytes (Nat.toDigits 10 decimal.leading.natAbs)) ≤
          largestExponent := by
        rw [power]
        omega
      obtain ⟨taken, left, split, some, small, whole, reads⟩ :=
        number_scientific negative (decide (decimal.leading < 0)) single digits
          (numeral_toDigits _).digits Nat.toDigits_ne_nil bounded
      have count := bytes_length numeral.digits
      rw [split, List.length_append, List.length_cons] at count
      rw [List.length_cons] at length
      rw [value] at whole
      rw [split, spelled_append] at value
      rw [power, signed_natAbs] at reads
      refine ⟨spelled 0 taken, decimal.leading - (taken.length - 1 : Nat), ⟨small, ?_⟩, ?_⟩
      · by_cases below : decimal.leading < 0
        · exact Or.inl (by omega)
        · refine Or.inr ⟨left.length, ?_, ?_, ?_⟩
          · have least := le_spelled (spelled 0 taken) left
            rw [value] at least
            exact least
          · omega
          · intro fitting
            have none := whole fitting
            rw [none] at value ⊢
            exact ⟨value, rfl⟩
      · intro rest stops
        rw [encode_scientific]
        exact reads rest stops

/-- The text of a decimal is a few digits, a point and a fraction. -/
def IsPointed (decimal : Decimal) : Prop :=
  ∃ whole fraction, Numeral whole ∧ whole.length ≤ 16 ∧ fraction ≠ [] ∧
    (∀ char ∈ fraction, char.isDigit = true) ∧
    encode decimal.text = bytes whole ++ 0x2e :: bytes fraction

theorem shortest_text (code : Nat) :
    (shortest code).IsPointed ∨ code ≠ 0 ∧ (shortest code).text =
      scientific (Nat.toDigits 10 (shortest code).digits) (shortest code).leading := by
  by_cases zero : code = 0
  · subst zero
    exact Or.inl ⟨['0'], ['0'], .single rfl, by decide, List.cons_ne_nil _ _, isDigit_zeros 1,
      by decide +kernel⟩
  · have fits := shortest_fits zero
    have digits : (toString (shortest code).digits).toList =
        Nat.toDigits 10 (shortest code).digits := by
      rw [Nat.toString_eq_repr, Nat.toList_repr]
    by_cases near : -5 ≤ (shortest code).leading ∧ (shortest code).leading < 16
    · obtain ⟨whole, fraction, numeral, short, some, digitsOnly, same⟩ :=
        encode_positional (numeral_toDigits _)
          (toDigits_head (Nat.pos_of_ne_zero fits.digits_ne_zero)) (leading_eq _) near.2
      refine Or.inl ⟨whole, fraction, numeral, short, some, digitsOnly, ?_⟩
      unfold text
      dsimp only
      rw [digits, if_pos near]
      exact same
    · refine Or.inr ⟨zero, ?_⟩
      unfold text
      dsimp only
      rw [digits, if_neg near]

/-- A printed decimal is read again, after a sign or without one, as far as its digits fit. -/
theorem shortest_reads {code : Nat} (finite : code < Magnitude.infinity) (negative : Bool) :
    ∃ significand exponent, (shortest code).Truncates significand exponent ∧
      ∀ rest, Stops rest → number negative (encode (shortest code).text ++ rest) =
        real negative significand exponent rest := by
  rcases shortest_text code with ⟨whole, fraction, numeral, short, some, digits, same⟩ |
    ⟨zero, same⟩
  · obtain ⟨significand, exponent, small, below, reads⟩ :=
      number_pointed negative numeral short some digits
    refine ⟨significand, exponent, ⟨small, Or.inl below⟩, ?_⟩
    intro rest stops
    rw [same, List.append_assoc, List.cons_append]
    exact reads rest stops
  · rw [same]
    exact scientific_reads (shortest_fits zero) finite negative

end Decimal

/-! ### Numbers -/

open Utf8 Token

/-- The number that is read from the text of a number. -/
def Binary64.reread (value : Binary64) : Binary64 :=
  match number value.negative (encode (Decimal.shortest value.code).text) with
  | .ok (.real again, _) => again
  | _ => value

private theorem Binary64.number_text (value : Binary64) {rest : List UInt8} (stops : Stops rest) :
    number value.negative (encode (Decimal.shortest value.code).text ++ rest) =
      .ok (.real value.reread, rest) := by
  obtain ⟨significand, exponent, truncates, reads⟩ :=
    Decimal.shortest_reads value.finite value.negative
  have finite := Decimal.ofDecimal_lt value.finite truncates
  have read : ∀ rest, Stops rest →
      number value.negative (encode (Decimal.shortest value.code).text ++ rest) =
        .ok (.real ⟨value.negative, Magnitude.ofDecimal significand exponent, finite⟩, rest) := by
    intro rest stops
    rw [reads rest stops]
    unfold real Binary64.ofCode?
    rw [dif_pos finite]
  have alone := read [] (fun _ absent => by cases absent)
  rw [List.append_nil] at alone
  have same : value.reread =
      ⟨value.negative, Magnitude.ofDecimal significand exponent, finite⟩ := by
    unfold reread
    rw [alone]
  rw [read rest stops, same]

theorem number_toString (negative : Bool) {value : Nat} (small : value < 2 ^ 64)
    {rest : List UInt8} (stops : Stops rest) :
    number negative (encode (toString value) ++ rest) = wholeNumber negative value rest := by
  have fits : spelled 0 (bytes (Nat.toDigits 10 value)) ≤ largestSignificand := by
    rw [Decimal.spelled_toDigits]
    exact Nat.le_pred_of_lt small
  rw [Nat.toString_eq_repr, Nat.repr_eq_ofList_toDigits, encode_ofList,
    number_literal negative (numeral_toDigits value) stops.ends,
    afterDigits_whole negative stops fits, Decimal.spelled_toDigits]

theorem number_head {negative : Bool} {bytes rest : List UInt8} {value : Number}
    (read : number negative bytes = .ok (value, rest)) :
    ∃ byte tail, bytes = byte :: tail ∧ isDigit byte = true := by
  cases bytes with
  | nil => cases read
  | cons byte tail =>
      refine ⟨byte, tail, rfl, ?_⟩
      by_cases digit : isDigit byte = true
      · exact digit
      · have different : byte ≠ 0x30 := by
          intro zero
          rw [zero] at digit
          exact digit rfl
        unfold number at read
        dsimp only at read
        rw [if_neg different, if_neg digit] at read
        cases read

namespace Number

/-- The whole numbers that a literal can denote. -/
def InRange : Number → Prop
  | .whole value => -2 ^ 63 ≤ value ∧ value < 2 ^ 64
  | .real _ => True

def reread : Number → Number
  | .whole value => .whole value
  | .real value => .real value.reread

/-- The text of a number in range is a sign if it is negative, and a literal. -/
theorem text_literal {value : Number} (range : value.InRange) :
    ∃ (negative : Bool) (literal : List UInt8),
      encode value.text = (if negative then [0x2d] else []) ++ literal ∧
      ∀ rest, Stops rest → number negative (literal ++ rest) = .ok (value.reread, rest) := by
  cases value with
  | real value =>
      refine ⟨value.negative, encode (Decimal.shortest value.code).text, ?_, ?_⟩
      · unfold text Binary64.text
        dsimp only
        rw [encode_append]
        cases value.negative <;> rfl
      · intro rest stops
        exact value.number_text stops
  | whole value =>
      obtain ⟨lower, upper⟩ := range
      cases value with
      | ofNat value =>
          refine ⟨false, encode (toString value), rfl, ?_⟩
          intro rest stops
          have small : value < 2 ^ 64 := Int.ofNat_lt.mp upper
          rw [number_toString false small stops]
          rfl
      | negSucc below =>
          refine ⟨true, encode (toString (below + 1)), ?_, ?_⟩
          · have written : text (.whole (.negSucc below)) = "-" ++ toString (below + 1) := rfl
            rw [written, encode_append]
            rfl
          · intro rest stops
            have small : below + 1 ≤ 2 ^ 63 := by omega
            rw [number_toString true (by omega) stops]
            unfold wholeNumber
            rw [if_pos rfl, if_neg (by omega)]
            rfl

end Number

end Interleave

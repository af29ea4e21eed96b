import Mathlib
import Interleave.Decimal.Binary64

set_option autoImplicit false

/-! Bounds of rounded magnitudes. What is below the upper end of the last rounding interval
rounds to a finite code, and the three roundings of a decimal do not leave it either. -/

namespace Interleave

/-- A quotient is rounded up from the half on, and down to the half. -/
theorem exists_roundHalfEven (numerator denominator : Nat) :
    ∃ quotient remainder, numerator / denominator = quotient ∧
      denominator * quotient + remainder = numerator ∧
      (roundHalfEven numerator denominator = quotient + 1 ∧ denominator ≤ 2 * remainder ∨
        roundHalfEven numerator denominator = quotient ∧ 2 * remainder ≤ denominator) := by
  refine ⟨_, _, rfl, Nat.div_add_mod numerator denominator, ?_⟩
  unfold roundHalfEven
  dsimp only
  split
  · exact Or.inl ⟨rfl, by omega⟩
  · split
    · exact Or.inl ⟨rfl, by omega⟩
    · exact Or.inr ⟨rfl, by omega⟩

private theorem roundHalfEven_le {numerator denominator bound : Nat}
    (below : 2 * numerator < (2 * bound + 1) * denominator) :
    roundHalfEven numerator denominator ≤ bound := by
  obtain ⟨quotient, remainder, _, parts, rounded⟩ := exists_roundHalfEven numerator denominator
  have noGreater : ∀ more, bound + more ≤ quotient →
      denominator * (bound + more) ≤ denominator * quotient := by
    intro more above
    exact Nat.mul_le_mul_left denominator above
  rcases rounded with ⟨up, _⟩ | ⟨down, _⟩
  · rw [up]
    by_contra above
    have product := noGreater 0 (by omega)
    nlinarith
  · rw [down]
    by_contra above
    have product := noGreater 1 (by omega)
    nlinarith

private theorem roundHalfEven_error (numerator denominator : Nat) :
    2 * (roundHalfEven numerator denominator * denominator) ≤ 2 * numerator + denominator := by
  obtain ⟨quotient, remainder, _, parts, rounded⟩ := exists_roundHalfEven numerator denominator
  rcases rounded with ⟨up, _⟩ | ⟨down, _⟩
  · rw [up]
    nlinarith
  · rw [down]
    nlinarith

private theorem div_le_roundHalfEven (numerator denominator : Nat) :
    numerator / denominator ≤ roundHalfEven numerator denominator := by
  obtain ⟨quotient, _, same, _, rounded⟩ := exists_roundHalfEven numerator denominator
  rw [same]
  rcases rounded with ⟨up, _⟩ | ⟨down, _⟩
  · rw [up]
    exact Nat.le_succ _
  · exact down.ge

namespace Magnitude

/-- The parts of a nearest code: its significand at a shift, both in terms of the number of
smallest units in the fraction. -/
structure Rounds (scaled denominator shift significand : Nat) : Prop where
  below : scaled < 2 ^ (shift + 53) * denominator
  normal : shift = 0 ∨ 2 ^ (shift + 52) * denominator ≤ scaled
  rounded : significand = roundHalfEven scaled (denominator * 2 ^ shift)

theorem nearest_rounds (numerator : Nat) {denominator : Nat} (positive : 0 < denominator) :
    ∃ shift significand, nearest numerator denominator = shift * 2 ^ 52 + significand ∧
      Rounds (numerator * 2 ^ 1074) denominator shift significand := by
  unfold nearest
  dsimp only
  generalize numerator * 2 ^ 1074 = scaled
  refine ⟨_, _, rfl, ?_, ?_, rfl⟩
  · rw [← Nat.div_lt_iff_lt_mul positive]
    apply Nat.lt_of_lt_of_le Nat.lt_log2_self
    exact Nat.pow_le_pow_right Nat.two_pos (by omega)
  · by_cases small : (scaled / denominator).log2 ≤ 52
    · exact Or.inl (by omega)
    · right
      rw [← Nat.le_div_iff_mul_le positive]
      have some : scaled / denominator ≠ 0 := by
        intro none
        rw [none, Nat.log2_zero] at small
        exact small (Nat.zero_le _)
      have least := Nat.log2_self_le some
      rw [show (scaled / denominator).log2 - 52 + 52 = (scaled / denominator).log2 by omega]
      exact least

namespace Rounds

variable {scaled denominator shift significand : Nat}

private theorem significand_le (rounds : Rounds scaled denominator shift significand) {bound : Nat}
    (small : 2 * scaled < (2 * bound + 1) * (denominator * 2 ^ shift)) : significand ≤ bound := by
  rw [rounds.rounded]
  exact roundHalfEven_le small

private theorem significand_le_pow (rounds : Rounds scaled denominator shift significand)
    (positive : 0 < denominator) : significand ≤ 2 ^ 53 := by
  apply rounds.significand_le
  have below := rounds.below
  rw [Nat.pow_add] at below
  have power := Nat.two_pow_pos shift
  have unit : 0 < denominator * 2 ^ shift := Nat.mul_pos positive power
  generalize 2 ^ shift = power at below unit ⊢
  nlinarith

theorem error (rounds : Rounds scaled denominator shift significand) :
    2 * (significand * (denominator * 2 ^ shift)) ≤ 2 * scaled + denominator * 2 ^ shift := by
  rw [rounds.rounded]
  exact roundHalfEven_error _ _

private theorem pow_le_significand (rounds : Rounds scaled denominator shift significand)
    (positive : 0 < denominator) (normal : 2 ^ (shift + 52) * denominator ≤ scaled) :
    2 ^ 52 ≤ significand := by
  rw [rounds.rounded]
  apply Nat.le_trans _ (div_le_roundHalfEven _ _)
  rw [Nat.le_div_iff_mul_le (Nat.mul_pos positive (Nat.two_pow_pos shift))]
  rw [Nat.pow_add] at normal
  linarith

end Rounds

/-- What is below the upper end of the last rounding interval before a power of two has a code
below that of the power. -/
theorem nearest_lt {numerator denominator : Nat} (positive : 0 < denominator) (exponent : Nat)
    (small : numerator * 2 ^ 1074 + 2 ^ exponent * denominator <
      2 ^ (exponent + 54) * denominator) :
    nearest numerator denominator < (exponent + 3) * 2 ^ 52 := by
  obtain ⟨shift, significand, same, rounds⟩ := nearest_rounds numerator positive
  rw [same]
  generalize numerator * 2 ^ 1074 = scaled at small rounds
  have bounded := rounds.significand_le_pow positive
  have top : shift ≤ exponent + 1 := by
    by_contra above
    rcases rounds.normal with none | normal
    · omega
    · have larger : 2 ^ (exponent + 54) ≤ 2 ^ (shift + 52) :=
        Nat.pow_le_pow_right Nat.two_pos (by omega)
      have product := Nat.mul_le_mul_right denominator larger
      omega
  by_cases last : shift = exponent + 1
  · subst last
    have notLast : significand ≤ 2 ^ 53 - 1 := by
      apply rounds.significand_le
      have unit : denominator * 2 ^ (exponent + 1) = 2 * (2 ^ exponent * denominator) := by
        rw [Nat.pow_succ]
        ring
      have power : 2 ^ (exponent + 54) * denominator =
          2 ^ 54 * (2 ^ exponent * denominator) := by
        rw [Nat.pow_add]
        ring
      rw [power] at small
      rw [unit]
      generalize 2 ^ exponent * denominator = place at small ⊢
      omega
    omega
  · omega

theorem nearest_le_pow {numerator denominator : Nat} (positive : 0 < denominator)
    {exponent : Nat} (small : numerator ≤ denominator * 2 ^ exponent) :
    nearest numerator denominator ≤ (1023 + exponent) * 2 ^ 52 := by
  obtain ⟨shift, significand, same, rounds⟩ := nearest_rounds numerator positive
  rw [same]
  have bounded := rounds.significand_le_pow positive
  have scaled : numerator * 2 ^ 1074 ≤ 2 ^ (1074 + exponent) * denominator := by
    rw [Nat.pow_add]
    have grown := Nat.mul_le_mul_right (2 ^ 1074) small
    generalize 2 ^ 1074 = scale at grown ⊢
    linarith
  have top : shift ≤ 1022 + exponent := by
    by_contra above
    rcases rounds.normal with none | normal
    · omega
    · have larger : 2 ^ (1074 + exponent) < 2 ^ (shift + 52) :=
        Nat.pow_lt_pow_right Nat.one_lt_two (by omega)
      have product := Nat.mul_lt_mul_of_pos_right larger positive
      omega
  by_cases last : shift = 1022 + exponent
  · subst last
    have notLast : significand ≤ 2 ^ 52 := by
      apply rounds.significand_le
      rw [show 1074 + exponent = 52 + (1022 + exponent) by omega, Nat.pow_add] at scaled
      have power : 0 < denominator * 2 ^ (1022 + exponent) :=
        Nat.mul_pos positive (Nat.two_pow_pos _)
      generalize 2 ^ (1022 + exponent) = scale at scaled power ⊢
      nlinarith
    omega
  · omega

/-! ### Units -/

private theorem units_of_parts {shift significand : Nat} (bounded : significand ≤ 2 ^ 53)
    (normal : shift = 0 ∨ 2 ^ 52 ≤ significand) :
    units (shift * 2 ^ 52 + significand) = significand * 2 ^ shift := by
  unfold units scale
  by_cases carry : significand = 2 ^ 53
  · subst carry
    rw [if_neg (by omega), show (shift * 2 ^ 52 + 2 ^ 53) % 2 ^ 52 = 0 by omega,
      show (shift * 2 ^ 52 + 2 ^ 53) / 2 ^ 52 - 1 = shift + 1 by omega, Nat.pow_succ]
    omega
  · rcases normal with rfl | normal
    · by_cases subnormal : significand < 2 ^ 52
      · rw [if_pos (by omega)]
        omega
      · rw [if_neg (by omega), show (0 * 2 ^ 52 + significand) / 2 ^ 52 - 1 = 0 by omega]
        omega
    · rw [if_neg (by omega), show (shift * 2 ^ 52 + significand) / 2 ^ 52 - 1 = shift by omega,
        show (shift * 2 ^ 52 + significand) % 2 ^ 52 = significand - 2 ^ 52 by omega,
        Nat.add_sub_cancel' normal]

/-- Rounding adds at most one part in `2 ^ 53`. -/
theorem units_nearest_le {numerator denominator : Nat} (positive : 0 < denominator)
    (large : 2 ^ 52 * denominator ≤ numerator * 2 ^ 1074) :
    2 ^ 53 * (units (nearest numerator denominator) * denominator) ≤
      (2 ^ 53 + 1) * (numerator * 2 ^ 1074) := by
  obtain ⟨shift, significand, same, rounds⟩ := nearest_rounds numerator positive
  generalize numerator * 2 ^ 1074 = scaled at large rounds ⊢
  have normal : 2 ^ (shift + 52) * denominator ≤ scaled := by
    rcases rounds.normal with rfl | normal
    · rw [Nat.zero_add]
      exact large
    · exact normal
  have least := rounds.pow_le_significand positive normal
  have error := rounds.error
  rw [same, units_of_parts (rounds.significand_le_pow positive) (Or.inr least)]
  have place : 2 ^ (shift + 52) * denominator = 2 ^ 52 * (denominator * 2 ^ shift) := by
    rw [Nat.pow_add]
    ring
  have value : significand * 2 ^ shift * denominator =
      significand * (denominator * 2 ^ shift) := by ring
  rw [place] at normal
  rw [value]
  generalize significand * (denominator * 2 ^ shift) = rounded at error ⊢
  generalize denominator * 2 ^ shift = unit at error normal
  omega

/-- A number that is at least one is at least one after rounding. -/
theorem pow_le_units_nearest {numerator denominator : Nat} (positive : 0 < denominator)
    (large : denominator ≤ numerator) : 2 ^ 1074 ≤ units (nearest numerator denominator) := by
  obtain ⟨shift, significand, same, rounds⟩ := nearest_rounds numerator positive
  have scaled : 2 ^ 1074 * denominator ≤ numerator * 2 ^ 1074 := by
    rw [Nat.mul_comm numerator]
    exact Nat.mul_le_mul_left _ large
  have range : 1074 < shift + 53 := by
    have below := Nat.lt_of_le_of_lt scaled rounds.below
    exact (Nat.pow_lt_pow_iff_right Nat.one_lt_two).mp (Nat.lt_of_mul_lt_mul_right below)
  have normal : 2 ^ (shift + 52) * denominator ≤ numerator * 2 ^ 1074 := by
    rcases rounds.normal with none | normal
    · omega
    · exact normal
  have least := rounds.pow_le_significand positive normal
  rw [same, units_of_parts (rounds.significand_le_pow positive) (Or.inr least)]
  calc 2 ^ 1074 ≤ 2 ^ (52 + shift) := Nat.pow_le_pow_right Nat.two_pos (by omega)
    _ = 2 ^ 52 * 2 ^ shift := Nat.pow_add 2 52 shift
    _ ≤ significand * 2 ^ shift := Nat.mul_le_mul_right _ least

private theorem units_le_pow {code exponent : Nat} (bounded : code ≤ (1023 + exponent) * 2 ^ 52) :
    units code ≤ 2 ^ (1074 + exponent) := by
  unfold units scale
  by_cases subnormal : code < 2 ^ 52
  · rw [if_pos subnormal]
    exact (Nat.le_of_lt subnormal).trans (Nat.pow_le_pow_right Nat.two_pos (by omega))
  · rw [if_neg subnormal]
    by_cases last : code / 2 ^ 52 = 1023 + exponent
    · rw [last, show code % 2 ^ 52 = 0 by omega, Nat.add_zero, ← Nat.pow_add]
      exact Nat.pow_le_pow_right Nat.two_pos (by omega)
    · calc (2 ^ 52 + code % 2 ^ 52) * 2 ^ (code / 2 ^ 52 - 1)
          ≤ 2 ^ 53 * 2 ^ (1021 + exponent) :=
            Nat.mul_le_mul (by omega) (Nat.pow_le_pow_right Nat.two_pos (by omega))
        _ = 2 ^ (53 + (1021 + exponent)) := (Nat.pow_add 2 53 _).symm
        _ = 2 ^ (1074 + exponent) := by rw [show 53 + (1021 + exponent) = 1074 + exponent by omega]

/-! ### Decimals -/

private theorem pow_le_units_powerOfTen (exponent : Nat) : 2 ^ 1074 ≤ units (powerOfTen exponent) :=
  pow_le_units_nearest Nat.one_pos (Nat.one_le_pow _ _ (by decide))

/-- Dividing by a number that is at least one keeps a code below that of a power of two. -/
theorem quotient_le {left right exponent : Nat} (bounded : left ≤ (1023 + exponent) * 2 ^ 52)
    (large : 2 ^ 1074 ≤ units right) : quotient left right ≤ (1023 + exponent) * 2 ^ 52 := by
  unfold quotient
  apply nearest_le_pow (Nat.lt_of_lt_of_le (Nat.two_pow_pos 1074) large)
  calc units left ≤ 2 ^ (1074 + exponent) := units_le_pow bounded
    _ = 2 ^ 1074 * 2 ^ exponent := Nat.pow_add 2 1074 exponent
    _ ≤ units right * 2 ^ exponent := Nat.mul_le_mul_right _ large

private theorem divideDown_le {steps code exponent : Nat}
    (bounded : code ≤ (1023 + exponent) * 2 ^ 52) :
    divideDown steps code ≤ (1023 + exponent) * 2 ^ 52 := by
  induction steps generalizing code with
  | zero => exact bounded
  | succ steps ih =>
      unfold divideDown
      split
      · exact Nat.zero_le _
      · exact ih (quotient_le bounded (pow_le_units_powerOfTen 308))

theorem ofDecimal_negSucc_lt {significand : Nat} (small : significand ≤ 2 ^ 64) (below : Nat) :
    ofDecimal significand (.negSucc below) < infinity := by
  have start : ofNat significand ≤ (1023 + 64) * 2 ^ 52 :=
    nearest_le_pow Nat.one_pos (by rw [Nat.one_mul]; exact small)
  have divided : divideDown (below / 308) (ofNat significand) ≤ (1023 + 64) * 2 ^ 52 :=
    divideDown_le start
  have last := quotient_le divided (pow_le_units_powerOfTen (below + 1 - 308 * (below / 308)))
  unfold ofDecimal
  dsimp only
  apply Nat.lt_of_le_of_lt last
  unfold infinity
  omega

/-- The upper end of a rounding interval, in quarters of a unit, is below a power of two when its
code is. -/
theorem upper_lt {code exponent : Nat} (finite : code < (exponent + 3) * 2 ^ 52) :
    4 * units code + 2 * 2 ^ scale code < 2 ^ 56 * 2 ^ exponent := by
  have positive := Nat.two_pow_pos exponent
  unfold units scale
  by_cases subnormal : code < 2 ^ 52
  · rw [if_pos subnormal, show code / 2 ^ 52 - 1 = 0 by omega]
    generalize 2 ^ exponent = top at positive ⊢
    omega
  · rw [if_neg subnormal]
    have rest : code % 2 ^ 52 < 2 ^ 52 := Nat.mod_lt _ (by decide)
    have gap : 2 ^ (code / 2 ^ 52 - 1) ≤ 2 ^ (exponent + 1) :=
      Nat.pow_le_pow_right Nat.two_pos (by omega)
    rw [Nat.pow_succ 2 exponent] at gap
    generalize code % 2 ^ 52 = significand at rest ⊢
    generalize 2 ^ (code / 2 ^ 52 - 1) = place at gap ⊢
    generalize 2 ^ exponent = top at positive gap ⊢
    have product : (2 ^ 52 + significand) * place ≤ (2 ^ 53 - 1) * (top * 2) :=
      Nat.mul_le_mul (by omega) gap
    omega

/-- Away from the last three codes before a power of two, the upper end of a rounding interval
leaves some room below that power. The ends are in quarters of a unit. -/
theorem upper_le {code exponent : Nat} (finite : code + 3 < (exponent + 3) * 2 ^ 52) :
    4 * units code + 2 * 2 ^ scale code + 28 * 2 ^ exponent ≤ 2 ^ 56 * 2 ^ exponent := by
  have positive := Nat.two_pow_pos exponent
  unfold units scale
  by_cases subnormal : code < 2 ^ 52
  · rw [if_pos subnormal, show code / 2 ^ 52 - 1 = 0 by omega]
    generalize 2 ^ exponent = top at positive ⊢
    omega
  · rw [if_neg subnormal]
    have rest : code % 2 ^ 52 < 2 ^ 52 := Nat.mod_lt _ (by decide)
    by_cases highest : code / 2 ^ 52 = exponent + 2
    · rw [highest, show exponent + 2 - 1 = exponent + 1 by omega, Nat.pow_succ 2 exponent]
      have room : code % 2 ^ 52 + 4 ≤ 2 ^ 52 := by omega
      generalize code % 2 ^ 52 = significand at room ⊢
      generalize 2 ^ exponent = top at positive ⊢
      have product : (2 ^ 52 + significand + 4) * top ≤ 2 ^ 53 * top :=
        Nat.mul_le_mul_right top (by omega)
      nlinarith
    · have gap : 2 ^ (code / 2 ^ 52 - 1) ≤ 2 ^ exponent :=
        Nat.pow_le_pow_right Nat.two_pos (by omega)
      generalize code % 2 ^ 52 = significand at rest ⊢
      generalize 2 ^ (code / 2 ^ 52 - 1) = place at gap ⊢
      generalize 2 ^ exponent = top at positive gap ⊢
      have product : (2 ^ 52 + significand) * place ≤ (2 ^ 53 - 1) * top :=
        Nat.mul_le_mul (by omega) gap
      omega

/-- The rounding of a positive number adds one part in `2 ^ 53` at most. -/
theorem units_ofNat_le {value : Nat} (positive : 0 < value) :
    2 ^ 53 * units (ofNat value) ≤ (2 ^ 53 + 1) * (value * 2 ^ 1074) := by
  have large : 2 ^ 52 * 1 ≤ value * 2 ^ 1074 := by
    calc 2 ^ 52 * 1 ≤ 1 * 2 ^ 1074 := by
          rw [Nat.mul_one, Nat.one_mul]
          exact Nat.pow_le_pow_right Nat.two_pos (by decide)
      _ ≤ value * 2 ^ 1074 := Nat.mul_le_mul_right _ positive
  have nearest := units_nearest_le Nat.one_pos large
  rw [Nat.mul_one] at nearest
  exact nearest

private theorem units_factors_le {significand : Nat} (positive : 0 < significand) (exponent : Nat) :
    2 ^ 106 * (units (ofNat significand) * units (powerOfTen exponent)) ≤
      (2 ^ 53 + 1) ^ 2 * (significand * 10 ^ exponent * 2 ^ 1074 * 2 ^ 1074) := by
  have first := units_ofNat_le positive
  have second : 2 ^ 53 * units (powerOfTen exponent) ≤
      (2 ^ 53 + 1) * (10 ^ exponent * 2 ^ 1074) :=
    units_ofNat_le (Nat.pow_pos (by decide))
  have both := Nat.mul_le_mul first second
  generalize units (ofNat significand) = left at both ⊢
  generalize units (powerOfTen exponent) = right at both ⊢
  generalize 10 ^ exponent = power at both ⊢
  generalize 2 ^ 1074 = one at both ⊢
  calc 2 ^ 106 * (left * right) = 2 ^ 53 * left * (2 ^ 53 * right) := by ring
    _ ≤ _ := both
    _ = _ := by ring

private theorem decimal_le {significand exponent code : Nat} (finite : code + 3 < infinity)
    (bounded : significand * 10 ^ exponent * (2 ^ 1074 * 4) ≤
      4 * units code + 2 * 2 ^ scale code) :
    significand * 10 ^ exponent * 2 ^ 1074 + 7 * 2 ^ 2044 ≤ 2 ^ 54 * 2 ^ 2044 := by
  have room : 4 * units code + 2 * 2 ^ scale code + 28 * 2 ^ 2044 ≤ 2 ^ 56 * 2 ^ 2044 :=
    upper_le finite
  rw [← Nat.mul_assoc] at bounded
  generalize significand * 10 ^ exponent * 2 ^ 1074 = exact' at bounded ⊢
  generalize 2 ^ 2044 = limit at room ⊢
  omega

/-- The three roundings of a decimal that is at most the upper end of a rounding interval. -/
theorem product_lt {significand exponent code : Nat} (finite : code + 3 < infinity)
    (positive : 0 < significand)
    (bounded : significand * 10 ^ exponent * (2 ^ 1074 * 4) ≤
      4 * units code + 2 * 2 ^ scale code) :
    product (ofNat significand) (powerOfTen exponent) < infinity := by
  have scaled := units_factors_le positive exponent
  have value := decimal_le finite bounded
  have unit := Nat.two_pow_pos 1074
  have top := Nat.two_pow_pos 2044
  have cell := Nat.mul_pos top unit
  unfold product
  generalize denominatorEq : 2 ^ 1074 * 2 ^ 1074 = denominator
  have denominatorPos : 0 < denominator := denominatorEq ▸ Nat.mul_pos unit unit
  apply nearest_lt denominatorPos 2044
  rw [Nat.pow_add, ← denominatorEq]
  generalize units (ofNat significand) * units (powerOfTen exponent) = rounded at scaled ⊢
  generalize significand * 10 ^ exponent * 2 ^ 1074 = exact' at scaled value
  generalize 2 ^ 1074 = one at scaled unit cell ⊢
  generalize 2 ^ 2044 = limit at value cell ⊢
  have widened := Nat.mul_le_mul_right one value
  rw [Nat.add_mul, Nat.mul_assoc, Nat.mul_assoc] at widened
  have below : 2 ^ 106 * (rounded + limit * one) < 2 ^ 106 * (2 ^ 54 * (limit * one)) := by
    generalize exact' * one = exact' at scaled widened
    generalize limit * one = cells at cell widened ⊢
    omega
  have smaller := Nat.lt_of_mul_lt_mul_left below
  calc rounded * one + limit * (one * one) = (rounded + limit * one) * one := by ring
    _ < 2 ^ 54 * (limit * one) * one := Nat.mul_lt_mul_of_pos_right smaller unit
    _ = limit * 2 ^ 54 * (one * one) := by ring

end Magnitude

end Interleave

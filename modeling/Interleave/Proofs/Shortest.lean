import Interleave.Decimal.Shortest
import Interleave.Proofs.Rounding

set_option autoImplicit false

/-! The shortest decimals of finite magnitudes. They are inside the rounding interval, so that
what is read from them, all digits or some of the first, is in range again. -/

namespace Interleave

namespace Decimal

def AtMost (decimal : Decimal) (quarters : Nat) : Prop :=
  decimal.digits * (10 ^ decimal.exponent.toNat * 2 ^ 1076) ≤
    quarters * 10 ^ (-decimal.exponent).toNat

private theorem upper_of_holds {interval : Interval} {digits up down : Nat}
    (inside : interval.holds digits up down = true) : digits * up ≤ interval.upper * down := by
  unfold Interval.holds at inside
  dsimp only at inside
  split at inside
  · rw [Bool.and_eq_true, decide_eq_true_iff, decide_eq_true_iff] at inside
    exact inside.2
  · rw [Bool.and_eq_true, decide_eq_true_iff, decide_eq_true_iff] at inside
    exact Nat.le_of_lt inside.2

private theorem positive_of_holds {interval : Interval} {digits up down : Nat} (some : 0 < down)
    (lower : 0 < interval.lower) (inside : interval.holds digits up down = true) :
    digits ≠ 0 := by
  rintro rfl
  have least := Nat.mul_pos lower some
  unfold Interval.holds at inside
  dsimp only at inside
  rw [Nat.zero_mul] at inside
  split at inside
  · rw [Bool.and_eq_true, decide_eq_true_iff, decide_eq_true_iff] at inside
    omega
  · rw [Bool.and_eq_true, decide_eq_true_iff, decide_eq_true_iff] at inside
    omega

private theorem holds_of_candidate {interval : Interval} {exponent : Int} {digits : Nat}
    (found : interval.candidate? exponent = some digits) :
    interval.holds digits (10 ^ exponent.toNat * 2 ^ 1076) (10 ^ (-exponent).toNat) = true := by
  unfold Interval.candidate? at found
  dsimp only at found
  generalize 10 ^ exponent.toNat * 2 ^ 1076 = up at found ⊢
  split at found
  · rename_i below above
    cases found
    split
    · exact below
    · exact above
  · rename_i below _
    cases found
    exact below
  · rename_i _ above
    cases found
    exact above
  · cases found

/-- What a search comes to: a candidate of its grid, or the exact value. -/
theorem searchFrom_cases (code : Nat) (interval : Interval) (grids : Nat) (start : Int) :
    (∃ digits exponent, start - grids < exponent ∧
      interval.holds digits (10 ^ exponent.toNat * 2 ^ 1076) (10 ^ (-exponent).toNat) = true ∧
      searchFrom code interval grids start = ⟨digits, exponent⟩) ∨
    searchFrom code interval grids start = ⟨Magnitude.units code * 5 ^ 1074, -1074⟩ := by
  induction grids generalizing start with
  | zero => exact Or.inr rfl
  | succ grids ih =>
      unfold searchFrom
      cases found : interval.candidate? start with
      | some digits =>
          exact Or.inl ⟨digits, start, by omega, holds_of_candidate found, rfl⟩
      | none =>
          rcases ih (start - 1) with ⟨digits, exponent, range, inside, same⟩ | exact'
          · exact Or.inl ⟨digits, exponent, by omega, inside, same⟩
          · exact Or.inr exact'

private theorem units_positive {code : Nat} (some : code ≠ 0) : 0 < Magnitude.units code := by
  unfold Magnitude.units
  split
  · omega
  · exact Nat.mul_pos (by omega) (Nat.two_pow_pos _)

private theorem scale_le_units {code : Nat} (some : code ≠ 0) :
    2 ^ Magnitude.scale code ≤ Magnitude.units code := by
  by_cases subnormal : code < 2 ^ 52
  · have flat : Magnitude.scale code = 0 := by
      unfold Magnitude.scale
      omega
    rw [flat]
    exact units_positive some
  · unfold Magnitude.units
    rw [if_neg subnormal]
    exact Nat.le_mul_of_pos_left _ (by omega)

private theorem lower_positive {code : Nat} (some : code ≠ 0) :
    0 < (Interval.ofCode code).lower := by
  have least := scale_le_units some
  have positive := Nat.two_pow_pos (Magnitude.scale code)
  unfold Interval.ofCode
  dsimp only
  split <;> omega

private theorem coarsest_ge (code : Nat) : -321 ≤ coarsest code := by
  unfold coarsest
  dsimp only
  split <;> omega

private theorem exact_le (units quarters places : Nat) (small : 4 * units ≤ quarters) :
    units * 5 ^ places * (10 ^ 0 * (2 ^ places * 2 ^ 2)) ≤ quarters * 10 ^ places := by
  have ten : 10 ^ places = 5 ^ places * 2 ^ places := by rw [← Nat.mul_pow]
  rw [ten]
  calc units * 5 ^ places * (10 ^ 0 * (2 ^ places * 2 ^ 2))
      = 4 * units * (5 ^ places * 2 ^ places) := by ring
    _ ≤ quarters * (5 ^ places * 2 ^ places) := Nat.mul_le_mul_right _ small

private theorem atMost_exact (units quarters : Nat) (small : 4 * units ≤ quarters) :
    AtMost ⟨units * 5 ^ 1074, -1074⟩ quarters := by
  have up : (-1074 : Int).toNat = 0 := rfl
  have down : (-(-1074 : Int)).toNat = 1074 := rfl
  have unit : (2 : Nat) ^ 1076 = 2 ^ 1074 * 2 ^ 2 := by
    rw [show (1076 : Nat) = 1074 + 2 by rfl, Nat.pow_add]
  unfold AtMost
  dsimp only
  rw [up, down, unit]
  exact exact_le units quarters 1074 small

/-- What is known of the shortest decimal of a magnitude that is not zero. -/
structure Fits (decimal : Decimal) (code : Nat) : Prop where
  digits_ne_zero : decimal.digits ≠ 0
  exponent_ge : -1074 ≤ decimal.exponent
  atMost : decimal.AtMost (4 * Magnitude.units code + 2 * 2 ^ Magnitude.scale code)

theorem shortest_fits {code : Nat} (some : code ≠ 0) : (shortest code).Fits code := by
  unfold shortest
  rw [if_neg some]
  have start := coarsest_ge code
  rcases searchFrom_cases code (Interval.ofCode code) 64 (coarsest code) with
    ⟨digits, exponent, range, inside, same⟩ | same
  · rw [same]
    refine ⟨?_, ?_, ?_⟩
    · exact positive_of_holds (Nat.pow_pos (by decide)) (lower_positive some) inside
    · dsimp only
      omega
    · exact upper_of_holds inside
  · rw [same]
    refine ⟨?_, ?_, ?_⟩
    · exact Nat.mul_ne_zero (units_positive some).ne' (Nat.pow_pos (by decide)).ne'
    · exact Int.le_refl _
    · exact atMost_exact _ _ (Nat.le_add_right _ _)

/-! ### Ranges -/

private theorem pow_two_lt_pow_ten : 2 ^ 1024 < 10 ^ 309 := by decide +kernel

private theorem quarters_lt {code : Nat} (finite : code < Magnitude.infinity) :
    4 * Magnitude.units code + 2 * 2 ^ Magnitude.scale code < 2 ^ 1024 * 2 ^ 1076 := by
  have below : 4 * Magnitude.units code + 2 * 2 ^ Magnitude.scale code < 2 ^ 56 * 2 ^ 2044 :=
    Magnitude.upper_lt finite
  have same : 2 ^ 56 * 2 ^ 2044 = 2 ^ 1024 * 2 ^ 1076 := by decide +kernel
  exact Nat.lt_of_lt_of_eq below same

private theorem pow_le_digits {digits : Nat} (some : digits ≠ 0) :
    10 ^ ((toString digits).length - 1) ≤ digits := by
  rw [Nat.toString_eq_repr]
  by_cases short : digits.repr.length - 1 = 0
  · rw [short]
    omega
  · by_contra above
    have fits := (Nat.length_repr_le_iff (Nat.pos_of_ne_zero short)).mpr (Nat.lt_of_not_le above)
    omega

theorem Fits.leading_le {decimal : Decimal} {code : Nat} (fits : decimal.Fits code)
    (finite : code < Magnitude.infinity) : decimal.leading ≤ 308 := by
  have atMost := fits.atMost
  have quarters := quarters_lt finite
  have digits := pow_le_digits fits.digits_ne_zero
  have limit := pow_two_lt_pow_ten
  have some : 0 < (toString decimal.digits).length := by
    rw [Nat.toString_eq_repr]
    exact Nat.length_repr_pos
  unfold AtMost at atMost
  unfold leading
  have positive := Nat.two_pow_pos 1076
  generalize 4 * Magnitude.units code + 2 * 2 ^ Magnitude.scale code = quarters at *
  generalize 2 ^ 1076 = unit at *
  generalize 2 ^ 1024 = bound at *
  generalize (toString decimal.digits).length = length at *
  have scaled : decimal.digits * 10 ^ decimal.exponent.toNat <
      bound * 10 ^ (-decimal.exponent).toNat := by
    have power : 0 < 10 ^ (-decimal.exponent).toNat := Nat.pow_pos (by decide)
    have larger := Nat.mul_lt_mul_of_pos_right quarters power
    rw [← Nat.mul_lt_mul_right positive]
    nlinarith
  have powers : 10 ^ (length - 1 + decimal.exponent.toNat) <
      10 ^ (309 + (-decimal.exponent).toNat) := by
    rw [Nat.pow_add, Nat.pow_add]
    calc 10 ^ (length - 1) * 10 ^ decimal.exponent.toNat
        ≤ decimal.digits * 10 ^ decimal.exponent.toNat := Nat.mul_le_mul_right _ digits
      _ < bound * 10 ^ (-decimal.exponent).toNat := scaled
      _ ≤ 10 ^ 309 * 10 ^ (-decimal.exponent).toNat :=
          Nat.mul_le_mul_right _ (Nat.le_of_lt limit)
  have exponents := (Nat.pow_lt_pow_iff_right (by decide)).mp powers
  omega

/-! ### Reading them again -/

/-- What a reader makes of a decimal: an exponent below zero, or the leading digits, which are
all of them when they fit. -/
structure Truncates (decimal : Decimal) (significand : Nat) (exponent : Int) : Prop where
  small : significand < 2 ^ 64
  leading : exponent < 0 ∨ ∃ left : Nat, significand * 10 ^ left ≤ decimal.digits ∧
    exponent = decimal.exponent + left ∧
    (decimal.digits < 2 ^ 64 → significand = decimal.digits ∧ left = 0)

private theorem truncated_le {decimal : Decimal} {quarters significand left exponent : Nat}
    (atMost : decimal.AtMost quarters) (less : significand * 10 ^ left ≤ decimal.digits)
    (same : (exponent : Int) = decimal.exponent + left) :
    significand * 10 ^ exponent * 2 ^ 1076 ≤ quarters := by
  unfold AtMost at atMost
  generalize 2 ^ 1076 = unit at atMost ⊢
  have power : 0 < 10 ^ (-decimal.exponent).toNat := Nat.pow_pos (by decide)
  rw [← Nat.mul_le_mul_right_iff power]
  calc significand * 10 ^ exponent * unit * 10 ^ (-decimal.exponent).toNat
      = significand * 10 ^ (exponent + (-decimal.exponent).toNat) * unit := by
        rw [Nat.pow_add]
        ring
    _ = significand * 10 ^ (left + decimal.exponent.toNat) * unit := by
        rw [show exponent + (-decimal.exponent).toNat = left + decimal.exponent.toNat by omega]
    _ = significand * 10 ^ left * (10 ^ decimal.exponent.toNat * unit) := by
        rw [Nat.pow_add]
        ring
    _ ≤ decimal.digits * (10 ^ decimal.exponent.toNat * unit) := Nat.mul_le_mul_right _ less
    _ ≤ quarters * 10 ^ (-decimal.exponent).toNat := atMost

private theorem ofDecimal_zero_lt (exponent : Nat) :
    Magnitude.ofDecimal 0 (.ofNat exponent) < Magnitude.infinity := by
  unfold Magnitude.ofDecimal
  dsimp only
  split
  · have none : Magnitude.units (Magnitude.ofNat 0) = 0 := by decide +kernel
    have low : Magnitude.product (Magnitude.ofNat 0) (Magnitude.powerOfTen exponent) ≤
        (1023 + 0) * 2 ^ 52 := by
      apply Magnitude.nearest_le_pow
      · exact Nat.mul_pos (Nat.two_pow_pos _) (Nat.two_pow_pos _)
      · rw [none, Nat.zero_mul]
        exact Nat.zero_le _
    apply Nat.lt_of_le_of_lt low
    decide
  · decide

private theorem exponent_le {significand exponent quarters : Nat} (positive : 0 < significand)
    (bounded : significand * 10 ^ exponent * 2 ^ 1076 ≤ quarters)
    (small : quarters < 2 ^ 1024 * 2 ^ 1076) : exponent ≤ 308 := by
  have limit := pow_two_lt_pow_ten
  have power : 10 ^ exponent ≤ significand * 10 ^ exponent := Nat.le_mul_of_pos_left _ positive
  generalize 2 ^ 1076 = unit at bounded small
  generalize 2 ^ 1024 = bound at limit small
  have less := Nat.lt_of_mul_lt_mul_right (Nat.lt_of_le_of_lt bounded small)
  have powers := Nat.lt_of_le_of_lt power (Nat.lt_trans less limit)
  have exponents := (Nat.pow_lt_pow_iff_right (by decide)).mp powers
  omega

/-- The last three decimals, whose roundings leave no room to spare. -/
theorem ofDecimal_last_lt {code : Nat} (last : Magnitude.infinity ≤ code + 3)
    (finite : code < Magnitude.infinity) :
    (shortest code).digits < 2 ^ 64 ∧
    Magnitude.ofDecimal (shortest code).digits (shortest code).exponent < Magnitude.infinity := by
  have codes : code = Magnitude.infinity - 3 ∨ code = Magnitude.infinity - 2 ∨
      code = Magnitude.infinity - 1 := by omega
  rcases codes with rfl | rfl | rfl <;> decide +kernel

/-- What is read from the shortest decimal of a finite magnitude is finite. -/
theorem ofDecimal_lt {code significand : Nat} {exponent : Int}
    (finite : code < Magnitude.infinity)
    (truncates : (shortest code).Truncates significand exponent) :
    Magnitude.ofDecimal significand exponent < Magnitude.infinity := by
  have small := truncates.small
  rcases truncates.leading with negative | ⟨left, less, same, whole⟩
  · cases exponent with
    | ofNat exponent => exact absurd negative (by simp)
    | negSucc below => exact Magnitude.ofDecimal_negSucc_lt (Nat.le_of_lt small) below
  · cases exponent with
    | negSucc below => exact Magnitude.ofDecimal_negSucc_lt (Nat.le_of_lt small) below
    | ofNat exponent =>
        by_cases none : significand = 0
        · rw [none]
          exact ofDecimal_zero_lt exponent
        by_cases last : Magnitude.infinity ≤ code + 3
        · obtain ⟨fits, inRange⟩ := ofDecimal_last_lt last finite
          obtain ⟨digits, all⟩ := whole fits
          rw [same, all, digits, Int.natCast_zero, Int.add_zero]
          exact inRange
        by_cases zero : code = 0
        · subst zero
          have digits : (shortest 0).digits = 0 := rfl
          rw [digits, Nat.le_zero, Nat.mul_eq_zero] at less
          rcases less with impossible | impossible
          · exact absurd impossible none
          · exact absurd impossible (Nat.pow_pos (by decide)).ne'
        have bounded := truncated_le (shortest_fits zero).atMost less same
        have low := exponent_le (Nat.pos_of_ne_zero none) bounded (quarters_lt finite)
        unfold Magnitude.ofDecimal
        dsimp only
        rw [if_pos low]
        apply Magnitude.product_lt (Nat.lt_of_not_le last) (Nat.pos_of_ne_zero none)
        have unit : 2 ^ 1074 * 4 = 2 ^ 1076 := by decide +kernel
        rw [unit]
        exact bounded

end Decimal

end Interleave

import AmpRack.HalfEven
import Mathlib.Algebra.Order.Field.Power
import Mathlib.Data.Int.Log
import Mathlib.Tactic.Positivity
import Mathlib.Tactic.Ring

/-!
# Rounding to a binary format

A format keeps `precision` bits of a number and none below `2 ^ least`. Rounding goes to the nearest
number of the format, of two to the even one, and leaves what is already rounded as it is.
-/

open TextScan

structure BinaryFormat where
  precision : ℕ
  least : ℤ
  limit : ℤ
  precision_pos : 0 < precision := by decide

namespace BinaryFormat

def binary32 : BinaryFormat where
  precision := 24
  least := -149
  limit := 128

def binary64 : BinaryFormat where
  precision := 53
  least := -1074
  limit := 1024

/-- The exponent of the last bit that is kept. -/
def place (F : BinaryFormat) (q : ℚ) : ℤ := max (Int.log 2 |q| + 1 - F.precision) F.least

/-- The nearest number of the format, however large. -/
def round (F : BinaryFormat) (q : ℚ) : ℚ :=
  roundHalfEven (q / 2 ^ F.place q) * 2 ^ F.place q

/-- Past this the format has infinity only. -/
def Overflows (F : BinaryFormat) (q : ℚ) : Prop := 2 ^ F.limit ≤ |F.round q|

instance (F : BinaryFormat) (q : ℚ) : Decidable (F.Overflows q) := inferInstanceAs (Decidable (_ ≤ _))

example : binary32.round (1 / 10) = 13421773 / 2 ^ 27 ∧ binary32.round (1 / 10 ^ 50) = 0 := by
  decide +kernel

variable {F : BinaryFormat} {q : ℚ}

theorem abs_roundHalfEven_le {q : ℚ} {n : ℕ} (h : |q| ≤ n) : |roundHalfEven q| ≤ n := by
  obtain ⟨hlow, hhigh⟩ := abs_le.mp h
  have hlow' := roundHalfEven_mono hlow
  have hhigh' := roundHalfEven_mono hhigh
  rw [show (-(n : ℚ)) = ((-(n : ℤ) : ℤ) : ℚ) by push_cast; rfl, roundHalfEven_intCast] at hlow'
  rw [show (n : ℚ) = ((n : ℤ) : ℚ) by push_cast; rfl, roundHalfEven_intCast] at hhigh'
  exact abs_le.mpr ⟨hlow', hhigh'⟩

/-- In units of its last bit a number has no more bits than are kept. -/
theorem abs_div_place_le (F : BinaryFormat) (q : ℚ) : |q / 2 ^ F.place q| ≤ (2 ^ F.precision : ℕ) := by
  have hpos : (0 : ℚ) < 2 ^ F.place q := by positivity
  have hlt : |q| < 2 ^ (Int.log 2 |q| + 1) := by
    have := Int.lt_zpow_succ_log_self (b := 2) (by decide) |q|
    exact_mod_cast this
  have hle : (2 : ℚ) ^ (Int.log 2 |q| + 1) ≤ 2 ^ (F.precision + F.place q) := by
    apply zpow_le_zpow_right₀ (by norm_num)
    have : Int.log 2 |q| + 1 - F.precision ≤ F.place q := le_max_left _ _
    omega
  rw [abs_div, abs_of_pos hpos, div_le_iff₀ hpos]
  push_cast
  rw [← zpow_natCast (2 : ℚ) F.precision, ← zpow_add₀ (by norm_num)]
  exact (hlt.trans_le hle).le

/-- A multiple of the last bit, or of a larger power of two, is kept. -/
theorem round_of_multiple {n e : ℤ} (h : q = n * 2 ^ e) (he : F.place q ≤ e) : F.round q = q := by
  obtain ⟨d, hd⟩ := Int.eq_ofNat_of_zero_le (sub_nonneg.mpr he)
  have hpos : (0 : ℚ) < 2 ^ F.place q := by positivity
  have hsplit : (2 : ℚ) ^ e = 2 ^ d * 2 ^ F.place q := by
    rw [← zpow_natCast, ← zpow_add₀ (by norm_num), ← hd, sub_add_cancel]
  have hdiv : q / 2 ^ F.place q = (n * 2 ^ d : ℤ) := by
    rw [div_eq_iff hpos.ne']
    push_cast
    rw [mul_assoc, ← hsplit]
    exact h
  rw [round, hdiv, roundHalfEven_intCast, ← hdiv, div_mul_cancel₀ _ hpos.ne']

theorem log_mantissa {m : ℤ} (hm : m ≠ 0) (e : ℤ) :
    Int.log 2 |(m : ℚ) * 2 ^ e| = Int.log 2 |(m : ℚ)| + e := by
  have hpos : (0 : ℚ) < |(m : ℚ)| := abs_pos.mpr (Int.cast_ne_zero.mpr hm)
  have hpow : (0 : ℚ) < 2 ^ e := by positivity
  have hlow := Int.zpow_log_le_self (b := 2) (by decide) hpos
  have hhigh := Int.lt_zpow_succ_log_self (b := 2) (by decide) |(m : ℚ)|
  push_cast at hlow hhigh
  rw [abs_mul, abs_of_pos hpow]
  apply le_antisymm
  · apply Int.lt_add_one_iff.mp
    rw [← Int.lt_zpow_iff_log_lt (by decide) (by positivity), add_right_comm,
      Nat.cast_ofNat, zpow_add₀ (by norm_num)]
    exact mul_lt_mul_of_pos_right hhigh hpow
  · rw [← Int.zpow_le_iff_le_log (by decide) (by positivity), Nat.cast_ofNat,
      zpow_add₀ (by norm_num)]
    exact mul_le_mul_of_nonneg_right hlow hpow.le

/-- A mantissa of the precision with an exponent that is not too small is in the format. With one
bit more, as after a carry, it is even. -/
theorem round_mantissa {m e : ℤ} (hm : |m| ≤ (2 ^ F.precision : ℕ)) (he : F.least ≤ e) :
    F.round (m * 2 ^ e) = m * 2 ^ e := by
  by_cases hzero : m = 0
  · have hround : roundHalfEven 0 = 0 := roundHalfEven_intCast 0
    simp [hzero, round, hround]
  have hlog := log_mantissa hzero e
  rcases lt_or_eq_of_le hm with hlt | hcarry
  · have hbits : Int.log 2 |(m : ℚ)| < F.precision := by
      rw [← Int.lt_zpow_iff_log_lt (by decide) (abs_pos.mpr (Int.cast_ne_zero.mpr hzero)),
        zpow_natCast]
      exact_mod_cast hlt
    exact round_of_multiple rfl (max_le (by omega) he)
  · obtain ⟨p, hp⟩ : ∃ p, F.precision = p + 1 := ⟨F.precision - 1, by have := F.precision_pos; omega⟩
    have hbits : Int.log 2 |(m : ℚ)| = F.precision := by
      have hcast : |(m : ℚ)| = (2 : ℕ) ^ (F.precision : ℤ) := by
        rw [zpow_natCast]
        exact_mod_cast hcarry
      rw [hcast, Int.log_zpow (by decide)]
    have heven : m % 2 = 0 := by
      rw [hp, pow_succ] at hcarry
      rcases abs_choice m with h | h <;> rw [h] at hcarry <;> push_cast at hcarry <;> omega
    apply round_of_multiple (n := m / 2) (e := e + 1)
    · have hhalf : (m : ℚ) = (m / 2 : ℤ) * 2 := by
        exact_mod_cast (Int.ediv_mul_cancel (Int.dvd_of_emod_eq_zero heven)).symm
      rw [zpow_add_one₀ (by norm_num)]
      conv_lhs => rw [hhalf]
      ring
    · exact max_le (by omega) (by omega)

/-- What is rounded is in the format. -/
@[simp] theorem round_round (F : BinaryFormat) (q : ℚ) : F.round (F.round q) = F.round q :=
  round_mantissa (abs_roundHalfEven_le (F.abs_div_place_le q)) (le_max_right _ _)

end BinaryFormat

import Mathlib.Algebra.Order.Ring.Int
import Mathlib.Tactic.NormNum

/-!
# Signed and unsigned machine integers

An `int` has 32 bits and a `size_t` 64. A conversion keeps the low bits. An `int` operation whose
result does not fit is undefined.
-/

namespace MachineInts

def FitsInt (n : ℤ) : Prop := -2 ^ 31 ≤ n ∧ n < 2 ^ 31

instance (n : ℤ) : Decidable (FitsInt n) := by unfold FitsInt; infer_instance

/-- An `int` where a `size_t` is asked for. -/
def sizeOfInt (n : ℤ) : ℕ := (n % 2 ^ 64).toNat

/-- A `size_t` that is kept as an `int`. -/
def intOfSize (n : ℕ) : ℤ := Int.bmod n (2 ^ 32)

theorem sizeOfInt_of_nonneg {n : ℤ} (h₀ : 0 ≤ n) (h : n < 2 ^ 31) : sizeOfInt n = n.toNat := by
  rw [sizeOfInt, Int.emod_eq_of_lt h₀ (by omega)]

/-- A negative `int` is one of the largest sizes. -/
theorem sizeOfInt_of_neg {n : ℤ} (h : n < 0) (h₀ : -2 ^ 31 ≤ n) :
    sizeOfInt n = (n + 2 ^ 64).toNat := by
  rw [sizeOfInt, ← Int.add_emod_right, Int.emod_eq_of_lt (by omega) (by omega)]

theorem intOfSize_of_lt {n : ℕ} (h : n % 2 ^ 32 < 2 ^ 31) : intOfSize n = (n % 2 ^ 32 : ℕ) := by
  unfold intOfSize
  rw [Int.bmod_def]
  omega

theorem intOfSize_of_le {n : ℕ} (h : 2 ^ 31 ≤ n % 2 ^ 32) :
    -2 ^ 31 ≤ intOfSize n ∧ intOfSize n < 0 := by
  unfold intOfSize
  rw [Int.bmod_def]
  omega

theorem fitsInt_intOfSize (n : ℕ) : FitsInt (intOfSize n) := by
  by_cases h : n % 2 ^ 32 < 2 ^ 31
  · rw [intOfSize_of_lt h]
    exact ⟨by omega, by exact_mod_cast h⟩
  · obtain ⟨hge, hneg⟩ := intOfSize_of_le (not_lt.mp h)
    exact ⟨hge, by omega⟩

/-- A count that is the length of a string was not negative as an `int`. -/
theorem eq_of_sizeOfInt_eq {n : ℤ} {m : ℕ} (hn : FitsInt n) (hm : m < 2 ^ 63)
    (h : sizeOfInt n = m) : n = m := by
  obtain ⟨hge, hlt⟩ := hn
  by_cases hneg : n < 0
  · rw [sizeOfInt_of_neg hneg hge] at h
    omega
  · rw [sizeOfInt_of_nonneg (not_lt.mp hneg) hlt] at h
    omega

/-- An `int` survives being a `size_t`. -/
theorem intOfSize_sizeOfInt {n : ℤ} (h : FitsInt n) : intOfSize (sizeOfInt n) = n := by
  obtain ⟨hge, hlt⟩ := h
  have hcast : (sizeOfInt n : ℤ) = n % 2 ^ 64 :=
    Int.toNat_of_nonneg (Int.emod_nonneg n (by norm_num))
  unfold intOfSize
  rw [hcast, Int.bmod_eq_iff (by norm_num)]
  push_cast
  omega

end MachineInts

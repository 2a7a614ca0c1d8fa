import AmpRack.TextScan
import Mathlib.Tactic.Linarith
import Mathlib.Tactic.NormNum

/-!
# Rounding to the nearest integer

A number is rounded up to `n` or further exactly when it lies above the midpoint below `n`, or on it
when `n` is even. Everything else follows: rounding keeps the order and the integers.
-/

namespace TextScan

theorem floor_le_roundHalfEven (q : ℚ) : ⌊q⌋ ≤ roundHalfEven q := by
  unfold roundHalfEven
  dsimp only
  split_ifs <;> omega

theorem roundHalfEven_le_floor_add_one (q : ℚ) : roundHalfEven q ≤ ⌊q⌋ + 1 := by
  unfold roundHalfEven
  dsimp only
  split_ifs <;> omega

theorem le_roundHalfEven_iff (n : ℤ) (q : ℚ) :
    n ≤ roundHalfEven q ↔ (n : ℚ) - 1 / 2 < q ∨ n % 2 = 0 ∧ (n : ℚ) - 1 / 2 = q := by
  have hlow : (⌊q⌋ : ℚ) ≤ q := Int.floor_le q
  have hhigh : q < ⌊q⌋ + 1 := Int.lt_floor_add_one q
  -- the integers up to the floor, the next one, and those above it
  rcases lt_trichotomy n (⌊q⌋ + 1) with hn | rfl | hn
  · have hcast : (n : ℚ) ≤ ⌊q⌋ := Int.cast_le.mpr (Int.lt_add_one_iff.mp hn)
    have hle : n ≤ roundHalfEven q :=
      (Int.lt_add_one_iff.mp hn).trans (floor_le_roundHalfEven q)
    exact iff_of_true hle (.inl (by linarith))
  · unfold roundHalfEven
    dsimp only
    push_cast
    split_ifs with hbelow habove heven
    · apply iff_of_false (by omega)
      rintro (h | ⟨-, h⟩) <;> linarith
    · exact iff_of_true le_rfl (.inl (by linarith))
    · apply iff_of_false (by omega)
      rintro (h | ⟨hodd, -⟩)
      · linarith
      · omega
    · exact iff_of_true le_rfl (.inr ⟨by omega, by linarith⟩)
  · have hcast : (⌊q⌋ : ℚ) + 2 ≤ n := by
      have hn' : ⌊q⌋ + 2 ≤ n := by omega
      exact_mod_cast hn'
    have hlt : roundHalfEven q < n := (roundHalfEven_le_floor_add_one q).trans_lt hn
    apply iff_of_false (not_le.mpr hlt)
    rintro (h | ⟨-, h⟩) <;> linarith

/-- The midpoint below an even integer is rounded up to it. -/
theorem le_roundHalfEven_iff_of_even {n : ℤ} (h : n % 2 = 0) (q : ℚ) :
    n ≤ roundHalfEven q ↔ (n : ℚ) - 1 / 2 ≤ q := by
  rw [le_roundHalfEven_iff, le_iff_lt_or_eq]
  exact or_congr_right (and_iff_right h)

/-- The midpoint above an even integer is rounded down to it. -/
theorem roundHalfEven_le_iff_of_even {n : ℤ} (h : n % 2 = 0) (q : ℚ) :
    roundHalfEven q ≤ n ↔ q ≤ (n : ℚ) + 1 / 2 := by
  have hodd : ¬ (n + 1) % 2 = 0 := by omega
  rw [← not_lt, ← Int.add_one_le_iff, le_roundHalfEven_iff, ← not_lt]
  apply not_congr
  push_cast
  constructor
  · rintro (hlt | ⟨heven, -⟩)
    · linarith
    · exact absurd heven hodd
  · intro hlt
    exact .inl (by linarith)

theorem roundHalfEven_mono {q r : ℚ} (h : q ≤ r) : roundHalfEven q ≤ roundHalfEven r := by
  rw [le_roundHalfEven_iff]
  rcases (le_roundHalfEven_iff _ q).mp le_rfl with hlt | ⟨heven, heq⟩
  · exact .inl (hlt.trans_le h)
  · rcases h.lt_or_eq with hlt | rfl
    · exact .inl (heq.trans_lt hlt)
    · exact .inr ⟨heven, heq⟩

@[simp] theorem roundHalfEven_intCast (n : ℤ) : roundHalfEven n = n := by
  simp [roundHalfEven]

end TextScan

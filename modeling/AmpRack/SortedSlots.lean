import Mathlib.Algebra.Order.Ring.Int
import Mathlib.Data.List.Nodup

/-!
# Sorted lists under a comparison function

In C an order is a function that returns a negative number, zero or a positive number. A list that is
sorted under one can be bisected: a window of positions is kept, with everything before it below the
element sought and everything behind it above. An empty window is the place where the element
belongs.
-/

namespace SortedSlots

/-- What a comparison function has to satisfy. -/
structure Comparison (α : Type*) where
  cmp : α → α → ℤ
  eq_zero_iff : ∀ a b, cmp a b = 0 ↔ a = b
  neg_iff : ∀ a b, cmp a b < 0 ↔ 0 < cmp b a
  trans : ∀ a b c, cmp a b < 0 → cmp b c < 0 → cmp a c < 0

variable {α : Type*} (C : Comparison α)

def Sorted (xs : List α) : Prop := xs.Pairwise fun a b => C.cmp a b < 0

/-- `a` is at none of the positions outside the window from `lower` up to `upper`, and can only belong
inside. -/
structure Window (xs : List α) (a : α) (lower upper : ℕ) : Prop where
  le : lower ≤ upper
  le_length : upper ≤ xs.length
  below : ∀ (i : ℕ) (h : i < xs.length), i < lower → C.cmp xs[i] a < 0
  above : ∀ (i : ℕ) (h : i < xs.length), upper ≤ i → 0 < C.cmp xs[i] a

variable {C} {xs : List α} {a : α} {lower upper i k : ℕ}

theorem Sorted.cmp_neg (hs : Sorted C xs) {j : ℕ} (hi : i < xs.length) (hj : j < xs.length)
    (hij : i < j) : C.cmp xs[i] xs[j] < 0 := List.pairwise_iff_getElem.mp hs i j hi hj hij

theorem Sorted.nodup (hs : Sorted C xs) : xs.Nodup := by
  refine List.Pairwise.imp (fun {b c} hlt => ?_) hs
  intro heq
  exact hlt.ne ((C.eq_zero_iff b c).mpr heq)

namespace Window

theorem whole (xs : List α) (a : α) : Window C xs a 0 xs.length where
  le := Nat.zero_le _
  le_length := le_rfl
  below _ _ hi := absurd hi (Nat.not_lt_zero _)
  above _ h hi := absurd h hi.not_gt

/-- The element at `i` is below: nothing up to it is left in the window. -/
theorem raise (hs : Sorted C xs) (w : Window C xs a lower upper) (hupper : i < upper)
    (hi : i < xs.length) (hneg : C.cmp xs[i] a < 0) : Window C xs a (i + 1) upper where
  le := hupper
  le_length := w.le_length
  below j hj hle := by
    obtain hlt | rfl := Nat.lt_succ_iff_lt_or_eq.mp hle
    · exact C.trans _ _ _ (hs.cmp_neg _ hi hlt) hneg
    · exact hneg
  above := w.above

/-- The element at `i` is above: it and everything behind it is out of the window. -/
theorem cut (hs : Sorted C xs) (w : Window C xs a lower upper) (hlow : lower ≤ i)
    (hi : i < xs.length) (hpos : 0 < C.cmp xs[i] a) : Window C xs a lower i where
  le := hlow
  le_length := hi.le
  below := w.below
  above j hj hle := by
    obtain hlt | rfl := Nat.lt_or_eq_of_le hle
    · rw [← C.neg_iff] at hpos ⊢
      exact C.trans _ _ _ hpos (hs.cmp_neg hi hj hlt)
    · exact hpos

theorem not_mem (w : Window C xs a k k) : a ∉ xs := by
  intro hmem
  obtain ⟨i, hi, rfl⟩ := List.mem_iff_getElem.mp hmem
  have hzero : C.cmp xs[i] xs[i] = 0 := (C.eq_zero_iff _ _).mpr rfl
  obtain hlt | hge := Nat.lt_or_ge i k
  · exact (w.below i hi hlt).ne hzero
  · exact (w.above i hi hge).ne' hzero

end Window

/-- An element put into its place leaves the list sorted. -/
theorem Sorted.insert (hs : Sorted C xs) (w : Window C xs a k k) :
    Sorted C (xs.take k ++ a :: xs.drop k) := by
  have htake : ∀ b ∈ xs.take k, C.cmp b a < 0 := by
    intro b hb
    obtain ⟨i, hi, rfl⟩ := List.mem_iff_getElem.mp hb
    rw [List.length_take] at hi
    rw [List.getElem_take]
    exact w.below i (hi.trans_le (min_le_right _ _)) (hi.trans_le (min_le_left _ _))
  have hdrop : ∀ b ∈ xs.drop k, C.cmp a b < 0 := by
    intro b hb
    obtain ⟨i, hi, rfl⟩ := List.mem_iff_getElem.mp hb
    rw [List.getElem_drop, C.neg_iff]
    exact w.above _ _ (Nat.le_add_right k i)
  refine List.pairwise_append.mpr ⟨hs.sublist (List.take_sublist k xs),
    List.pairwise_cons.mpr ⟨hdrop, hs.sublist (List.drop_sublist k xs)⟩, ?_⟩
  intro b hb c hc
  obtain rfl | hc := List.mem_cons.mp hc
  · exact htake b hb
  · exact C.trans _ _ _ (htake b hb) (hdrop c hc)

end SortedSlots

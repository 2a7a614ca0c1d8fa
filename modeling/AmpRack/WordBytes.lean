import Mathlib.Algebra.Order.Ring.Nat
import Mathlib.Data.List.Flatten
import Mathlib.Tactic.Ring

/-!
# Words as bytes

A number is stored as its little-endian bytes. Bytes that are read into a word that was zero leave the
rest of it zero. A sequence of words of one width is read back word by word.
-/

namespace WordBytes

/-- The low `k` bytes. -/
def toBytes : ℕ → ℕ → List UInt8
  | 0, _ => []
  | k + 1, n => UInt8.ofNat n :: toBytes k (n / 256)

/-- The word that was zero, with the bytes in it. -/
def ofBytes : List UInt8 → ℕ
  | [] => 0
  | b :: bs => b.toNat + 256 * ofBytes bs

@[simp] theorem length_toBytes (k n : ℕ) : (toBytes k n).length = k := by
  induction k generalizing n with
  | zero => rfl
  | succ k ih => rw [toBytes, List.length_cons, ih]

theorem ofBytes_toBytes (k n : ℕ) : ofBytes (toBytes k n) = n % 256 ^ k := by
  induction k generalizing n with
  | zero =>
    rw [pow_zero, Nat.mod_one]
    rfl
  | succ k ih =>
    have hlow : (UInt8.ofNat n).toNat = n % 256 := rfl
    rw [toBytes, ofBytes, ih, hlow, Nat.pow_succ', Nat.mod_mul]

section Words

variable {α β : Type*} {f : α → List β} {k : ℕ}

theorem length_flatMap_word (hf : ∀ a, (f a).length = k) (l : List α) :
    (l.flatMap f).length = k * l.length := by
  induction l with
  | nil => rfl
  | cons a l ih =>
    rw [List.flatMap_cons, List.length_append, hf, ih, List.length_cons]
    ring

theorem take_flatMap_word (hf : ∀ a, (f a).length = k) (a : α) (l : List α) :
    ((a :: l).flatMap f).take k = f a := by
  rw [List.flatMap_cons, List.take_left' (hf a)]

theorem drop_flatMap_word (hf : ∀ a, (f a).length = k) (a : α) (l : List α) :
    ((a :: l).flatMap f).drop k = l.flatMap f := by
  rw [List.flatMap_cons, List.drop_left' (hf a)]

theorem flatMap_concat_word (l : List α) (a : α) : (l ++ [a]).flatMap f = l.flatMap f ++ f a := by
  rw [List.flatMap_append, List.flatMap_singleton]

end Words

end WordBytes

import Mathlib.Algebra.Order.Ring.Nat
import Mathlib.Data.List.Range

/-!
# Spans of a circular memory

A memory of `size` cells is read and written in spans, which must not pass its end. What stands around
the end is a window: the cells from `r` on, taken modulo the size. A window is one span or two, and
putting values behind a window extends it.
-/

namespace RingSpans

variable {α : Type*}

/-- The cells from `pos` on; `none` when they pass the end. -/
def load (size : ℕ) (buf : ℕ → α) (pos n : ℕ) : Option (List α) :=
  if pos + n ≤ size then some ((List.range n).map fun i => buf (pos + i)) else none

/-- The memory with the values from `pos` on. -/
def put (buf : ℕ → α) (pos : ℕ) (xs : List α) : ℕ → α :=
  fun j => if j < pos then buf j else (xs[j - pos]?).getD (buf j)

/-- The values are stored from `pos` on; `none` when they pass the end. -/
def store (size : ℕ) (buf : ℕ → α) (pos : ℕ) (xs : List α) : Option (ℕ → α) :=
  if pos + xs.length ≤ size then some (put buf pos xs) else none

def window (size : ℕ) (buf : ℕ → α) (r n : ℕ) : List α :=
  (List.range n).map fun i => buf ((r + i) % size)

section Put

variable {buf : ℕ → α} {pos j : ℕ} {xs : List α}

theorem put_nil (buf : ℕ → α) (pos : ℕ) : put buf pos [] = buf := by
  funext j
  rw [put, List.getElem?_nil, Option.getD_none, ite_self]

theorem put_inside {i : ℕ} (hi : i < xs.length) : put buf pos xs (pos + i) = xs[i] := by
  rw [put, if_neg (by omega), Nat.add_sub_cancel_left, List.getElem?_eq_getElem hi, Option.getD_some]

theorem put_outside (h : j < pos ∨ pos + xs.length ≤ j) : put buf pos xs j = buf j := by
  rw [put]
  split_ifs with hlt
  · rfl
  · rw [List.getElem?_eq_none (by omega), Option.getD_none]

end Put

section Window

variable {size : ℕ} {buf : ℕ → α} {r n m : ℕ}

@[simp] theorem length_window : (window size buf r n).length = n := by
  rw [window, List.length_map, List.length_range]

theorem window_mod : window size buf (r % size) n = window size buf r n := by
  simp only [window, Nat.mod_add_mod]

theorem window_add :
    window size buf r (n + m) = window size buf r n ++ window size buf (r + n) m := by
  simp only [window, List.range_add, List.map_append, List.map_map, Function.comp_def,
    Nat.add_assoc]

theorem take_window {k : ℕ} (h : k ≤ n) :
    (window size buf r n).take k = window size buf r k := by
  obtain ⟨m, rfl⟩ := Nat.exists_eq_add_of_le h
  rw [window_add, List.take_left' length_window]

theorem drop_window {k : ℕ} (h : k ≤ n) :
    (window size buf r n).drop k = window size buf (r + k) (n - k) := by
  obtain ⟨m, rfl⟩ := Nat.exists_eq_add_of_le h
  rw [window_add, List.drop_left' length_window, Nat.add_sub_cancel_left]

/-- A window that does not reach the end is one span. -/
theorem load_window (h : r + n ≤ size) : load size buf r n = some (window size buf r n) := by
  rw [load, if_pos h, window]
  refine congrArg some (List.map_congr_left fun i hi => ?_)
  have hlt := List.mem_range.mp hi
  rw [Nat.mod_eq_of_lt (by omega)]

theorem window_congr {buf' : ℕ → α} (h : ∀ i, i < n → buf ((r + i) % size) = buf' ((r + i) % size)) :
    window size buf r n = window size buf' r n :=
  List.map_congr_left fun i hi => h i (List.mem_range.mp hi)

/-- The window over values that have just been put there. -/
theorem window_put {xs : List α} (h : r + xs.length ≤ size) :
    window size (put buf r xs) r xs.length = xs := by
  refine List.ext_getElem length_window fun i hi hi' => ?_
  simp only [window, List.getElem_map, List.getElem_range]
  rw [Nat.mod_eq_of_lt (by omega), put_inside hi']

/-- Values that are put behind a window do not touch it, as long as they do not come around to it. -/
theorem window_put_behind {xs : List α} {pos : ℕ} (hpos : pos = (r + n) % size)
    (hend : pos + xs.length ≤ size) (hroom : n + xs.length ≤ size) :
    window size (put buf pos xs) r n = window size buf r n := by
  refine window_congr fun i hi => put_outside ?_
  by_contra hinside
  obtain ⟨hle, hlt⟩ : pos ≤ (r + i) % size ∧ (r + i) % size < pos + xs.length := by omega
  have hsize : 0 < size := by omega
  -- the place of `r + i` lies `d` behind that of `r + n`, which is less than a turn away
  obtain ⟨d, hd⟩ : ∃ d, (r + i) % size = pos + d := Nat.exists_eq_add_of_le hle
  have hmod : (r + n + d) % size = (r + i) % size := by
    rw [Nat.add_mod, ← hpos, hd, Nat.mod_eq_of_lt (show d < size by omega), Nat.mod_eq_of_lt]
    rw [← hd]
    exact Nat.mod_lt _ hsize
  have hdvd : size ∣ (r + n + d) - (r + i) := Nat.dvd_of_mod_eq_zero (Nat.sub_mod_eq_zero_of_mod_eq hmod)
  have hlow : 0 < (r + n + d) - (r + i) := by omega
  have hupp : (r + n + d) - (r + i) < size := by omega
  exact absurd (Nat.le_of_dvd hlow hdvd) hupp.not_ge

/-- What is put behind a window becomes its end. -/
theorem window_extend {q xs : List α} {pos : ℕ} (hq : window size buf r q.length = q)
    (hpos : pos = (r + q.length) % size) (hend : pos + xs.length ≤ size)
    (hroom : q.length + xs.length ≤ size) :
    window size (put buf pos xs) r (q ++ xs).length = q ++ xs := by
  rw [List.length_append, window_add, window_put_behind hpos hend hroom, hq,
    ← window_mod (r := r + q.length), ← hpos, window_put hend]

end Window

end RingSpans

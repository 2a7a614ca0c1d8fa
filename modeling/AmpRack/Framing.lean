import Mathlib.Data.List.Infix
import Mathlib.Tactic.Common

/-!
# Messages that end with a run of one symbol

A receiver reads until it has seen `n` symbols `b` in a row and then drops symbols from the end
until it no longer sees them. `closing` counts the `b` at the end of a text and stays at `n` once it
is reached; a text contains the run exactly when it ends there. `popBack` cuts any text that goes on
past the first run at the same place.
-/

namespace Framing

variable {α β : Type*}

/-- The first run ends at a symbol, in front of which there is none. -/
theorem exists_cut {p : List α → Bool} {xs : List α} (hnil : p [] = false) (h : p xs = true) :
    ∃ ys x zs, xs = ys ++ x :: zs ∧ p ys = false ∧ p (ys ++ [x]) = true := by
  induction xs using List.reverseRecOn with
  | nil =>
    rw [hnil] at h
    cases h
  | append_singleton ys x ih =>
    cases hy : p ys with
    | false => exact ⟨ys, x, [], rfl, hy, h⟩
    | true =>
      obtain ⟨ys', x', zs, rfl, hys', hx'⟩ := ih hy
      exact ⟨ys', x', zs ++ [x], by simp, hys', hx'⟩

/-- The loop on the reversed text. -/
def popFront (p : List α → Bool) : List α → List α
  | [] => []
  | x :: xs => if p (x :: xs).reverse then popFront p xs else x :: xs

/-- `while (p (xs)) xs.pop_back ()`. -/
def popBack (p : List α → Bool) (xs : List α) : List α := (popFront p xs.reverse).reverse

section PopBack

variable {p : List α → Bool}

theorem popBack_concat {xs : List α} {x : α} (h : p (xs ++ [x]) = true) :
    popBack p (xs ++ [x]) = popBack p xs := by
  rw [popBack, popBack, List.reverse_append, List.reverse_singleton, List.singleton_append, popFront,
    if_pos (by rw [List.reverse_cons, List.reverse_reverse]; exact h)]

theorem popBack_of_not {xs : List α} (h : p xs = false) : popBack p xs = xs := by
  rw [popBack]
  cases hx : xs.reverse with
  | nil =>
    rw [List.reverse_eq_nil_iff] at hx
    rw [hx]
    rfl
  | cons y ys =>
    have hxs : (y :: ys).reverse = xs := by rw [← hx, List.reverse_reverse]
    rw [popFront, hxs, if_neg (by rw [h]; exact Bool.false_ne_true), hxs]

/-- Whatever comes after the first run is dropped, and the run with it. -/
theorem popBack_append {ys : List α} {x : α} (hy : p ys = false)
    (hx : ∀ zs, p (ys ++ x :: zs) = true) (zs : List α) : popBack p (ys ++ x :: zs) = ys := by
  induction zs using List.reverseRecOn with
  | nil => rw [popBack_concat (hx []), popBack_of_not hy]
  | append_singleton zs z ih =>
    rw [← List.cons_append, ← List.append_assoc, popBack_concat, ih]
    rw [List.append_assoc]
    exact hx (zs ++ [z])

theorem popBack_ne_nil (hone : ∀ x, p [x] = false) {xs : List α} (hne : xs ≠ []) :
    popBack p xs ≠ [] := by
  induction xs using List.reverseRecOn with
  | nil => exact absurd rfl hne
  | append_singleton ys x ih =>
    cases h : p (ys ++ [x]) with
    | false =>
      rw [popBack_of_not h]
      exact hne
    | true =>
      rw [popBack_concat h]
      apply ih
      rintro rfl
      rw [List.nil_append, hone] at h
      cases h

end PopBack

variable [DecidableEq α] [DecidableEq β]

/-- `xs.find (pattern) != npos`. -/
def contains (pattern : List α) : List α → Bool
  | [] => pattern.isEmpty
  | x :: xs => pattern.isPrefixOf (x :: xs) || contains pattern xs

theorem contains_iff {pattern xs : List α} : contains pattern xs = true ↔ pattern <:+: xs := by
  induction xs with
  | nil => rw [contains, List.isEmpty_iff, List.infix_nil]
  | cons x xs ih =>
    rw [contains, Bool.or_eq_true, List.isPrefixOf_iff_prefix, ih, List.infix_cons_iff]

theorem not_contains_of_length_lt {pattern xs : List α} (h : xs.length < pattern.length) :
    contains pattern xs = false := by
  rw [← Bool.not_eq_true, contains_iff]
  intro hinfix
  have hle := hinfix.length_le
  omega

/-- The number of `b` at the end of a text, `k` of which stand in front of it. -/
def closing (n : ℕ) (b : α) : ℕ → List α → ℕ
  | k, [] => k
  | k, x :: xs => closing n b (if n ≤ k then k else if x = b then k + 1 else 0) xs

section Closing

variable {n k : ℕ} {b : α}

theorem closing_append (k : ℕ) (xs ys : List α) :
    closing n b k (xs ++ ys) = closing n b (closing n b k xs) ys := by
  induction xs generalizing k with
  | nil => rfl
  | cons x xs ih => exact ih _

theorem closing_of_le (h : n ≤ k) (xs : List α) : closing n b k xs = k := by
  induction xs with
  | nil => rfl
  | cons x xs ih => rw [closing, if_pos h, ih]

theorem closing_le (h : k ≤ n) (xs : List α) : closing n b k xs ≤ n := by
  induction xs generalizing k with
  | nil => exact h
  | cons x xs ih =>
    rw [closing]
    apply ih
    split_ifs <;> omega

/-- What has not reached the run has not reached it before. -/
theorem closing_lt_of_append {xs ys : List α} (h : closing n b k (xs ++ ys) < n) :
    closing n b k xs < n := by
  by_contra hle
  rw [closing_append, closing_of_le (not_lt.mp hle)] at h
  exact hle h

/-- Symbols other than `b` start the count anew. -/
theorem closing_of_notMem {xs : List α} (hne : xs ≠ []) (hb : b ∉ xs) (hk : k < n) :
    closing n b k xs = 0 := by
  have hzero (ys : List α) (hys : b ∉ ys) : closing n b 0 ys = 0 := by
    induction ys with
    | nil => rfl
    | cons y ys ih =>
      obtain ⟨hy, hys⟩ := List.ne_and_not_mem_of_not_mem_cons hys
      rw [closing, if_neg (by omega), if_neg hy.symm, ih hys]
  obtain ⟨x, xs, rfl⟩ := List.exists_cons_of_ne_nil hne
  obtain ⟨hx, hxs⟩ := List.ne_and_not_mem_of_not_mem_cons hb
  rw [closing, if_neg (by omega), if_neg hx.symm, hzero xs hxs]

theorem closing_eq_iff (hk : k ≤ n) (xs : List α) :
    closing n b k xs = n ↔
      List.replicate (n - k) b <+: xs ∨ List.replicate n b <:+: xs := by
  induction xs generalizing k with
  | nil =>
    rw [closing, List.prefix_nil, List.infix_nil, List.replicate_eq_nil_iff,
      List.replicate_eq_nil_iff]
    omega
  | cons x xs ih =>
    rw [closing]
    rcases Nat.lt_or_ge k n with hlt | hge
    · obtain ⟨m, hm⟩ : ∃ m, n - k = m + 1 := ⟨n - k - 1, by omega⟩
      obtain ⟨n', rfl⟩ : ∃ n', n = n' + 1 := ⟨n - 1, by omega⟩
      rw [if_neg (by omega), hm, List.infix_cons_iff, List.replicate_succ, List.replicate_succ,
        List.cons_prefix_cons, List.cons_prefix_cons, ← List.replicate_succ]
      by_cases hx : x = b
      · subst hx
        rw [if_pos rfl, ih (by omega), show n' + 1 - (k + 1) = m by omega]
        have hpre : List.replicate n' x <+: xs → List.replicate m x <+: xs :=
          (List.prefix_replicate_iff.mpr ⟨by simp; omega, by simp⟩).trans
        tauto
      · rw [if_neg hx, ih (Nat.zero_le _), Nat.sub_zero]
        have hne : ¬ b = x := fun h => hx h.symm
        have hpre : List.replicate (n' + 1) b <+: xs → List.replicate (n' + 1) b <:+: xs :=
          List.IsPrefix.isInfix
        tauto
    · obtain rfl : k = n := by omega
      rw [if_pos le_rfl, closing_of_le le_rfl, Nat.sub_self]
      simp

theorem contains_iff_closing (xs : List α) :
    contains (List.replicate n b) xs = true ↔ closing n b 0 xs = n := by
  rw [contains_iff, closing_eq_iff (Nat.zero_le n), Nat.sub_zero]
  exact ⟨.inr, fun h => h.elim List.IsPrefix.isInfix id⟩

theorem not_contains_iff_closing (xs : List α) :
    contains (List.replicate n b) xs = false ↔ closing n b 0 xs < n := by
  rw [← Bool.not_eq_true, contains_iff_closing]
  have := closing_le (b := b) (Nat.zero_le n) xs
  omega

/-- A coding that keeps `b`, and starts the count anew for every other symbol, keeps the count. -/
theorem closing_flatMap {f : α → List β} {b' : β} (hb : f b = [b']) {xs : List α}
    (hother : ∀ x ∈ xs, x ≠ b → ∀ k < n, closing n b' k (f x) = 0) (k : ℕ) :
    closing n b' k (xs.flatMap f) = closing n b k xs := by
  induction xs generalizing k with
  | nil => rfl
  | cons x xs ih =>
    obtain ⟨hx, hxs⟩ := List.forall_mem_cons.mp hother
    rw [List.flatMap_cons, closing_append, closing, ih hxs]
    congr 1
    by_cases hk : n ≤ k
    · rw [closing_of_le hk, if_pos hk]
    · by_cases hxb : x = b
      · rw [if_neg hk, if_pos hxb, hxb, hb, closing, if_neg hk, if_pos rfl, closing]
      · rw [if_neg hk, if_neg hxb, hx hxb k (not_le.mp hk)]

end Closing

theorem contains_append {pattern xs : List α} (h : contains pattern xs = true) (ys : List α) :
    contains pattern (xs ++ ys) = true := by
  rw [contains_iff] at h ⊢
  exact h.trans (List.prefix_append xs ys).isInfix

end Framing

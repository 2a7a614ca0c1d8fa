import Mathlib.Algebra.Order.Ring.Nat
import Mathlib.Data.List.Basic

/-!
# Writing items into a bounded buffer

An item is written in pieces. A piece that would pass the end of the buffer is refused and ends its
item, but the items after it are still tried, so a short one may follow where a long one was left
out. The offset is the number of bytes written so far.
-/

namespace BoundedWriter

/-- The next multiple of `a`. -/
def alignUp (a n : ℕ) : ℕ := (n + a - 1) / a * a

/-- What is missing to the next multiple of `a`. -/
def padding (a n : ℕ) : ℕ := alignUp a n - n

/-- The offset after an item with these pieces. -/
def writeItem (capacity offset : ℕ) : List ℕ → ℕ
  | [] => offset
  | n :: ns => if offset + n ≤ capacity then writeItem capacity (offset + n) ns else offset

/-- The offset after these items. -/
def writeItems (capacity offset : ℕ) (items : List (List ℕ)) : ℕ :=
  items.foldl (writeItem capacity) offset

section Align

variable {a : ℕ}

theorem le_alignUp (ha : 0 < a) (n : ℕ) : n ≤ alignUp a n := by
  have hdiv := Nat.div_add_mod' (n + a - 1) a
  have hmod := Nat.mod_lt (n + a - 1) ha
  unfold alignUp
  omega

theorem add_padding (ha : 0 < a) (n : ℕ) : n + padding a n = alignUp a n :=
  Nat.add_sub_of_le (le_alignUp ha n)

theorem padding_lt (ha : 0 < a) (n : ℕ) : padding a n < a := by
  have hle : alignUp a n ≤ n + a - 1 := Nat.div_mul_le_self _ _
  unfold padding
  omega

end Align

section Item

variable {capacity offset : ℕ} {n k : ℕ} {ns : List ℕ}

theorem writeItem_of_fit (h : offset + n ≤ capacity) :
    writeItem capacity offset (n :: ns) = writeItem capacity (offset + n) ns := if_pos h

theorem writeItem_of_refused (h : capacity < offset + n) :
    writeItem capacity offset (n :: ns) = offset := if_neg h.not_ge

theorem le_writeItem (capacity offset : ℕ) (ns : List ℕ) :
    offset ≤ writeItem capacity offset ns := by
  induction ns generalizing offset with
  | nil => exact le_rfl
  | cons n ns ih =>
    rw [writeItem]
    split_ifs
    · exact (Nat.le_add_right offset n).trans (ih (offset + n))
    · exact le_rfl

theorem writeItem_le (h : offset ≤ capacity) (ns : List ℕ) :
    writeItem capacity offset ns ≤ capacity := by
  induction ns generalizing offset with
  | nil => exact h
  | cons n ns ih =>
    rw [writeItem]
    split_ifs with hfit
    · exact ih hfit
    · exact h

theorem writeItem_of_fits (h : offset + ns.sum ≤ capacity) :
    writeItem capacity offset ns = offset + ns.sum := by
  induction ns generalizing offset with
  | nil => rfl
  | cons n ns ih =>
    rw [List.sum_cons] at h ⊢
    rw [writeItem_of_fit (by omega), ih (by omega), Nat.add_assoc]

/-- An item is written whole, or one of its pieces has no room behind it. -/
theorem writeItem_full_or_short (capacity offset : ℕ) (ns : List ℕ) :
    writeItem capacity offset ns = offset + ns.sum ∨
      ∃ n ∈ ns, capacity < writeItem capacity offset ns + n := by
  induction ns generalizing offset with
  | nil => exact .inl rfl
  | cons n ns ih =>
    by_cases hfit : offset + n ≤ capacity
    · rw [writeItem_of_fit hfit, List.sum_cons, ← Nat.add_assoc]
      exact (ih (offset + n)).imp_right fun ⟨m, hm, hlt⟩ => ⟨m, List.mem_cons_of_mem n hm, hlt⟩
    · have hrefused : capacity < offset + n := not_le.mp hfit
      rw [writeItem_of_refused hrefused]
      exact .inr ⟨n, List.mem_cons_self, hrefused⟩

/-- Where there is room for less than two pieces of a size, an item that begins with one leaves room
for less than one. -/
theorem lt_writeItem_add (h : capacity < offset + k + k) (ns : List ℕ) :
    capacity < writeItem capacity offset (k :: ns) + k := by
  by_cases hfit : offset + k ≤ capacity
  · have hle := le_writeItem capacity (offset + k) ns
    rw [writeItem_of_fit hfit]
    omega
  · rw [writeItem_of_refused (not_le.mp hfit)]
    exact not_le.mp hfit

end Item

section Items

variable {capacity offset : ℕ} {ns : List ℕ} {items : List (List ℕ)}

theorem writeItems_cons (capacity offset : ℕ) (ns : List ℕ) (items : List (List ℕ)) :
    writeItems capacity offset (ns :: items) =
      writeItems capacity (writeItem capacity offset ns) items := rfl

theorem writeItems_append (capacity offset : ℕ) (items items' : List (List ℕ)) :
    writeItems capacity offset (items ++ items') =
      writeItems capacity (writeItems capacity offset items) items' := List.foldl_append

theorem le_writeItems (capacity offset : ℕ) (items : List (List ℕ)) :
    offset ≤ writeItems capacity offset items := by
  induction items generalizing offset with
  | nil => exact le_rfl
  | cons ns items ih =>
    rw [writeItems_cons]
    exact (le_writeItem capacity offset ns).trans (ih _)

/-- The writer does not pass the end of the buffer. -/
theorem writeItems_le (h : offset ≤ capacity) (items : List (List ℕ)) :
    writeItems capacity offset items ≤ capacity := by
  induction items generalizing offset with
  | nil => exact h
  | cons ns items ih =>
    rw [writeItems_cons]
    exact ih (writeItem_le h ns)

theorem writeItems_of_fits (h : offset + items.flatten.sum ≤ capacity) :
    writeItems capacity offset items = offset + items.flatten.sum := by
  induction items generalizing offset with
  | nil => rfl
  | cons ns items ih =>
    rw [List.flatten_cons, List.sum_append] at h ⊢
    rw [writeItems_cons, writeItem_of_fits (by omega), ih (by omega), Nat.add_assoc]

/-- The items are written whole, or there is less room left than the longest piece takes. -/
theorem writeItems_full_or_short (capacity offset : ℕ) {k : ℕ}
    (hk : ∀ n ∈ items.flatten, n ≤ k) : writeItems capacity offset items = offset + items.flatten.sum ∨
      capacity < writeItems capacity offset items + k := by
  induction items generalizing offset with
  | nil => exact .inl rfl
  | cons ns items ih =>
    rw [List.flatten_cons] at hk ⊢
    rw [writeItems_cons, List.sum_append, ← Nat.add_assoc]
    rcases writeItem_full_or_short capacity offset ns with hfull | ⟨n, hn, hshort⟩
    · rw [hfull]
      exact ih _ fun n hn => hk n (List.mem_append_right ns hn)
    · have hle := le_writeItems capacity (writeItem capacity offset ns) items
      have hnk := hk n (List.mem_append_left _ hn)
      exact .inr (by omega)

end Items

end BoundedWriter

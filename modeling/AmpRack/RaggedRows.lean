import Mathlib.Data.List.Basic
import Mathlib.Tactic.Common

/-!
# Walking through rows of different lengths

A cursor goes through the cells of a table row by row and jumps to the next row at the end of one.
After `k` moves it stands at the cell that is number `k` when the rows are put in line.
-/

namespace RaggedRows

variable {α : Type*}

/-- The cursor after one cell of a row of this length. -/
def next (size : ℕ) (p : ℕ × ℕ) : ℕ × ℕ :=
  if size ≤ p.2 + 1 then (p.1 + 1, 0) else (p.1, p.2 + 1)

/-- The row that cell number `k` is in. -/
def rowOf : List (List α) → ℕ → ℕ
  | [], _ => 0
  | row :: rows, k => if k < row.length then 0 else rowOf rows (k - row.length) + 1

/-- The cursor has `k` cells behind it, and is inside a row or in front of one. -/
structure StandsAt (rows : List (List α)) (k : ℕ) (p : ℕ × ℕ) : Prop where
  count : (rows.take p.1).flatten.length + p.2 = k
  inside : p.2 ≠ 0 → ∃ row, rows[p.1]? = some row ∧ p.2 < row.length

variable {rows : List (List α)} {row : List α} {k : ℕ} {p : ℕ × ℕ}

theorem standsAt_zero (rows : List (List α)) : StandsAt rows 0 (0, 0) :=
  ⟨rfl, fun h => absurd rfl h⟩

theorem flatten_of_getElem? {i : ℕ} (h : rows[i]? = some row) :
    rows.flatten = (rows.take i).flatten ++ (row ++ (rows.drop (i + 1)).flatten) := by
  obtain ⟨hlt, rfl⟩ := List.getElem?_eq_some_iff.mp h
  conv_lhs => rw [← List.take_append_drop i rows, List.flatten_append,
    List.drop_eq_getElem_cons hlt, List.flatten_cons]

/-- As long as there are cells, the cursor stands at one. -/
theorem StandsAt.exists_row (h : StandsAt rows k p) (hne : ∀ row ∈ rows, row ≠ [])
    (hk : k < rows.flatten.length) : ∃ row, rows[p.1]? = some row ∧ p.2 < row.length := by
  by_cases hzero : p.2 = 0
  · have hlt : p.1 < rows.length := by
      by_contra hge
      have hcount := h.count
      rw [List.take_of_length_le (Nat.not_lt.mp hge)] at hcount
      omega
    refine ⟨rows[p.1], List.getElem?_eq_getElem hlt, ?_⟩
    rw [hzero]
    exact List.length_pos_iff.mpr (hne _ (List.getElem_mem hlt))
  · exact h.inside hzero

theorem StandsAt.cell (h : StandsAt rows k p) (hrow : rows[p.1]? = some row)
    (hlt : p.2 < row.length) : row[p.2]? = rows.flatten[k]? := by
  rw [flatten_of_getElem? hrow, ← h.count, List.getElem?_append_right (Nat.le_add_right _ _),
    Nat.add_sub_cancel_left, List.getElem?_append_left hlt]

theorem StandsAt.next (h : StandsAt rows k p) (hrow : rows[p.1]? = some row)
    (hlt : p.2 < row.length) : StandsAt rows (k + 1) (next row.length p) := by
  have hcount := h.count
  rw [RaggedRows.next]
  split_ifs with hend
  · refine ⟨?_, fun hne => absurd rfl hne⟩
    obtain ⟨hp, rfl⟩ := List.getElem?_eq_some_iff.mp hrow
    rw [List.take_succ_eq_append_getElem hp, List.flatten_append, List.length_append]
    simp only [List.flatten_cons, List.flatten_nil, List.append_nil]
    omega
  · refine ⟨?_, fun _ => ⟨row, hrow, by omega⟩⟩
    change (rows.take p.1).flatten.length + (p.2 + 1) = k + 1
    omega

theorem rowOf_eq {i : ℕ} (hrow : rows[i]? = some row) {c : ℕ} (hlt : c < row.length) :
    rowOf rows ((rows.take i).flatten.length + c) = i := by
  induction rows generalizing i with
  | nil => cases hrow
  | cons r rows ih =>
    cases i with
    | zero =>
      cases hrow
      simp [rowOf, hlt]
    | succ i =>
      rw [List.getElem?_cons_succ] at hrow
      have hcount := ih hrow
      rw [List.take_succ_cons, List.flatten_cons, List.length_append, rowOf, if_neg (by omega),
        Nat.add_assoc, Nat.add_sub_cancel_left, hcount]

/-- The row of the cursor is that of its cell. -/
theorem StandsAt.rowOf (h : StandsAt rows k p) (hrow : rows[p.1]? = some row)
    (hlt : p.2 < row.length) : rowOf rows k = p.1 := by
  rw [← h.count]
  exact rowOf_eq hrow hlt

end RaggedRows

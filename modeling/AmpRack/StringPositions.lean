import Mathlib.Data.List.Basic
import Mathlib.Data.List.TakeDrop

/-!
# Positions in a string

`findFrom` is the position of the first occurrence of a character at or after a position, and `substr`
the characters from a position on, at most as many as are asked for; it has no result when the
position lies behind the end. The rules cut a string around a part that the character is not in.
-/

namespace StringPositions

variable {α : Type*}

def substr (s : List α) (pos count : ℕ) : Option (List α) :=
  if pos ≤ s.length then some ((s.drop pos).take count) else none

theorem substr_eq_some {s t : List α} {pos count : ℕ} :
    substr s pos count = some t ↔ pos ≤ s.length ∧ (s.drop pos).take count = t := by
  rw [substr]
  split_ifs with h
  · simp [h]
  · simp [h]

theorem substr_append (before part after : List α) :
    substr (before ++ (part ++ after)) before.length part.length = some part := by
  rw [substr_eq_some, List.drop_left, List.take_left]
  exact ⟨by simp, rfl⟩

/-- The rest of the string, when at least as much is asked for. -/
theorem substr_rest (before : List α) {part : List α} {count : ℕ} (h : part.length ≤ count) :
    substr (before ++ part) before.length count = some part := by
  rw [substr_eq_some, List.drop_left, List.take_of_length_le h]
  exact ⟨by simp, rfl⟩

/-- A count that yields the part in front of some character is the length of that part. -/
theorem eq_length_of_take {part after : List α} {c : α} {count : ℕ}
    (h : (part ++ c :: after).take count = part) : count = part.length := by
  have hlen := congrArg List.length h
  simp only [List.length_take, List.length_append, List.length_cons] at hlen
  omega

variable [DecidableEq α]

def findFrom (c : α) (s : List α) (pos : ℕ) : Option ℕ :=
  if c ∈ s.drop pos then some (pos + (s.drop pos).idxOf c) else none

theorem idxOf_append_cons {c : α} {part : List α} (h : c ∉ part) (after : List α) :
    (part ++ c :: after).idxOf c = part.length := by
  rw [List.idxOf_append_of_notMem h, List.idxOf_cons_self, Nat.add_zero]

theorem findFrom_append {c : α} (before : List α) {part : List α} (h : c ∉ part)
    (after : List α) :
    findFrom c (before ++ (part ++ c :: after)) before.length =
      some (before.length + part.length) := by
  rw [findFrom, List.drop_left, if_pos (by simp), idxOf_append_cons h]

theorem findFrom_rest {c : α} (before : List α) {part : List α} (h : c ∉ part) :
    findFrom c (before ++ part) before.length = none := by
  rw [findFrom, List.drop_left, if_neg h]

end StringPositions

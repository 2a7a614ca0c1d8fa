import AmpRack.VectorEdits

/-!
# The children of a container widget

A container keeps its children in order, without repetitions. `nextSibling` and `prevSibling` read
the order, `reorderChildAfter` moves a child behind a sibling or, given no sibling, to the front.
Each is characterised on a list split at the child.
-/

namespace BoxOrder

open VectorEdits

variable {α : Type*} [DecidableEq α]

def nextSibling (c : α) : List α → Option α
  | [] => none
  | x :: xs => if x = c then xs.head? else nextSibling c xs

def prevSibling (c : α) : List α → Option α
  | x :: y :: xs =>
    if x = c then none else if y = c then some x else prevSibling c (y :: xs)
  | _ => none

def insertAfter (sibling child : α) : List α → List α
  | [] => []
  | x :: xs => if x = sibling then x :: child :: xs else x :: insertAfter sibling child xs

def reorderChildAfter (children : List α) (child : α) : Option α → List α
  | none => child :: children.erase child
  | some sibling => insertAfter sibling child (children.erase child)

theorem mem_of_prevSibling {xs : List α} {c u : α} (h : prevSibling c xs = some u) : u ∈ xs := by
  fun_induction prevSibling c xs with
  | case1 => cases h
  | case2 x ys =>
    cases h
    exact List.mem_cons_self
  | case3 x y ys _ _ ih => exact List.mem_cons_of_mem x (ih h)
  | case4 => cases h

theorem mem_insertAfter {xs : List α} {s c x : α} (h : x ∈ insertAfter s c xs) : x = c ∨ x ∈ xs := by
  induction xs with
  | nil => cases h
  | cons y ys ih =>
    rw [insertAfter] at h
    split_ifs at h
    · rcases List.mem_cons.mp h with rfl | h
      · exact .inr List.mem_cons_self
      · exact (List.mem_cons.mp h).imp_right (List.mem_cons_of_mem y)
    · rcases List.mem_cons.mp h with rfl | h
      · exact .inr List.mem_cons_self
      · exact (ih h).imp_right (List.mem_cons_of_mem y)

theorem mem_reorderChildAfter {xs : List α} {c x : α} {s : Option α}
    (h : x ∈ reorderChildAfter xs c s) : x = c ∨ x ∈ xs := by
  cases s with
  | none => exact (List.mem_cons.mp h).imp_right List.mem_of_mem_erase
  | some s => exact (mem_insertAfter h).imp_right List.mem_of_mem_erase

end BoxOrder

import Mathlib.Algebra.BigOperators.Group.Finset.Basic
import Mathlib.Algebra.Order.BigOperators.Group.Finset
import Mathlib.Algebra.Order.Group.Multiset
import Mathlib.Data.Multiset.UnionInter

/-!
# Things that change hands

There are finitely many places, and each has a list of things. A thing passes from one place to
another, or comes in from outside. Whatever passes, all the places together have the same things; and
as long as no thing is there twice, no two places have the same one.
-/

namespace Custody

variable {ι α : Type*} [Fintype ι]

/-- All that the places have. -/
def total (c : ι → List α) : Multiset α := ∑ i, (c i : Multiset α)

/-- `a` goes from `i` to `j`, wherever in their lists that is, and the other places keep what they
have. -/
structure Passes (i j : ι) (a : α) (c c' : ι → List α) : Prop where
  ne : i ≠ j
  source : (c i).Perm (a :: c' i)
  target : (c' j).Perm (a :: c j)
  others : ∀ k, k ≠ i → k ≠ j → c' k = c k

/-- The things `l` come to `i`. -/
structure Enters (i : ι) (l : List α) (c c' : ι → List α) : Prop where
  target : (c' i).Perm (l ++ c i)
  others : ∀ k, k ≠ i → c' k = c k

/-- What passes has left `l` behind, and comes last. -/
def pass [DecidableEq ι] (c : ι → List α) (i j : ι) (l : List α) (a : α) : ι → List α :=
  Function.update (Function.update c i l) j (c j ++ [a])

section Total

variable {c c' : ι → List α} {i j : ι} {a : α} {l : List α}

theorem mem_total : a ∈ total c ↔ ∃ i, a ∈ c i := by
  simp only [total, Multiset.mem_sum, Finset.mem_univ, true_and, Multiset.mem_coe]

theorem le_total (c : ι → List α) (i : ι) : (c i : Multiset α) ≤ total c :=
  Finset.single_le_sum (fun _ _ => Multiset.zero_le _) (Finset.mem_univ i)

theorem length_le_card_total (c : ι → List α) (i : ι) : (c i).length ≤ (total c).card :=
  Multiset.card_le_card (le_total c i)

theorem total_eq_zero (h : ∀ i, c i = []) : total c = 0 := by
  apply Finset.sum_eq_zero
  intro i _
  rw [h i]
  rfl

variable [DecidableEq ι]

theorem total_eq_add_erase (c : ι → List α) (i : ι) :
    total c = (c i : Multiset α) + ∑ k ∈ Finset.univ.erase i, (c k : Multiset α) :=
  (Finset.add_sum_erase _ _ (Finset.mem_univ i)).symm

theorem Enters.total_eq (h : Enters i l c c') : total c' = (l : Multiset α) + total c := by
  have hothers : ∑ k ∈ Finset.univ.erase i, (c' k : Multiset α) =
      ∑ k ∈ Finset.univ.erase i, (c k : Multiset α) := by
    apply Finset.sum_congr rfl
    intro k hk
    rw [h.others k (Finset.ne_of_mem_erase hk)]
  rw [total_eq_add_erase c' i, total_eq_add_erase c i, hothers, Multiset.coe_eq_coe.mpr h.target,
    ← Multiset.coe_add, add_assoc]

/-- What passes has gone out at one place and come in at another. -/
theorem Passes.total_eq (h : Passes i j a c c') : total c' = total c := by
  have hout : Enters i [a] (Function.update c i (c' i)) c := by
    constructor
    · rw [Function.update_self]
      exact h.source
    · intro k hk
      rw [Function.update_of_ne hk]
  have hin : Enters j [a] (Function.update c i (c' i)) c' := by
    constructor
    · rw [Function.update_of_ne h.ne.symm]
      exact h.target
    · intro k hk
      obtain rfl | hki := eq_or_ne k i
      · rw [Function.update_self]
      · rw [Function.update_of_ne hki]
        exact h.others k hki hk
  rw [hout.total_eq, hin.total_eq]

omit [Fintype ι] in
theorem passes_pass (hij : i ≠ j) (hl : (c i).Perm (a :: l)) : Passes i j a c (pass c i j l a) where
  ne := hij
  source := by rwa [pass, Function.update_of_ne hij, Function.update_self]
  target := by
    rw [pass, Function.update_self]
    exact List.perm_append_singleton a (c j)
  others := by
    intro k hki hkj
    rw [pass, Function.update_of_ne hkj, Function.update_of_ne hki]

omit [DecidableEq ι] in
theorem nodup_of_total (h : (total c).Nodup) (i : ι) : (c i).Nodup :=
  Multiset.coe_nodup.mp (Multiset.nodup_of_le (le_total c i) h)

/-- Where nothing is there twice, no two places have the same thing. -/
theorem disjoint_of_total (h : (total c).Nodup) (hij : i ≠ j) : (c i).Disjoint (c j) := by
  have hrest : (c j : Multiset α) ≤ ∑ k ∈ Finset.univ.erase i, (c k : Multiset α) :=
    Finset.single_le_sum (f := fun k => (c k : Multiset α)) (fun _ _ => Multiset.zero_le _)
      (Finset.mem_erase.mpr ⟨hij.symm, Finset.mem_univ j⟩)
  have hle : (c i : Multiset α) + (c j : Multiset α) ≤ total c := by
    rw [total_eq_add_erase c i]
    gcongr
  have hnodup : (c i ++ c j).Nodup := by
    rw [← Multiset.coe_nodup, ← Multiset.coe_add]
    exact Multiset.nodup_of_le hle h
  exact List.disjoint_of_nodup_append hnodup

end Total

end Custody

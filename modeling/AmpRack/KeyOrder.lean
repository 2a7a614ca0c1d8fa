import AmpRack.JsonMembers
import Mathlib.Order.Lattice

/-!
# Numbers in the order of their texts

An object whose keys are the numbers of a list goes through the list in the order in which the
numbers compare as texts. `keyOrder` is that order. Of the elements that a walk picks out, it comes
to the same two first exactly when they are first as texts too, and to all of them in the same order
exactly when their texts increase.
-/

namespace JsonText

section FirstTwo

variable {α β : Type*} [Preorder β]

/-- The first two elements have the least keys, if there are two. -/
def FirstTwo (key : α → β) : List α → Prop
  | a :: b :: rest => key a < key b ∧ ∀ c ∈ rest, key b < key c
  | _ => True

instance (key : α → β) [∀ x y : β, Decidable (x < y)] (l : List α) : Decidable (FirstTwo key l) :=
  match l with
  | [] => .isTrue trivial
  | [_] => .isTrue trivial
  | a :: b :: rest =>
    inferInstanceAs (Decidable (key a < key b ∧ ∀ c ∈ rest, key b < key c))

variable {key : α → β}

theorem eq_of_perm_of_pairwise {l l' : List α} (hp : l'.Perm l)
    (hs : l.Pairwise fun a b => key a < key b) (hs' : l'.Pairwise fun a b => key a < key b) :
    l' = l :=
  hp.eq_of_pairwise (fun _ _ _ _ hab hba => absurd hba hab.not_gt) hs' hs

/-- The element with the least key heads the list in the order of the keys. -/
theorem head_eq_of_perm {a x : α} {l l' : List α} (hp : (x :: l').Perm (a :: l))
    (hs : (x :: l').Pairwise fun a b => key a < key b) (ha : ∀ c ∈ l, key a < key c) : x = a := by
  have hx : x ∈ a :: l := hp.subset List.mem_cons_self
  rcases List.mem_cons.mp hx with rfl | hx
  · rfl
  · rcases List.mem_cons.mp (hp.symm.subset List.mem_cons_self) with rfl | hmem
    · rfl
    · exact absurd (List.rel_of_pairwise_cons hs hmem) (ha x hx).not_gt

theorem take_two_eq_iff {l l' : List α} (hp : l'.Perm l)
    (hs : l'.Pairwise fun a b => key a < key b) : l'.take 2 = l.take 2 ↔ FirstTwo key l := by
  match l, hp with
  | [], hp =>
    rw [hp.eq_nil]
    exact iff_of_true rfl trivial
  | [a], hp =>
    rw [List.perm_singleton.mp hp]
    exact iff_of_true rfl trivial
  | a :: b :: rest, hp =>
    match l', hp, hs with
    | [], hp, _ => cases hp.symm.eq_nil
    | [x], hp, _ => cases List.singleton_perm.mp hp
    | x :: y :: rest', hp, hs =>
      obtain ⟨hx, hs'⟩ := List.pairwise_cons.mp hs
      constructor
      · intro h
        cases h
        refine ⟨hx b List.mem_cons_self, fun c hc => ?_⟩
        have hrest : rest'.Perm rest := ((List.perm_cons _).mp ((List.perm_cons _).mp hp))
        exact List.rel_of_pairwise_cons hs' (hrest.symm.subset hc)
      · rintro ⟨hab, hb⟩
        have hfirst : x = a := by
          apply head_eq_of_perm hp hs
          intro c hc
          rcases List.mem_cons.mp hc with rfl | hc
          · exact hab
          · exact hab.trans (hb c hc)
        subst hfirst
        rw [head_eq_of_perm ((List.perm_cons _).mp hp) hs' hb]
        rfl

end FirstTwo

section KeyOrder

/-- The numbers below `n` in the order of their texts. -/
def keyOrder (n : ℕ) : List ℕ :=
  (numbered (List.replicate n .null)).map fun m => Nat.ofDigitChars 10 m.1 0

variable {n : ℕ} {p : ℕ → Bool}

theorem numbered_map_perm (js : List Json) :
    (numbered js).Perm ((List.range js.length).map fun i => (Nat.toDigits 10 i, js.getD i .null)) := by
  refine (numbered_perm js).trans (.of_eq ?_)
  apply List.ext_getElem
  · simp
  · intro i hi hi'
    simp only [List.length_map, List.length_zipIdx] at hi
    simp [List.getElem?_eq_getElem hi]

theorem keyOrder_perm (n : ℕ) : (keyOrder n).Perm (List.range n) := by
  refine ((numbered_map_perm (List.replicate n .null)).map _).trans (.of_eq ?_)
  rw [List.map_map, List.length_replicate]
  refine (List.map_congr_left fun i _ => ?_).trans (List.map_id _)
  exact Nat.ofDigitChars_ten_toDigits

theorem pairwise_keyOrder (n : ℕ) :
    (keyOrder n).Pairwise fun i j => Nat.toDigits 10 i < Nat.toDigits 10 j := by
  have hsorted := sortedKeys_numbered (List.replicate n .null)
  rw [SortedKeys, List.pairwise_map] at hsorted
  rw [keyOrder, List.pairwise_map]
  refine hsorted.imp_of_mem fun {m m'} hm hm' hlt => ?_
  obtain ⟨-, i, hi⟩ := exists_of_mem_numbered hm
  obtain ⟨-, j, hj⟩ := exists_of_mem_numbered hm'
  rw [hi, hj] at hlt ⊢
  simpa only [Nat.ofDigitChars_ten_toDigits] using hlt

/-- The members of the object in the order in which it has them. -/
theorem numbered_eq_map (js : List Json) :
    numbered js = (keyOrder js.length).map fun i => (Nat.toDigits 10 i, js.getD i .null) := by
  have hperm := (numbered_map_perm js).trans ((keyOrder_perm js.length).map _).symm
  have hsorted : (numbered js).Pairwise fun m m' => m.1 < m'.1 :=
    List.pairwise_map.mp (sortedKeys_numbered js)
  exact eq_of_perm_of_pairwise hperm
    (List.pairwise_map.mpr (pairwise_keyOrder js.length)) hsorted

theorem filter_keyOrder_perm (n : ℕ) (p : ℕ → Bool) :
    ((keyOrder n).filter p).Perm ((List.range n).filter p) :=
  (keyOrder_perm n).filter p

theorem take_two_keyOrder_iff : ((keyOrder n).filter p).take 2 = ((List.range n).filter p).take 2 ↔
    FirstTwo (Nat.toDigits 10) ((List.range n).filter p) :=
  take_two_eq_iff (filter_keyOrder_perm n p) ((pairwise_keyOrder n).filter p)

theorem filter_keyOrder_iff : (keyOrder n).filter p = (List.range n).filter p ↔
    ((List.range n).filter p).Pairwise fun i j => Nat.toDigits 10 i < Nat.toDigits 10 j := by
  have hs := (pairwise_keyOrder n).filter p
  constructor
  · intro h
    rwa [h] at hs
  · exact fun hs' => eq_of_perm_of_pairwise (filter_keyOrder_perm n p) hs' hs

/-- Up to ten numbers the two orders are one. -/
theorem keyOrder_of_le (h : n ≤ 10) : keyOrder n = List.range n := by
  apply eq_of_perm_of_pairwise (keyOrder_perm n) ?_ (pairwise_keyOrder n)
  apply List.pairwise_lt_range.imp_of_mem
  intro i j _ hj hij
  exact toDigits_lt_toDigits ((List.mem_range.mp hj).trans_le h) hij

end KeyOrder

end JsonText

import Mathlib.Algebra.Order.Ring.Int
import Mathlib.Data.List.Nodup

/-!
# Indexed edits of a vector

A vector is a list; an index is an `ℤ`, as code that computes indices in `int` has it. An edit
outside the vector is `none`. `rotate` is the three-iterator rotation, whose shortest case
`exchange` swaps two neighbours. On a vector without repetitions an erasure and an exchange each
determine their index.
-/

namespace VectorEdits

variable {α β : Type*}

def at? (xs : List α) (i : ℤ) : Option α := if 0 ≤ i then xs[i.toNat]? else none

def modifyAt (xs : List α) (i : ℤ) (f : α → α) : Option (List α) :=
  if 0 ≤ i ∧ i < xs.length then some (xs.modify i.toNat f) else none

def eraseAt (xs : List α) (i : ℤ) : Option (List α) :=
  if 0 ≤ i ∧ i < xs.length then some (xs.eraseIdx i.toNat) else none

def rotate (xs : List α) (first middle last : ℤ) : Option (List α) :=
  if 0 ≤ first ∧ first ≤ middle ∧ middle ≤ last ∧ last ≤ xs.length then
    some (xs.take first.toNat ++ (xs.take last.toNat).drop middle.toNat ++
      (xs.take middle.toNat).drop first.toNat ++ xs.drop last.toNat)
  else none

def exchange (xs : List α) (i : ℕ) : List α :=
  xs.take i ++ (xs.take (i + 2)).drop (i + 1) ++ (xs.take (i + 1)).drop i ++ xs.drop (i + 2)

@[simp] theorem at?_natCast (xs : List α) (i : ℕ) : at? xs i = xs[i]? := by
  simp [at?]

theorem at?_eq_some {xs : List α} {i : ℤ} {a : α} (h : at? xs i = some a) :
    ∃ k : ℕ, i = k ∧ xs[k]? = some a := by
  unfold at? at h
  split_ifs at h with hi
  exact ⟨i.toNat, (Int.toNat_of_nonneg hi).symm, h⟩

@[simp] theorem modifyAt_natCast (xs : List α) (i : ℕ) (f : α → α) :
    modifyAt xs i f = if i < xs.length then some (xs.modify i f) else none := by
  simp [modifyAt]

theorem map_modify {f : α → α} {g : α → β} {f' : β → β}
    (h : ∀ a, g (f a) = f' (g a)) (xs : List α) (i : ℕ) :
    (xs.modify i f).map g = (xs.map g).modify i f' := by
  apply List.ext_getElem?
  intro k
  simp only [List.getElem?_map, List.getElem?_modify]
  split_ifs <;> cases xs[k]? <;> simp [h]

theorem map_modify_of_eq {f : α → α} {g : α → β} (h : ∀ a, g (f a) = g a)
    (xs : List α) (i : ℕ) : (xs.modify i f).map g = xs.map g := by
  have hid : ∀ a, g (f a) = id (g a) := h
  rw [map_modify hid, List.modify_id]

theorem modifyAt_eq_some {xs ys : List α} {i : ℤ} {f : α → α} (h : modifyAt xs i f = some ys) :
    ∃ k : ℕ, i = k ∧ k < xs.length ∧ ys = xs.modify k f := by
  unfold modifyAt at h
  split_ifs at h with hi
  obtain ⟨k, rfl⟩ := Int.eq_ofNat_of_zero_le hi.1
  exact ⟨k, rfl, by simpa using hi.2, by simpa using h.symm⟩

@[simp] theorem eraseAt_natCast (xs : List α) (i : ℕ) :
    eraseAt xs i = if i < xs.length then some (xs.eraseIdx i) else none := by
  simp [eraseAt]

theorem eraseAt_eq_some {xs ys : List α} {i : ℤ} (h : eraseAt xs i = some ys) :
    ∃ k : ℕ, i = k ∧ k < xs.length ∧ ys = xs.eraseIdx k := by
  unfold eraseAt at h
  split_ifs at h with hi
  obtain ⟨k, rfl⟩ := Int.eq_ofNat_of_zero_le hi.1
  exact ⟨k, rfl, by simpa using hi.2, by simpa using h.symm⟩

theorem rotate_eq_exchange (xs : List α) {i : ℕ} (h : i + 1 < xs.length) :
    rotate xs i (i + 1) (i + 2) = some (exchange xs i) := by
  have hcond : (0 : ℤ) ≤ i ∧ (i : ℤ) ≤ i + 1 ∧ (i + 1 : ℤ) ≤ i + 2 ∧ (i + 2 : ℤ) ≤ xs.length := by
    omega
  have h1 : ((i : ℤ) + 1).toNat = i + 1 := by omega
  have h2 : ((i : ℤ) + 2).toNat = i + 2 := by omega
  simp only [rotate, if_pos hcond, h1, h2, Int.toNat_natCast, exchange]

theorem rotate_eq_some {xs ys : List α} {p q r : ℤ} (hq : q = p + 1) (hr : r = p + 2)
    (h : rotate xs p q r = some ys) :
    ∃ k : ℕ, p = k ∧ k + 1 < xs.length ∧ ys = exchange xs k := by
  subst hq hr
  have hcond : 0 ≤ p ∧ p + 2 ≤ xs.length := by
    unfold rotate at h
    split_ifs at h with hc
    exact ⟨hc.1, hc.2.2.2⟩
  obtain ⟨k, rfl⟩ := Int.eq_ofNat_of_zero_le hcond.1
  have hk : k + 1 < xs.length := by omega
  rw [rotate_eq_exchange xs hk] at h
  exact ⟨k, rfl, hk, by simpa using h.symm⟩

theorem exchange_append (l r : List α) (a b : α) :
    exchange (l ++ a :: b :: r) l.length = l ++ b :: a :: r := by
  have h1 : List.take (l.length + 1) (l ++ a :: b :: r) = l ++ [a] := by
    simp [List.take_append, List.take_of_length_le]
  have h2 : List.take (l.length + 2) (l ++ a :: b :: r) = l ++ [a, b] := by
    simp [List.take_append, List.take_of_length_le]
  have h3 : List.drop (l.length + 2) (l ++ a :: b :: r) = r := by
    simp [List.drop_append]
  simp only [exchange, h1, h2, h3, List.take_left, List.drop_left]
  simp [List.drop_append]

theorem exists_append_of_lt {xs : List α} {i : ℕ} (h : i + 1 < xs.length) :
    ∃ l a b r, xs = l ++ a :: b :: r ∧ l.length = i := by
  refine ⟨xs.take i, xs[i], xs[i + 1], xs.drop (i + 2), ?_, by simp; omega⟩
  rw [List.getElem_cons_drop, List.getElem_cons_drop, List.take_append_drop]

theorem exists_append_of_getElem? {xs : List α} {i : ℕ} {a : α} (h : xs[i]? = some a) :
    ∃ l r, xs = l ++ a :: r ∧ l.length = i := by
  obtain ⟨hi, rfl⟩ := List.getElem?_eq_some_iff.mp h
  exact ⟨xs.take i, xs.drop (i + 1), by simp, by simp; omega⟩

theorem modify_append_cons (l r : List α) (a : α) (f : α → α) :
    (l ++ a :: r).modify l.length f = l ++ f a :: r := by
  induction l with
  | nil => rfl
  | cons x l ih => rw [List.cons_append, List.length_cons, List.modify_succ_cons, ih]; rfl

theorem exchange_perm (xs : List α) {i : ℕ} (h : i + 1 < xs.length) : (exchange xs i).Perm xs := by
  obtain ⟨l, a, b, r, rfl, rfl⟩ := exists_append_of_lt h
  rw [exchange_append]
  exact (List.Perm.swap a b r).append_left l

theorem getElem?_exchange (xs : List α) {i : ℕ} (h : i + 1 < xs.length) (k : ℕ) :
    (exchange xs i)[k]? = if k = i then xs[i + 1]? else if k = i + 1 then xs[i]? else xs[k]? := by
  obtain ⟨l, a, b, r, rfl, rfl⟩ := exists_append_of_lt h
  rw [exchange_append]
  rcases lt_trichotomy k l.length with hk | rfl | hk
  · simp [List.getElem?_append_left hk, hk.ne, (hk.trans (Nat.lt_succ_self _)).ne]
  · simp
  · obtain ⟨d, rfl⟩ := Nat.exists_eq_add_of_lt hk
    rw [if_neg (by omega), List.getElem?_append_right (by omega)]
    cases d with
    | zero => simp
    | succ d =>
      have hd : l.length + (d + 1) + 1 - l.length = d + 2 := by omega
      rw [if_neg (by omega), List.getElem?_append_right (by omega), hd]
      rfl

theorem getElem?_inj_of_nodup {xs : List α} (hn : xs.Nodup) {i j : ℕ} (hi : i < xs.length)
    (h : xs[i]? = xs[j]?) : i = j := by
  have hj : j < xs.length := by
    rw [List.getElem?_eq_getElem hi] at h
    exact (List.getElem?_eq_some_iff.mp h.symm).1
  rw [List.getElem?_eq_getElem hi, List.getElem?_eq_getElem hj, Option.some.injEq] at h
  exact hn.getElem_inj_iff.mp h

/-- Edits of the elements in turn, from position `pre.length` on. -/
theorem foldl_modify_zipIdx (f : α → β → β) (xs : List α) (pre ys : List β)
    (h : xs.length = ys.length) :
    (xs.zipIdx pre.length).foldl (fun zs x => zs.modify x.2 (f x.1)) (pre ++ ys) =
      pre ++ List.zipWith f xs ys := by
  induction xs generalizing pre ys with
  | nil => rw [List.eq_nil_of_length_eq_zero h.symm]; rfl
  | cons x xs ih =>
    obtain ⟨y, ys, rfl⟩ := List.exists_cons_of_length_eq_add_one h.symm
    have hstep := ih (pre ++ [f x y]) ys (Nat.succ.inj h)
    rw [List.length_append, List.length_singleton] at hstep
    rw [List.zipIdx_cons, List.foldl_cons, modify_append_cons, List.zipWith_cons_cons]
    simpa only [List.append_assoc, List.cons_append, List.nil_append] using hstep

/-- The same with every position checked. -/
theorem foldlM_modifyAt_zipIdx (f : α → β → β) (xs : List α) (pre ys : List β)
    (h : xs.length = ys.length) :
    (xs.zipIdx pre.length).foldlM (fun zs x => modifyAt zs x.2 (f x.1)) (pre ++ ys) =
      some (pre ++ List.zipWith f xs ys) := by
  induction xs generalizing pre ys with
  | nil => rw [List.eq_nil_of_length_eq_zero h.symm]; rfl
  | cons x xs ih =>
    obtain ⟨y, ys, rfl⟩ := List.exists_cons_of_length_eq_add_one h.symm
    have hstep := ih (pre ++ [f x y]) ys (Nat.succ.inj h)
    have hlt : pre.length < (pre ++ y :: ys).length := by simp
    rw [List.length_append, List.length_singleton] at hstep
    rw [List.zipIdx_cons, List.foldlM_cons, modifyAt_natCast, if_pos hlt, modify_append_cons,
      List.zipWith_cons_cons, Option.bind_eq_bind, Option.bind_some]
    simpa only [List.append_assoc, List.cons_append, List.nil_append] using hstep

theorem getElem?_concat_cases {xs : List α} {x y : α} {i : ℕ}
    (h : (xs ++ [x])[i]? = some y) : i < xs.length ∧ xs[i]? = some y ∨ i = xs.length ∧ x = y := by
  rcases Nat.lt_trichotomy i xs.length with hlt | heq | hgt
  · rw [List.getElem?_append_left hlt] at h
    exact .inl ⟨hlt, h⟩
  · subst heq
    rw [List.getElem?_concat_length, Option.some.injEq] at h
    exact .inr ⟨rfl, h⟩
  · rw [List.getElem?_eq_none (by rw [List.length_append, List.length_singleton]; omega)] at h
    cases h

end VectorEdits

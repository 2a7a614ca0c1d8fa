import Mathlib.Data.List.Dedup
import Mathlib.Data.List.Basic
import Mathlib.Order.Defs.PartialOrder

/-!
# Numbers grouped under keys

The elements of a list are numbered from 1 on and have keys. `numbersOf` are the numbers of the
elements with one key, in order. Every number is in the group of one key only; one element more goes
to the end of the group of its key.
-/

namespace KeyGroups

variable {α β : Type*} [DecidableEq β] (key : α → β)

def numbersOf (xs : List α) (c : β) : List ℕ :=
  ((xs.zipIdx 1).filter fun e => key e.1 = c).map (·.2)

variable {key}

theorem numbersOf_concat (xs : List α) (x : α) (c : β) :
    numbersOf key (xs ++ [x]) c =
      numbersOf key xs c ++ if key x = c then [xs.length + 1] else [] := by
  simp only [numbersOf, List.zipIdx_append, List.filter_append, List.map_append]
  congr 1
  by_cases hc : key x = c
  · simp [hc, Nat.add_comm]
  · simp [hc]

theorem mem_numbersOf {xs : List α} {c : β} {n : ℕ} :
    n ∈ numbersOf key xs c ↔ ∃ x, (x, n) ∈ xs.zipIdx 1 ∧ key x = c := by
  simp [numbersOf]

theorem numbersOf_eq_nil {xs : List α} {c : β} (h : c ∉ xs.map key) : numbersOf key xs c = [] := by
  rw [List.eq_nil_iff_forall_not_mem]
  intro n hn
  obtain ⟨x, hx, rfl⟩ := mem_numbersOf.mp hn
  exact h (List.mem_map_of_mem (List.fst_mem_of_mem_zipIdx hx))

/-- A number belongs to one element. -/
theorem eq_of_mem_zipIdx {xs : List α} {x y : α} {n : ℕ} (hx : (x, n) ∈ xs.zipIdx 1)
    (hy : (y, n) ∈ xs.zipIdx 1) : x = y := by
  rw [List.mk_mem_zipIdx_iff_le_and_getElem?_sub] at hx hy
  exact Option.some.inj (hx.2.symm.trans hy.2)

/-- The group that holds the number of an element is that of its key. -/
theorem mem_numbersOf_iff {xs : List α} {x : α} {n : ℕ} (hx : (x, n) ∈ xs.zipIdx 1) {c : β} :
    n ∈ numbersOf key xs c ↔ key x = c := by
  rw [mem_numbersOf]
  constructor
  · rintro ⟨y, hy, rfl⟩
    rw [eq_of_mem_zipIdx hx hy]
  · exact fun h => ⟨x, hx, h⟩

/-- The number of keys, one of which is there anyway. -/
theorem length_keys {a : β} {keys ks : List β} (hnodup : ks.Nodup)
    (hmem : ∀ c, c ∈ ks ↔ c = a ∨ c ∈ keys) :
    ks.length = (keys.filter (· ≠ a)).dedup.length + 1 := by
  have hcons : (a :: (keys.filter (· ≠ a)).dedup).Nodup := by
    refine List.nodup_cons.mpr ⟨?_, List.nodup_dedup _⟩
    simp
  have hperm : ks.Perm (a :: (keys.filter (· ≠ a)).dedup) := by
    refine (List.perm_ext_iff_of_nodup hnodup hcons).mpr fun c => ?_
    rw [hmem, List.mem_cons, List.mem_dedup, List.mem_filter, decide_eq_true_iff]
    by_cases hc : c = a
    · simp [hc]
    · simp [hc]
  rw [hperm.length_eq, List.length_cons]

/-- In a list sorted by its keys, what is found first has the least key. -/
theorem exists_find?_least {γ : Type*} [Preorder γ] {f : α → γ} {p : α → Bool} {xs : List α}
    (hsorted : xs.Pairwise fun x y => f x < f y) {x : α} (hx : x ∈ xs) (hp : p x = true) :
    ∃ first ∈ xs, p first = true ∧ xs.find? p = some first ∧
      ∀ y ∈ xs, p y = true → f first ≤ f y := by
  induction hsorted with
  | nil => cases hx
  | @cons z zs hhead _ ih =>
    by_cases hz : p z = true
    · refine ⟨z, List.mem_cons_self, hz, List.find?_cons_of_pos hz, fun y hy _ => ?_⟩
      obtain rfl | hy := List.mem_cons.mp hy
      · exact le_rfl
      · exact le_of_lt (hhead y hy)
    · have hxs : x ∈ zs := by
        obtain rfl | hxs := List.mem_cons.mp hx
        · exact absurd hp hz
        · exact hxs
      obtain ⟨first, hmem, hfirst, hfind, hleast⟩ := ih hxs
      refine ⟨first, List.mem_cons_of_mem _ hmem, hfirst, ?_, fun y hy hpy => ?_⟩
      · rw [List.find?_cons_of_neg hz, hfind]
      · obtain rfl | hy := List.mem_cons.mp hy
        · exact absurd hpy hz
        · exact hleast y hy hpy

end KeyGroups

import AmpRack.JsonRoundTrip
import Mathlib.Data.List.Nodup

/-!
# The members of an object

Assigning keeps the keys in order, and assigning distinct keys keeps every member. A member of an
object with distinct keys is found under its key. `numbered` writes a list under the positions of its
elements; keys compare as texts, so from eleven elements on the order is not that of the list.
-/

namespace JsonText

/-- What `begin ()` to `end ()` go through. -/
def membersOf : Json → Members
  | .obj ms => ms
  | _ => []

theorem mem_insert {k : List Char} {v : Json} {ms : Members} {m : List Char × Json}
    (h : m ∈ insert k v ms) : m = (k, v) ∨ m ∈ ms := by
  induction ms with
  | nil => exact .inl (List.mem_singleton.mp h)
  | cons x ms ih =>
    rw [insert] at h
    split_ifs at h
    · exact List.mem_cons.mp h
    · exact (List.mem_cons.mp h).imp_right (List.mem_cons_of_mem x)
    · rcases List.mem_cons.mp h with rfl | h
      · exact .inr List.mem_cons_self
      · exact (ih h).imp_right (List.mem_cons_of_mem x)

theorem mem_foldl_insert {ms acc : Members} {m : List Char × Json}
    (h : m ∈ ms.foldl (fun acc m => insert m.1 m.2 acc) acc) : m ∈ acc ∨ m ∈ ms := by
  induction ms generalizing acc with
  | nil => exact .inl h
  | cons x ms ih =>
    rcases ih h with h | h
    · rcases mem_insert h with rfl | h
      · exact .inr List.mem_cons_self
      · exact .inl h
    · exact .inr (List.mem_cons_of_mem x h)

theorem mem_ofMembers {ms : Members} {m : List Char × Json} (h : m ∈ ofMembers ms) : m ∈ ms :=
  (mem_foldl_insert h).resolve_left List.not_mem_nil

theorem sortedKeys_insert {k : List Char} {v : Json} {ms : Members} (h : SortedKeys ms) :
    SortedKeys (insert k v ms) := by
  induction ms with
  | nil => exact List.pairwise_singleton _ _
  | cons x ms ih =>
    obtain ⟨hx, hms⟩ := List.pairwise_cons.mp h
    rw [insert]
    split_ifs with hlt heq
    · refine List.pairwise_cons.mpr ⟨fun k' hk' => ?_, h⟩
      rcases List.mem_cons.mp hk' with rfl | hk'
      · exact hlt
      · exact hlt.trans (hx k' hk')
    · subst heq
      exact List.pairwise_cons.mpr ⟨hx, hms⟩
    · have hgt : x.1 < k := lt_of_le_of_ne (not_lt.mp hlt) (Ne.symm heq)
      refine List.pairwise_cons.mpr ⟨fun k' hk' => ?_, ih hms⟩
      obtain ⟨m, hm, rfl⟩ := List.mem_map.mp hk'
      rcases mem_insert hm with rfl | hm
      · exact hgt
      · exact hx _ (List.mem_map_of_mem hm)

theorem sortedKeys_foldl_insert (ms : Members) {acc : Members} (h : SortedKeys acc) :
    SortedKeys (ms.foldl (fun acc m => insert m.1 m.2 acc) acc) := by
  induction ms generalizing acc with
  | nil => exact h
  | cons m ms ih => exact ih (sortedKeys_insert h)

theorem sortedKeys_ofMembers (ms : Members) : SortedKeys (ofMembers ms) :=
  sortedKeys_foldl_insert ms List.Pairwise.nil

theorem insert_perm {k : List Char} {v : Json} {ms : Members} (h : k ∉ ms.map (·.1)) :
    (insert k v ms).Perm ((k, v) :: ms) := by
  induction ms with
  | nil => exact .refl _
  | cons x ms ih =>
    rw [List.map_cons, List.mem_cons, not_or] at h
    rw [insert]
    split_ifs with hlt heq
    · exact .refl _
    · exact absurd heq h.1
    · exact ((ih h.2).cons x).trans (.swap _ _ _)

theorem foldl_insert_perm {ms acc : Members} (h : ((acc ++ ms).map (·.1)).Nodup) :
    (ms.foldl (fun acc m => insert m.1 m.2 acc) acc).Perm (acc ++ ms) := by
  induction ms generalizing acc with
  | nil => rw [List.append_nil, List.foldl_nil]
  | cons m ms ih =>
    have hm : m.1 ∉ acc.map (·.1) := by
      rw [List.map_append, List.map_cons, List.nodup_append] at h
      exact fun hm => h.2.2 _ hm _ List.mem_cons_self rfl
    have hperm : (insert m.1 m.2 acc ++ ms).Perm (acc ++ m :: ms) :=
      ((insert_perm hm).append_right ms).trans List.perm_middle.symm
    rw [List.foldl_cons]
    refine (ih ?_).trans hperm
    exact (hperm.map _).nodup_iff.mpr h

/-- Distinct keys keep all their values. -/
theorem ofMembers_perm {ms : Members} (h : (ms.map (·.1)).Nodup) : (ofMembers ms).Perm ms :=
  foldl_insert_perm (by rwa [List.nil_append])

theorem SortedKeys.nodup {ms : Members} (h : SortedKeys ms) : (ms.map (·.1)).Nodup :=
  h.imp fun hlt => ne_of_lt hlt

theorem get?_of_mem {ms : Members} (h : (ms.map (·.1)).Nodup) {k : List Char} {v : Json}
    (hm : (k, v) ∈ ms) : (Json.obj ms).get? k = some v := by
  induction ms with
  | nil => cases hm
  | cons x ms ih =>
    rw [List.map_cons, List.nodup_cons] at h
    rcases List.mem_cons.mp hm with rfl | hm
    · simp [Json.get?]
    · have hne : x.1 ≠ k := fun hx => h.1 (hx ▸ List.mem_map_of_mem (f := (·.1)) hm)
      have hrest := ih h.2 hm
      simp only [Json.get?] at hrest ⊢
      rw [List.find?_cons_of_neg (by simpa using hne), hrest]

theorem get?_of_notMem {ms : Members} {k : List Char} (h : k ∉ ms.map (·.1)) :
    (Json.obj ms).get? k = none := by
  have hnone : ms.find? (·.1 == k) = none := by
    apply List.find?_eq_none.mpr
    intro m hm hk
    exact h (eq_of_beq hk ▸ List.mem_map_of_mem hm)
  rw [Json.get?, hnone, Option.map_none]

theorem get?_insert (k : List Char) (v : Json) (ms : Members) :
    (Json.obj (insert k v ms)).get? k = some v := by
  induction ms with
  | nil => simp [insert, Json.get?]
  | cons m ms ih =>
    rw [insert]
    split_ifs with hlt heq
    · simp [Json.get?]
    · simp [Json.get?]
    · have hne : m.1 ≠ k := fun hm => heq hm.symm
      simp only [Json.get?] at ih ⊢
      rw [List.find?_cons_of_neg (by simpa using hne), ih]

theorem get?_insert_of_ne {k k' : List Char} (hne : k' ≠ k) (v : Json) (ms : Members) :
    (Json.obj (insert k v ms)).get? k' = (Json.obj ms).get? k' := by
  induction ms with
  | nil => simp [insert, Json.get?, hne.symm]
  | cons m ms ih =>
    rw [insert]
    split_ifs with hlt heq
    · simp [Json.get?, hne.symm]
    · simp [Json.get?, ← heq, hne.symm]
    · simp only [Json.get?] at ih ⊢
      by_cases hm : m.1 = k'
      · simp [hm]
      · simp only [List.find?_cons_of_neg (p := fun x : List Char × Json => x.1 == k') (a := m)
          (by simpa using hm), ih]

/-- `j [std::to_string (i)] = js [i]`, for every position. -/
def numbered (js : List Json) : Members :=
  ofMembers (js.zipIdx.map fun e => (Nat.toDigits 10 e.2, e.1))

section Numbered

variable {js : List Json}

theorem toDigits_injective : Function.Injective (Nat.toDigits 10) := by
  intro m n h
  rw [← Nat.ofDigitChars_ten_toDigits (n := m), h, Nat.ofDigitChars_ten_toDigits]

theorem nodup_keys (js : List Json) :
    ((js.zipIdx.map fun e => (Nat.toDigits 10 e.2, e.1)).map (·.1)).Nodup := by
  have hkeys : (js.zipIdx.map fun e => (Nat.toDigits 10 e.2, e.1)).map (·.1) =
      (List.range' 0 js.length).map (Nat.toDigits 10) := by
    rw [List.map_map, ← List.zipIdx_map_snd 0 js, List.map_map]
    rfl
  rw [hkeys]
  have hrange : (List.range' 0 js.length).Nodup := List.nodup_range'
  exact hrange.map toDigits_injective

theorem numbered_perm (js : List Json) :
    (numbered js).Perm (js.zipIdx.map fun e => (Nat.toDigits 10 e.2, e.1)) :=
  ofMembers_perm (nodup_keys js)

/-- The elements of the list are the values of the object. -/
theorem map_numbered_perm (js : List Json) : ((numbered js).map (·.2)).Perm js := by
  refine ((numbered_perm js).map _).trans (.of_eq ?_)
  rw [List.map_map]
  exact List.zipIdx_map_fst 0 js

theorem numbered_ne_nil (h : js ≠ []) : numbered js ≠ [] := by
  intro hnil
  have hlen := (map_numbered_perm js).length_eq
  rw [hnil] at hlen
  exact h (List.length_eq_zero_iff.mp hlen.symm)

theorem sortedKeys_numbered (js : List Json) : SortedKeys (numbered js) := sortedKeys_ofMembers _

theorem exists_of_mem_numbered {m : List Char × Json} (h : m ∈ numbered js) :
    m.2 ∈ js ∧ ∃ k, m.1 = Nat.toDigits 10 k := by
  obtain ⟨e, he, rfl⟩ := List.mem_map.mp ((numbered_perm js).mem_iff.mp h)
  exact ⟨List.fst_mem_of_mem_zipIdx he, e.2, rfl⟩

theorem mem_numbered {k : ℕ} {j : Json} (h : js[k]? = some j) :
    (Nat.toDigits 10 k, j) ∈ numbered js :=
  (numbered_perm js).mem_iff.mpr
    (List.mem_map.mpr ⟨(j, k), List.mk_mem_zipIdx_iff_getElem?.mpr h, rfl⟩)

/-- The element of a position is found under its number. -/
theorem get?_numbered {k : ℕ} {j : Json} (h : js[k]? = some j) :
    (Json.obj (numbered js)).get? (Nat.toDigits 10 k) = some j :=
  get?_of_mem (sortedKeys_numbered js).nodup (mem_numbered h)

/-- Single digits compare as the numbers do. -/
theorem toDigits_lt_toDigits {i j : ℕ} (hj : j < 10) (hij : i < j) :
    Nat.toDigits 10 i < Nat.toDigits 10 j := by
  have hdigits : ∀ j < 10, ∀ i < j, Nat.toDigits 10 i < Nat.toDigits 10 j := by decide
  exact hdigits j hj i hij

/-- Up to ten keys are single digits. -/
theorem numbered_of_le (h : js.length ≤ 10) :
    numbered js = js.zipIdx.map fun e => (Nat.toDigits 10 e.2, e.1) := by
  have hsorted : SortedKeys (js.zipIdx.map fun e => (Nat.toDigits 10 e.2, e.1)) := by
    rw [SortedKeys, List.pairwise_map, List.pairwise_map]
    have hzip : js.zipIdx.Pairwise fun e e' => e.2 < e'.2 ∧ e'.2 < 10 := by
      apply List.pairwise_iff_getElem.mpr
      intro i j hi hj hij
      rw [List.length_zipIdx] at hj
      simp only [List.getElem_zipIdx, Nat.zero_add]
      omega
    exact hzip.imp fun hlt => toDigits_lt_toDigits hlt.2 hlt.1
  rw [numbered, ofMembers_of_sorted hsorted]

theorem map_numbered_of_le (h : js.length ≤ 10) : (numbered js).map (·.2) = js := by
  rw [numbered_of_le h, List.map_map]
  exact List.zipIdx_map_fst 0 js

/-- The members stand in the order of the numbers that their keys spell. -/
def NumericOrder (ms : Members) : Prop :=
  ms.Pairwise fun m m' => Nat.ofDigitChars 10 m.1 0 < Nat.ofDigitChars 10 m'.1 0

/-- In the order of its numbers, a sorted object has no two keys that compare the other way. -/
theorem NumericOrder.key_lt {ms : Members} (hn : NumericOrder ms) (hs : SortedKeys ms) {i j : ℕ}
    {v v' : Json} (hi : (Nat.toDigits 10 i, v) ∈ ms) (hj : (Nat.toDigits 10 j, v') ∈ ms)
    (hij : i < j) : Nat.toDigits 10 i < Nat.toDigits 10 j := by
  obtain ⟨a, ha, hia⟩ := List.mem_iff_getElem.mp hi
  obtain ⟨b, hb, hjb⟩ := List.mem_iff_getElem.mp hj
  rw [SortedKeys, List.pairwise_map, List.pairwise_iff_getElem] at hs
  rw [NumericOrder, List.pairwise_iff_getElem] at hn
  rcases lt_trichotomy a b with hab | rfl | hab
  · have hlt := hs a b ha hb hab
    rwa [hia, hjb] at hlt
  · rw [hia] at hjb
    have hkey := toDigits_injective (congrArg Prod.fst hjb)
    omega
  · have hlt := hn b a hb ha hab
    rw [hia, hjb] at hlt
    simp only [Nat.ofDigitChars_ten_toDigits] at hlt
    omega

/-- Keys that compare as texts stand in numeric order up to the key `9` and no further. -/
theorem numericOrder_numbered_iff : NumericOrder (numbered js) ↔ js.length ≤ 10 := by
  constructor
  · intro h
    by_contra! hlen
    have h₂ : js[2]? = some js[2] := List.getElem?_eq_getElem (by omega)
    have h₁₀ : js[10]? = some js[10] := List.getElem?_eq_getElem hlen
    have hlt := h.key_lt (sortedKeys_numbered js) (mem_numbered h₂) (mem_numbered h₁₀) (by omega)
    exact absurd hlt (by decide)
  · intro h
    rw [numbered_of_le h, NumericOrder, List.pairwise_map, List.pairwise_iff_getElem]
    intro i j hi hj hij
    simp only [List.getElem_zipIdx, Nat.ofDigitChars_ten_toDigits]
    omega

end Numbered

end JsonText

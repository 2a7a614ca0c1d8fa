import Mathlib.Data.List.Dedup
import Mathlib.Data.List.Infix
import Mathlib.Data.List.Perm.Subperm

/-!
# Interning into a table of limited size

A table gives the values it is asked for consecutive ids from 1 on. A value it holds keeps its id; a
value it does not hold is appended, or gets 0 when the table is full. Entries are only ever appended,
so what an id stands for never changes, and a full table never changes at all.
-/

namespace Interning

variable {α : Type*} {limit : ℕ}

/-- Distinct entries, at most `limit` of them; the entry at position `i` has the id `i + 1`. -/
structure Table (α : Type*) (limit : ℕ) where
  entries : List α
  nodup : entries.Nodup
  length_le : entries.length ≤ limit

/-- One call: the value asked for and the id given for it. -/
structure Answer (α : Type*) where
  value : α
  id : ℕ
  deriving DecidableEq

namespace Table

def empty : Table α limit := ⟨[], List.nodup_nil, Nat.zero_le _⟩

def append (t : Table α limit) (a : α) (ha : a ∉ t.entries) (hlt : t.entries.length < limit) :
    Table α limit where
  entries := t.entries ++ [a]
  nodup := List.nodup_append.mpr ⟨t.nodup, List.nodup_singleton a, by
    rintro b hb c hc rfl
    exact ha (List.mem_singleton.mp hc ▸ hb)⟩
  length_le := by
    rw [List.length_append]
    exact hlt

variable [DecidableEq α]

def intern (t : Table α limit) (a : α) : Table α limit × ℕ :=
  if ha : a ∈ t.entries then (t, t.entries.idxOf a + 1)
  else if hlt : t.entries.length < limit then (t.append a ha hlt, t.entries.length + 1)
  else (t, 0)

theorem intern_of_mem {t : Table α limit} {a : α} (ha : a ∈ t.entries) :
    t.intern a = (t, t.entries.idxOf a + 1) := by rw [intern, dif_pos ha]

theorem intern_of_room {t : Table α limit} {a : α} (ha : a ∉ t.entries)
    (hlt : t.entries.length < limit) :
    t.intern a = (t.append a ha hlt, t.entries.length + 1) := by
  rw [intern, dif_neg ha, dif_pos hlt]

theorem intern_of_full {t : Table α limit} {a : α} (ha : a ∉ t.entries)
    (hfull : ¬ t.entries.length < limit) : t.intern a = (t, 0) := by
  rw [intern, dif_neg ha, dif_neg hfull]

theorem prefix_intern (t : Table α limit) (a : α) : t.entries <+: (t.intern a).1.entries := by
  by_cases ha : a ∈ t.entries
  · rw [intern_of_mem ha]
  · by_cases hlt : t.entries.length < limit
    · rw [intern_of_room ha hlt]
      exact List.prefix_append _ _
    · rw [intern_of_full ha hlt]

/-- An id other than 0 is the place of the value in the table. -/
theorem getElem?_intern (t : Table α limit) (a : α) (hid : (t.intern a).2 ≠ 0) :
    (t.intern a).1.entries[(t.intern a).2 - 1]? = some a := by
  by_cases ha : a ∈ t.entries
  · rw [intern_of_mem ha, Nat.add_sub_cancel]
    exact List.getElem?_idxOf ha
  · by_cases hlt : t.entries.length < limit
    · rw [intern_of_room ha hlt, Nat.add_sub_cancel]
      exact List.getElem?_concat_length
    · rw [intern_of_full ha hlt] at hid
      exact absurd rfl hid

/-- The id 0 means that the value is not in the table and that the table is full. -/
theorem intern_zero (t : Table α limit) (a : α) (hid : (t.intern a).2 = 0) :
    (t.intern a).1 = t ∧ a ∉ t.entries ∧ t.entries.length = limit := by
  by_cases ha : a ∈ t.entries
  · rw [intern_of_mem ha] at hid
    exact absurd hid (Nat.succ_ne_zero _)
  · by_cases hlt : t.entries.length < limit
    · rw [intern_of_room ha hlt] at hid
      exact absurd hid (Nat.succ_ne_zero _)
    · rw [intern_of_full ha hlt]
      exact ⟨rfl, ha, le_antisymm t.length_le (Nat.le_of_not_lt hlt)⟩

/-- An entry is older than the call, or it is what the call asked for and was given an id. -/
theorem mem_intern {t : Table α limit} {a b : α} (hb : b ∈ (t.intern a).1.entries) :
    b ∈ t.entries ∨ b = a ∧ (t.intern a).2 ≠ 0 := by
  by_cases ha : a ∈ t.entries
  · rw [intern_of_mem ha] at hb
    exact Or.inl hb
  · by_cases hlt : t.entries.length < limit
    · rw [intern_of_room ha hlt] at hb ⊢
      obtain hb | hb := List.mem_append.mp hb
      · exact Or.inl hb
      · exact Or.inr ⟨List.mem_singleton.mp hb, Nat.succ_ne_zero _⟩
    · rw [intern_of_full ha hlt] at hb
      exact Or.inl hb

/-- The table after a run of calls, and the answers in order. -/
def internAll (t : Table α limit) : List α → Table α limit × List (Answer α)
  | [] => (t, [])
  | a :: as =>
    let rest := (t.intern a).1.internAll as
    (rest.1, ⟨a, (t.intern a).2⟩ :: rest.2)

theorem prefix_internAll (t : Table α limit) (as : List α) :
    t.entries <+: (t.internAll as).1.entries := by
  induction as generalizing t with
  | nil => exact List.prefix_refl _
  | cons a as ih => exact (t.prefix_intern a).trans (ih (t.intern a).1)

theorem internAll_full {t : Table α limit} (hfull : t.entries.length = limit) (as : List α) :
    (t.internAll as).1.entries = t.entries := by
  have hle : (t.internAll as).1.entries.length ≤ t.entries.length :=
    (t.internAll as).1.length_le.trans hfull.ge
  exact ((t.prefix_internAll as).eq_of_length_le hle).symm

/-- At the end of a run an id other than 0 is still the place of its value. -/
theorem getElem?_internAll (t : Table α limit) (as : List α) {c : Answer α}
    (hc : c ∈ (t.internAll as).2) (hid : c.id ≠ 0) :
    (t.internAll as).1.entries[c.id - 1]? = some c.value := by
  induction as generalizing t with
  | nil => cases hc
  | cons a as ih =>
    obtain rfl | hc := List.mem_cons.mp hc
    · have hget := t.getElem?_intern a hid
      obtain ⟨later, hlater⟩ := (t.intern a).1.prefix_internAll as
      change ((t.intern a).1.internAll as).1.entries[_]? = _
      rw [← hlater, List.getElem?_append_left (List.getElem?_eq_some_iff.mp hget).1]
      exact hget
    · exact ih (t.intern a).1 hc

theorem not_mem_internAll (t : Table α limit) (as : List α) {c : Answer α}
    (hc : c ∈ (t.internAll as).2) (hid : c.id = 0) : c.value ∉ (t.internAll as).1.entries := by
  induction as generalizing t with
  | nil => cases hc
  | cons a as ih =>
    obtain rfl | hc := List.mem_cons.mp hc
    · obtain ⟨hsame, hnot, hfull⟩ := t.intern_zero a hid
      change a ∉ ((t.intern a).1.internAll as).1.entries
      rw [hsame, internAll_full hfull]
      exact hnot
    · exact ih (t.intern a).1 hc

/-- The id 0 is only given by a table that is full, and a full table stays as it is. -/
theorem length_eq_of_zero (t : Table α limit) (as : List α) {c : Answer α}
    (hc : c ∈ (t.internAll as).2) (hid : c.id = 0) :
    (t.internAll as).1.entries.length = limit := by
  induction as generalizing t with
  | nil => cases hc
  | cons a as ih =>
    obtain rfl | hc := List.mem_cons.mp hc
    · obtain ⟨hsame, -, hfull⟩ := t.intern_zero a hid
      change ((t.intern a).1.internAll as).1.entries.length = limit
      rw [hsame, internAll_full hfull, hfull]
    · exact ih (t.intern a).1 hc

theorem values_internAll (t : Table α limit) (as : List α) :
    (t.internAll as).2.map (·.value) = as := by
  induction as generalizing t with
  | nil => rfl
  | cons a as ih =>
    change a :: ((t.intern a).1.internAll as).2.map (·.value) = a :: as
    rw [ih]

/-- Every entry at the end of a run was there before it or was given its id by one of the calls. -/
theorem mem_internAll (t : Table α limit) (as : List α) {b : α}
    (hb : b ∈ (t.internAll as).1.entries) :
    b ∈ t.entries ∨ ∃ c ∈ (t.internAll as).2, c.value = b ∧ c.id ≠ 0 := by
  induction as generalizing t with
  | nil => exact Or.inl hb
  | cons a as ih =>
    obtain hmem | ⟨c, hc, hvalue⟩ := ih (t.intern a).1 hb
    · obtain hmem | ⟨rfl, hid⟩ := mem_intern hmem
      · exact Or.inl hmem
      · exact Or.inr ⟨_, List.mem_cons_self, rfl, hid⟩
    · exact Or.inr ⟨c, List.mem_cons_of_mem _ hc, hvalue⟩

theorem id_eq_of_value_eq (t : Table α limit) (as : List α) {c d : Answer α}
    (hc : c ∈ (t.internAll as).2) (hd : d ∈ (t.internAll as).2) (h : c.value = d.value) :
    c.id = d.id := by
  by_cases hcid : c.id = 0
  · by_cases hdid : d.id = 0
    · rw [hcid, hdid]
    · have hmem := List.mem_of_getElem? (t.getElem?_internAll as hd hdid)
      exact absurd (h ▸ hmem) (t.not_mem_internAll as hc hcid)
  · have hget := t.getElem?_internAll as hc hcid
    by_cases hdid : d.id = 0
    · exact absurd (h ▸ List.mem_of_getElem? hget) (t.not_mem_internAll as hd hdid)
    · have hlt := (List.getElem?_eq_some_iff.mp hget).1
      have hsame : c.id - 1 = d.id - 1 := by
        apply (List.getElem?_inj hlt (t.internAll as).1.nodup).mp
        rw [hget, t.getElem?_internAll as hd hdid, h]
      omega

theorem value_eq_of_id_eq (t : Table α limit) (as : List α) {c d : Answer α}
    (hc : c ∈ (t.internAll as).2) (hd : d ∈ (t.internAll as).2) (hid : c.id ≠ 0)
    (h : c.id = d.id) : c.value = d.value := by
  have hget := t.getElem?_internAll as hd (h ▸ hid)
  rw [← h, t.getElem?_internAll as hc hid] at hget
  exact Option.some.inj hget

theorem id_le (t : Table α limit) (as : List α) {c : Answer α} (hc : c ∈ (t.internAll as).2) :
    c.id ≤ limit := by
  by_cases hid : c.id = 0
  · rw [hid]
    exact Nat.zero_le _
  · have hlt := (List.getElem?_eq_some_iff.mp (t.getElem?_internAll as hc hid)).1
    have hle := (t.internAll as).1.length_le
    omega

/-- As long as no more than `limit` different values are asked for, all of them get an id. -/
theorem id_ne_zero_of_dedup {as : List α} (h : as.dedup.length ≤ limit) {c : Answer α}
    (hc : c ∈ ((empty : Table α limit).internAll as).2) : c.id ≠ 0 := by
  intro hid
  obtain ⟨t, ht⟩ : ∃ t, ((empty : Table α limit).internAll as).1 = t := ⟨_, rfl⟩
  have hnot : c.value ∉ t.entries := ht ▸ not_mem_internAll _ _ hc hid
  have hfull : t.entries.length = limit := ht ▸ length_eq_of_zero _ _ hc hid
  have hasked {d : Answer α} (hd : d ∈ ((empty : Table α limit).internAll as).2) : d.value ∈ as := by
    rw [← values_internAll (empty : Table α limit) as]
    exact List.mem_map_of_mem hd
  have hsubset : c.value :: t.entries ⊆ as.dedup := by
    intro b hb
    rw [List.mem_dedup]
    obtain rfl | hb := List.mem_cons.mp hb
    · exact hasked hc
    · obtain hnil | ⟨d, hd, rfl, -⟩ := mem_internAll _ _ (ht ▸ hb)
      · cases hnil
      · exact hasked hd
  have hnodup : (c.value :: t.entries).Nodup := List.nodup_cons.mpr ⟨hnot, t.nodup⟩
  have hle := (List.subperm_of_subset hnodup hsubset).length_le
  rw [List.length_cons] at hle
  omega

/-- A call of a run is answered by the table that the calls before it have left. -/
theorem exists_of_internAll_eq (t : Table α limit) (as : List α) {earlier later : List (Answer α)}
    {c : Answer α} (h : (t.internAll as).2 = earlier ++ c :: later) :
    ∃ before, (t.internAll before).2 = earlier ∧
      c.id = ((t.internAll before).1.intern c.value).2 := by
  induction earlier generalizing t as with
  | nil =>
    cases as with
    | nil => cases h
    | cons a as =>
      obtain ⟨rfl, -⟩ := List.cons.inj h
      exact ⟨[], rfl, rfl⟩
  | cons e earlier ih =>
    cases as with
    | nil => cases h
    | cons a as =>
      obtain ⟨rfl, hrest⟩ := List.cons.inj h
      obtain ⟨before, hbefore, hid⟩ := ih (t.intern a).1 as hrest
      refine ⟨a :: before, ?_, hid⟩
      change _ :: ((t.intern a).1.internAll before).2 = _
      rw [hbefore]

end Table

end Interning

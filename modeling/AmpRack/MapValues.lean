import Mathlib.Data.List.AList

/-!
# The values of a finite map

A map `Holds` the values of its entries. Writing under a key adds a value and loses the one that was
there, unless another key has it too: `Spares` says that nothing is lost.
-/

namespace MapValues

variable {κ α : Type*} [DecidableEq κ]

abbrev FiniteMap (κ α : Type*) := AList fun _ : κ => α

def Holds (s : FiniteMap κ α) (v : α) : Prop := ∃ k, s.lookup k = some v

/-- What is under `k` is under another key too. -/
def Elsewhere (s : FiniteMap κ α) (k : κ) : Prop :=
  ∀ old, s.lookup k = some old → ∃ k', k' ≠ k ∧ s.lookup k' = some old

/-- What is under `k` is `v`, or is under another key too. -/
def Spares (s : FiniteMap κ α) (k : κ) (v : α) : Prop :=
  ∀ old, s.lookup k = some old → old = v ∨ ∃ k', k' ≠ k ∧ s.lookup k' = some old

variable {s : FiniteMap κ α} {k : κ} {v : α}

theorem holds_iff_mem : Holds s v ↔ v ∈ s.entries.map (·.2) := by
  constructor
  · rintro ⟨k, hk⟩
    exact List.mem_map.mpr ⟨⟨k, v⟩, AList.mem_lookup_iff.mp hk, rfl⟩
  · intro hv
    obtain ⟨e, he, rfl⟩ := List.mem_map.mp hv
    exact ⟨e.1, AList.mem_lookup_iff.mpr he⟩

theorem spares_of_notMem (h : k ∉ s) (v : α) : Spares s k v := by
  intro old hold
  rw [AList.lookup_eq_none.mpr h] at hold
  cases hold

/-- Writing adds the value and nothing else exactly when the old one is spared. -/
theorem holds_insert_iff :
    (∀ v', Holds (s.insert k v) v' ↔ Holds s v' ∨ v' = v) ↔ Spares s k v := by
  constructor
  · intro h old hold
    obtain ⟨k', hk'⟩ := (h old).mpr (.inl ⟨k, hold⟩)
    by_cases hne : k' = k
    · rw [hne, AList.lookup_insert, Option.some.injEq] at hk'
      exact .inl hk'.symm
    · rw [AList.lookup_insert_ne hne] at hk'
      exact .inr ⟨k', hne, hk'⟩
  · intro h v'
    constructor
    · rintro ⟨k', hk'⟩
      by_cases hne : k' = k
      · rw [hne, AList.lookup_insert, Option.some.injEq] at hk'
        exact .inr hk'.symm
      · rw [AList.lookup_insert_ne hne] at hk'
        exact .inl ⟨k', hk'⟩
    · rintro (⟨k', hk'⟩ | rfl)
      · by_cases hne : k' = k
        · rw [hne] at hk'
          rcases h v' hk' with rfl | ⟨k'', hne', hk''⟩
          · exact ⟨k, AList.lookup_insert s⟩
          · exact ⟨k'', by rw [AList.lookup_insert_ne hne', hk'']⟩
        · exact ⟨k', by rw [AList.lookup_insert_ne hne, hk']⟩
      · exact ⟨k, AList.lookup_insert s⟩

/-- Writing changes nothing exactly when the old value is spared and the new one was there. -/
theorem holds_insert_same_iff :
    (∀ v', Holds (s.insert k v) v' ↔ Holds s v') ↔ Spares s k v ∧ Holds s v := by
  constructor
  · intro h
    have hv : Holds s v := (h v).mp ⟨k, AList.lookup_insert s⟩
    refine ⟨holds_insert_iff.mp fun v' => (h v').trans ⟨.inl, ?_⟩, hv⟩
    rintro (hv' | rfl)
    · exact hv'
    · exact hv
  · rintro ⟨hspares, hv⟩ v'
    refine (holds_insert_iff.mpr hspares v').trans ⟨?_, .inl⟩
    rintro (hv' | rfl)
    · exact hv'
    · exact hv

/-- Removing a key loses no value exactly when it is under another key too. -/
theorem holds_erase_iff : (∀ v', Holds (s.erase k) v' ↔ Holds s v') ↔ Elsewhere s k := by
  constructor
  · intro h old hold
    obtain ⟨k', hk'⟩ := (h old).mpr ⟨k, hold⟩
    by_cases hne : k' = k
    · rw [hne, AList.lookup_erase] at hk'
      cases hk'
    · rw [AList.lookup_erase_ne hne] at hk'
      exact ⟨k', hne, hk'⟩
  · intro h v'
    constructor
    · rintro ⟨k', hk'⟩
      by_cases hne : k' = k
      · rw [hne, AList.lookup_erase] at hk'
        cases hk'
      · rw [AList.lookup_erase_ne hne] at hk'
        exact ⟨k', hk'⟩
    · rintro ⟨k', hk'⟩
      by_cases hne : k' = k
      · rw [hne] at hk'
        obtain ⟨k'', hne', hk''⟩ := h v' hk'
        exact ⟨k'', by rw [AList.lookup_erase_ne hne', hk'']⟩
      · exact ⟨k', by rw [AList.lookup_erase_ne hne, hk']⟩

end MapValues

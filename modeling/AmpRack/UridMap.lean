import AmpRack.Interning

/-!
# The URIDs of the host

`simple_map` is the host's `urid:map`: it searches the global array `uris` and appends what is not
there. Every plugin instance and the host itself call the one function, so the statements are about
any list of calls, whoever makes them.
-/

namespace AmpRack

open Interning

def MAX_URIS : ℕ := 1000

/-- The globals of `simple_map`; a slot of `uris` is null until it is written. -/
structure UridMap where
  uris : ℕ → Option String
  nUris : ℕ

namespace UridMap

def initial : UridMap := ⟨fun _ => none, 0⟩

/-- The handle of the feature is `NULL` and is not read. -/
def simpleMap {Handle : Type*} (m : UridMap) (_handle : Handle) (uri : String) : UridMap × ℕ :=
  match (List.range m.nUris).find? fun i => m.uris i = some uri with
  | some i => (m, i + 1)
  | none =>
    if m.nUris < MAX_URIS then
      (⟨Function.update m.uris m.nUris (some uri), m.nUris + 1⟩, m.nUris + 1)
    else (m, 0)

/-- The globals after a run of calls, and what each call was asked for and returned. -/
def simpleMapAll {Handle : Type*} (m : UridMap) :
    List (Handle × String) → UridMap × List (Answer String)
  | [] => (m, [])
  | c :: cs =>
    let rest := (m.simpleMap c.1 c.2).1.simpleMapAll cs
    (rest.1, ⟨c.2, (m.simpleMap c.1 c.2).2⟩ :: rest.2)

/-- The first `n_uris` slots hold the entries of the table. -/
structure Represents (m : UridMap) (t : Table String MAX_URIS) : Prop where
  length_eq : t.entries.length = m.nUris
  slot : ∀ i, i < m.nUris → m.uris i = t.entries[i]?

theorem represents_initial : initial.Represents Table.empty where
  length_eq := rfl
  slot i hi := absurd hi (Nat.not_lt_zero i)

/-- The loop stops at the place of a URI that the table holds. -/
theorem find?_of_mem {m : UridMap} {t : Table String MAX_URIS} (h : m.Represents t) {uri : String}
    (hmem : uri ∈ t.entries) :
    ((List.range m.nUris).find? fun i => m.uris i = some uri) = some (t.entries.idxOf uri) := by
  have hlt : t.entries.idxOf uri < m.nUris := by
    rw [← h.length_eq]
    exact List.idxOf_lt_length_of_mem hmem
  have hslot : m.uris (t.entries.idxOf uri) = some uri := by
    rw [h.slot _ hlt]
    exact List.getElem?_idxOf hmem
  refine List.find?_range_eq_some.mpr ⟨decide_eq_true hslot, List.mem_range.mpr hlt, ?_⟩
  intro j hj
  have hne : t.entries[j]? ≠ some uri := by
    intro hget
    have hplace := (List.getElem?_inj (List.idxOf_lt_length_of_mem hmem) t.nodup).mp
      ((List.getElem?_idxOf hmem).trans hget.symm)
    exact Nat.ne_of_gt hj hplace
  rw [h.slot j (hj.trans hlt)]
  simpa using hne

theorem find?_of_not_mem {m : UridMap} {t : Table String MAX_URIS} (h : m.Represents t)
    {uri : String} (hnot : uri ∉ t.entries) :
    ((List.range m.nUris).find? fun i => m.uris i = some uri) = none := by
  rw [List.find?_eq_none]
  intro i hi
  rw [decide_eq_true_iff, h.slot i (List.mem_range.mp hi)]
  exact fun hget => hnot (List.mem_of_getElem? hget)

/-- The array with its counter is the table, call by call. -/
theorem simpleMap_refines {Handle : Type*} {m : UridMap} {t : Table String MAX_URIS}
    (h : m.Represents t) (handle : Handle) (uri : String) :
    (m.simpleMap handle uri).1.Represents (t.intern uri).1 ∧
      (m.simpleMap handle uri).2 = (t.intern uri).2 := by
  by_cases hmem : uri ∈ t.entries
  · rw [simpleMap, find?_of_mem h hmem, Table.intern_of_mem hmem]
    exact ⟨h, rfl⟩
  · rw [simpleMap, find?_of_not_mem h hmem]
    by_cases hlt : t.entries.length < MAX_URIS
    · rw [Table.intern_of_room hmem hlt, if_pos (h.length_eq ▸ hlt), h.length_eq]
      refine ⟨⟨?_, ?_⟩, rfl⟩
      · change (t.entries ++ [uri]).length = m.nUris + 1
        rw [List.length_append, h.length_eq]
        rfl
      · intro i hi
        change Function.update m.uris m.nUris (some uri) i = (t.entries ++ [uri])[i]?
        obtain hi | rfl := Nat.lt_succ_iff_lt_or_eq.mp hi
        · rw [Function.update_of_ne (Nat.ne_of_lt hi), h.slot i hi,
            List.getElem?_append_left (h.length_eq ▸ hi)]
        · rw [Function.update_self, ← h.length_eq]
          exact List.getElem?_concat_length.symm
    · rw [Table.intern_of_full hmem hlt, if_neg (h.length_eq ▸ hlt)]
      exact ⟨h, rfl⟩

theorem simpleMapAll_refines {Handle : Type*} {m : UridMap} {t : Table String MAX_URIS}
    (h : m.Represents t) (calls : List (Handle × String)) :
    (m.simpleMapAll calls).1.Represents (t.internAll (calls.map Prod.snd)).1 ∧
      (m.simpleMapAll calls).2 = (t.internAll (calls.map Prod.snd)).2 := by
  induction calls generalizing m t with
  | nil => exact ⟨h, rfl⟩
  | cons c calls ih =>
    obtain ⟨hrep, hid⟩ := simpleMap_refines h c.1 c.2
    obtain ⟨hrest, hanswers⟩ := ih hrep
    refine ⟨hrest, ?_⟩
    simp only [simpleMapAll, List.map_cons, Table.internAll, hid, hanswers]

/-- `uris` is never written past its end: the counter stays at most `MAX_URIS`. -/
theorem nUris_le {Handle : Type*} (calls : List (Handle × String)) :
    (initial.simpleMapAll calls).1.nUris ≤ MAX_URIS := by
  obtain ⟨hrep, -⟩ := simpleMapAll_refines represents_initial calls
  rw [← hrep.length_eq]
  exact Table.length_le _

/-- Ids over the whole run of a process: every call is answered, there is one id for each URI, no id for
two URIs, and 0 only for a URI that is new when `MAX_URIS` others have ids. -/
theorem simpleMap_interns {Handle : Type*} (calls : List (Handle × String)) :
    let answers := (initial.simpleMapAll calls).2
    answers.map (·.value) = calls.map Prod.snd ∧
      (∀ c ∈ answers, ∀ d ∈ answers, c.value = d.value → c.id = d.id) ∧
      (∀ c ∈ answers, ∀ d ∈ answers, c.id ≠ 0 → d.id ≠ 0 → c.value ≠ d.value → c.id ≠ d.id) ∧
      (∀ c ∈ answers, c.id ≤ MAX_URIS) ∧
      ∀ earlier c later, answers = earlier ++ c :: later → c.id = 0 →
        (∀ d ∈ earlier, d.id ≠ 0 → d.value ≠ c.value) ∧
          ∃ mapped : List String, mapped.Nodup ∧ mapped.length = MAX_URIS ∧
            ∀ uri ∈ mapped, ∃ d ∈ earlier, d.value = uri ∧ d.id ≠ 0 := by
  intro answers
  have hanswers : answers = (Table.empty.internAll (calls.map Prod.snd)).2 :=
    (simpleMapAll_refines represents_initial calls).2
  rw [hanswers]
  refine ⟨Table.values_internAll _ _, fun c hc d hd => Table.id_eq_of_value_eq _ _ hc hd, ?_,
    fun c => Table.id_le _ _, ?_⟩
  · intro c hc d hd hcid _ hne hid
    exact hne (Table.value_eq_of_id_eq _ _ hc hd hcid hid)
  · intro earlier c later hsplit hid
    obtain ⟨before, rfl, hbefore⟩ := Table.exists_of_internAll_eq _ _ hsplit
    rw [hid] at hbefore
    obtain ⟨-, hnot, hfull⟩ := Table.intern_zero _ _ hbefore.symm
    refine ⟨?_, _, Table.nodup _, hfull, ?_⟩
    · intro d hd hdid hvalue
      rw [← hvalue] at hnot
      exact hnot (List.mem_of_getElem? (Table.getElem?_internAll _ _ hd hdid))
    · intro uri huri
      obtain hnil | hcall := Table.mem_internAll _ _ huri
      · cases hnil
      · exact hcall

end UridMap

end AmpRack

import AmpRack.Symap
import AmpRack.UridMap

/-!
# The two maps of URIDs

A plugin that `Plugin::load` opens gets a `symap` of its own, one that is made from a URI gets the
global `simple_map`. Both give the ids from 1 on, in the order in which the URIDs are asked for.
-/

namespace AmpRack

open Interning

namespace Symap

variable {m : Symap} {t : Table String MAX_URIS}

/-- A URI as the C functions see it. -/
def uriOf (uri : String) : CString := CString.ofText uri.toList

def NoZero (uri : String) : Prop := Char.ofNat 0 ∉ uri.toList

instance (uri : String) : Decidable (NoZero uri) :=
  inferInstanceAs (Decidable (Char.ofNat 0 ∉ uri.toList))

theorem uriOf_injective {s u : String} (hs : NoZero s) (hu : NoZero u) (h : uriOf s = uriOf u) :
    s = u := String.toList_inj.mp (CString.ofText_injective hs hu h)

theorem uriOf_mem_iff (ht : ∀ u ∈ t.entries, NoZero u) {uri : String} (huri : NoZero uri) :
    uriOf uri ∈ t.entries.map uriOf ↔ uri ∈ t.entries := by
  constructor
  · intro hmem
    obtain ⟨u, hu, heq⟩ := List.mem_map.mp hmem
    exact uriOf_injective (ht u hu) huri heq ▸ hu
  · exact List.mem_map_of_mem

/-- As long as the table of `simple_map` has room, a call of `symap_map` gives the same id. -/
theorem Represents.map_eq_intern (h : m.Represents (t.entries.map uriOf))
    (ht : ∀ u ∈ t.entries, NoZero u) {uri : String} (huri : NoZero uri)
    (hid : (t.intern uri).2 ≠ 0) :
    ∃ m', m.map (uriOf uri) .grown = some (m', (t.intern uri).2) ∧
      m'.Represents ((t.intern uri).1.entries.map uriOf) ∧
      ∀ u ∈ (t.intern uri).1.entries, NoZero u := by
  by_cases hmem : uri ∈ t.entries
  · rw [Table.intern_of_mem hmem]
    have hplace : (t.entries.map uriOf)[t.entries.idxOf uri]? = some (uriOf uri) := by
      rw [List.getElem?_map, List.getElem?_idxOf hmem, Option.map_some]
    obtain ⟨id, hmap, hne, hget⟩ :=
      h.map_of_mem ((uriOf_mem_iff ht huri).mpr hmem) .grown
    have hsame : id - 1 = t.entries.idxOf uri :=
      (List.getElem?_inj (List.getElem?_eq_some_iff.mp hget).1 h.nodup).mp (hget.trans hplace.symm)
    obtain rfl : id = t.entries.idxOf uri + 1 := by omega
    exact ⟨m, hmap, h, ht⟩
  · have hlt : t.entries.length < MAX_URIS := by
      by_contra hfull
      rw [Table.intern_of_full hmem hfull] at hid
      exact hid rfl
    rw [Table.intern_of_room hmem hlt]
    obtain ⟨m', id, hmap, ⟨-, hrep, rfl⟩ | ⟨hr, -, -⟩⟩ :=
      h.map_of_not_mem (r := .grown) (fun hin => hmem ((uriOf_mem_iff ht huri).mp hin)) (by decide)
    · refine ⟨m', ?_, ?_, ?_⟩
      · rwa [List.length_map] at hmap
      · change m'.Represents ((t.entries ++ [uri]).map uriOf)
        rwa [List.map_append, List.map_singleton]
      · intro u hu
        obtain hu | hu := List.mem_append.mp hu
        · exact ht u hu
        · exact List.mem_singleton.mp hu ▸ huri
    · exact absurd rfl hr

theorem Represents.mapAll_eq_internAll (h : m.Represents (t.entries.map uriOf))
    (ht : ∀ u ∈ t.entries, NoZero u) {uris : List String} (huris : ∀ uri ∈ uris, NoZero uri)
    (hid : ∀ c ∈ (t.internAll uris).2, c.id ≠ 0) :
    ∃ m' answers, m.mapAll (uris.map fun uri => (uriOf uri, .grown)) = some (m', answers) ∧
      answers.map (·.id) = (t.internAll uris).2.map (·.id) := by
  induction uris generalizing m t with
  | nil => exact ⟨m, [], rfl, rfl⟩
  | cons uri uris ih =>
    obtain ⟨m₁, hmap, hrep, hnozero⟩ :=
      h.map_eq_intern ht (huris uri List.mem_cons_self) (hid _ List.mem_cons_self)
    obtain ⟨m', answers, hrest, hids⟩ := ih hrep hnozero
      (fun u hu => huris u (List.mem_cons_of_mem _ hu))
      (fun c hc => hid c (List.mem_cons_of_mem _ hc))
    refine ⟨m', ⟨uriOf uri, (t.intern uri).2⟩ :: answers, ?_, ?_⟩
    · rw [List.map_cons, mapAll, hmap]
      simp only [Option.bind_eq_bind, Option.bind_some, hrest]
      rfl
    · change _ :: answers.map (·.id) = _ :: ((t.intern uri).1.internAll uris).2.map (·.id)
      rw [hids]

/-- The two maps of the host give the same ids: the map of a plugin that `Plugin::load` opens, which
bisects, and the global one, which goes through its array, when they are asked for the same URIs and
these are no more than the global one has room for. -/
theorem mapAll_eq_simpleMapAll {Handle : Type*} (calls : List (Handle × String))
    (hnozero : ∀ c ∈ calls, NoZero c.2)
    (hroom : (calls.map Prod.snd).dedup.length ≤ MAX_URIS) :
    ∃ m answers, new.mapAll (calls.map fun c => (uriOf c.2, .grown)) = some (m, answers) ∧
      answers.map (·.id) = (UridMap.initial.simpleMapAll calls).2.map (·.id) := by
  have hids : ∀ uri ∈ calls.map Prod.snd, NoZero uri := by
    intro uri huri
    obtain ⟨c, hc, rfl⟩ := List.mem_map.mp huri
    exact hnozero c hc
  have hnil : ∀ u ∈ (Table.empty : Table String MAX_URIS).entries, NoZero u := fun u hu => by cases hu
  rw [(UridMap.simpleMapAll_refines UridMap.represents_initial calls).2]
  have hrun := represents_new.mapAll_eq_internAll (t := .empty) hnil hids
    fun c hc => Table.id_ne_zero_of_dedup hroom hc
  rwa [List.map_map] at hrun

theorem mapAll_eq_simpleMapAll_two :
    ∃ m answers, new.mapAll ([((), "urn:a"), ((), "urn:b"), ((), "urn:a")].map
        fun c => (uriOf c.2, .grown)) = some (m, answers) ∧
      answers.map (·.id) = (UridMap.initial.simpleMapAll
        [((), "urn:a"), ((), "urn:b"), ((), "urn:a")]).2.map (·.id) :=
  mapAll_eq_simpleMapAll _ (by decide) (by decide)

end Symap

end AmpRack

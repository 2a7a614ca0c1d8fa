import AmpRack.JsonBraces
import AmpRack.Preset

/-!
# The presets in the user's files

`SavedPreset` is what `Engine.savePreset` writes: a preset whose file types are `int`s, without
`controls` when the chain was empty. Its text ends with one brace, and the text of a collection of
presets with two.
-/

namespace AmpRack

open JsonText Framing GuardedRun

structure SavedPreset where
  name : Text
  desc : Text
  entries : List PresetEntry
  filetype_int : ∀ entry ∈ entries, ∀ f ∈ entry.file, -2 ^ 31 ≤ f.2 ∧ f.2 < 2 ^ 31

def PresetEntry.strings (entry : PresetEntry) : List Text :=
  entry.name :: entry.controls :: (entry.file.map (·.1)).toList

namespace SavedPreset

/-- The members stand in the order of their keys. -/
def toJson (p : SavedPreset) : Json :=
  .obj ((if p.entries = [] then [] else
      [("controls".toList, .obj (PresetEntry.slots p.entries))]) ++
    [("desc".toList, .str p.desc), ("name".toList, .str p.name)])

def strings (p : SavedPreset) : List Text :=
  p.name :: p.desc :: p.entries.flatMap PresetEntry.strings

end SavedPreset

theorem forall₂_of_mapM {ε α β : Type*} {f : α → Except ε β} {xs : List α} {ys : List β}
    (h : xs.mapM f = .ok ys) : List.Forall₂ (fun x y => f x = .ok y) xs ys := by
  induction xs generalizing ys with
  | nil =>
    cases h
    exact .nil
  | cons x xs ih =>
    rw [List.mapM_cons] at h
    obtain ⟨y, hx, h⟩ := exists_of_bind_ok h
    obtain ⟨zs, hxs, h⟩ := exists_of_bind_ok h
    cases h
    exact .cons hx (ih hxs)

theorem exists_of_forall₂ {α β : Type*} {R : α → β → Prop} {xs : List α} {ys : List β}
    (h : List.Forall₂ R xs ys) {y : β} (hy : y ∈ ys) : ∃ x ∈ xs, R x y := by
  induction h with
  | nil => cases hy
  | cons hxy _ ih =>
    rcases List.mem_cons.mp hy with rfl | hy
    · exact ⟨_, List.mem_cons_self, hxy⟩
    · obtain ⟨x, hx, hr⟩ := ih hy
      exact ⟨x, List.mem_cons_of_mem _ hx, hr⟩

theorem Plugin.file_of_presetEntry {p : Plugin} {entry : PresetEntry}
    (h : p.presetEntry = .ok entry) : ∀ f ∈ entry.file, f.2 = p.loadedFileType := by
  rw [Plugin.presetEntry] at h
  obtain ⟨controls, -, h⟩ := exists_of_bind_ok h
  cases h
  intro f hf
  by_cases hfile : p.loadedFileName = []
  · rw [if_pos hfile] at hf
    cases hf
  · rw [if_neg hfile] at hf
    cases hf
    rfl

section ToJson

variable {p : SavedPreset}

theorem assign_of_lt {k : List Char} {v : Json} {ms : Members} (h : ∀ m ∈ ms, m.1 < k) :
    (Json.obj ms).assign k v = .obj (ms ++ [(k, v)]) := by
  rw [Json.assign, insert_of_lt h]

theorem SavedPreset.toJson_of_nil (h : p.entries = []) :
    p.toJson = .obj [("desc".toList, .str p.desc), ("name".toList, .str p.name)] := by
  rw [SavedPreset.toJson, if_pos h]
  rfl

theorem SavedPreset.toJson_of_ne_nil (h : p.entries ≠ []) :
    p.toJson = .obj [("controls".toList, .obj (PresetEntry.slots p.entries)),
      ("desc".toList, .str p.desc), ("name".toList, .str p.name)] := by
  rw [SavedPreset.toJson, if_neg h]
  rfl

theorem SavedPreset.get?_name (p : SavedPreset) :
    p.toJson.get? "name".toList = some (.str p.name) := by
  by_cases h : p.entries = []
  · rw [p.toJson_of_nil h]
    rfl
  · rw [p.toJson_of_ne_nil h]
    rfl

end ToJson

section Save

variable {e : Engine} {filename description : Text}

/-- `NULL` is the number zero, which no preset is. -/
theorem Engine.savePreset_of_nil (h : e.activePlugins = []) :
    e.savePreset filename description =
      .ok (some (.obj [("desc".toList, .str description),
        ("name".toList, .str (lastComponent filename))])) := by
  have hname : (Json.obj [("desc".toList, .str description)]).assign "name".toList
      (.str (lastComponent filename)) = _ := assign_of_lt (by simp; decide)
  rw [Engine.savePreset, Engine.getPreset, if_pos h]
  exact congrArg (fun j => Except.ok (some j)) hname

theorem Engine.savePreset_of_entries (hne : e.activePlugins ≠ []) {entries : List PresetEntry}
    (h : e.activePlugins.mapM Plugin.presetEntry = .ok entries) :
    e.savePreset filename description =
      .ok (some (.obj [("controls".toList, .obj (PresetEntry.slots entries)),
        ("desc".toList, .str description), ("name".toList, .str (lastComponent filename))])) := by
  have hdesc : (Json.obj [("controls".toList, .obj (PresetEntry.slots entries))]).assign
      "desc".toList (.str description) = _ := assign_of_lt (by simp; decide)
  have hname : (Json.obj [("controls".toList, .obj (PresetEntry.slots entries)),
      ("desc".toList, .str description)]).assign "name".toList (.str (lastComponent filename)) = _ :=
    assign_of_lt (by simp; decide)
  rw [Engine.savePreset, getPreset_eq hne h]
  refine congrArg (fun j => Except.ok (some j)) ?_
  rw [hdesc]
  exact hname

/-- The files hold saved presets only. -/
theorem Engine.exists_of_savePreset {saved : Option Json}
    (hint : ∀ p ∈ e.activePlugins, -2 ^ 31 ≤ p.loadedFileType ∧ p.loadedFileType < 2 ^ 31)
    (h : e.savePreset filename description = .ok saved) :
    ∃ p : SavedPreset, saved = some p.toJson ∧ p.name = lastComponent filename ∧
      p.desc = description := by
  by_cases hne : e.activePlugins = []
  · rw [Engine.savePreset_of_nil hne] at h
    cases h
    exact ⟨⟨lastComponent filename, description, [], by simp⟩, rfl, rfl, rfl⟩
  · cases hentries : e.activePlugins.mapM Plugin.presetEntry with
    | error f =>
      rw [Engine.savePreset, Engine.getPreset, if_neg hne, hentries] at h
      cases h
    | ok entries =>
      rw [Engine.savePreset_of_entries hne hentries] at h
      cases h
      have hall := forall₂_of_mapM hentries
      have hint' : ∀ entry ∈ entries, ∀ f ∈ entry.file, -2 ^ 31 ≤ f.2 ∧ f.2 < 2 ^ 31 := by
        intro entry hentry f hf
        obtain ⟨p, hp, hpe⟩ := exists_of_forall₂ hall hentry
        rw [Plugin.file_of_presetEntry hpe f hf]
        exact hint p hp
      have hnil : entries ≠ [] := by
        rintro rfl
        exact hne (List.forall₂_nil_right_iff.mp hall)
      refine ⟨⟨lastComponent filename, description, entries, hint'⟩, ?_, rfl, rfl⟩
      rw [SavedPreset.toJson_of_ne_nil hnil]

end Save

namespace PresetEntry

variable {entry : PresetEntry}

theorem closing_toJson (entry : PresetEntry) :
    closing 3 Token.endObject 0 entry.toJson.tokens = 1 := by
  obtain ⟨name, controls, _ | ⟨filename, filetype⟩⟩ := entry <;> rfl

theorem braceFree_toJson :
    BraceFree 3 entry.toJson.tokens ↔ ∀ s ∈ entry.strings, closing 3 '}' 0 s < 3 := by
  have hcontrols : closing 3 '}' 0 "controls".toList < 3 := by decide
  have hfilename : closing 3 '}' 0 "filename".toList < 3 := by decide
  have hfiletype : closing 3 '}' 0 "filetype".toList < 3 := by decide
  have hname : closing 3 '}' 0 "name".toList < 3 := by decide
  have hint (n : ℤ) : BraceFree 3 (Json.int n).tokens := fun s hs => by simp [Json.tokens] at hs
  obtain ⟨name, controls, _ | ⟨filename, filetype⟩⟩ := entry
  · simp only [toJson, strings, braceFree_obj, braceFree_str, List.append_nil, List.cons_append,
      List.nil_append, List.forall_mem_cons, Option.map_none, Option.toList_none, hcontrols, hname,
      true_and]
    tauto
  · simp only [toJson, strings, braceFree_obj, braceFree_str, List.cons_append, List.nil_append,
      List.forall_mem_cons, Option.map_some, Option.toList_some, hcontrols, hfilename, hfiletype,
      hname, hint, true_and]
    tauto

theorem wellFormed_toJson (hint : ∀ f ∈ entry.file, -2 ^ 31 ≤ f.2 ∧ f.2 < 2 ^ 31) :
    entry.toJson.WellFormed := by
  obtain ⟨name, controls, _ | ⟨filename, filetype⟩⟩ := entry
  · refine ⟨?_, trivial, trivial, trivial⟩
    change ["controls".toList, "name".toList].Pairwise (· < ·)
    decide
  · have hfiletype : -2 ^ 63 ≤ filetype ∧ filetype < 2 ^ 64 := by
      have hft : -2 ^ 31 ≤ filetype ∧ filetype < 2 ^ 31 := hint _ rfl
      omega
    refine ⟨?_, trivial, trivial, hfiletype, trivial, trivial⟩
    change ["controls".toList, "filename".toList, "filetype".toList, "name".toList].Pairwise (· < ·)
    decide

end PresetEntry

namespace SavedPreset

variable {p : SavedPreset}

theorem closing_toJson (p : SavedPreset) :
    closing 3 Token.endObject 0 p.toJson.tokens = 1 := by
  have hname := closing_str_tokens (n := 3) (by decide) p.name
  have hdesc := closing_str_tokens (n := 3) (by decide) p.desc
  by_cases hnil : p.entries = []
  · rw [toJson_of_nil hnil]
    refine (closing_obj (m := ("name".toList, .str p.name)) ?_ (by decide) rfl).trans ?_
    · simp only [List.forall_mem_cons, hdesc, hname]
      decide
    · rw [hname]
  · have hentries : p.entries.map PresetEntry.toJson ≠ [] := by
      rwa [Ne, List.map_eq_nil_iff]
    have hslots :
        closing 3 Token.endObject 0 (Json.obj (PresetEntry.slots p.entries)).tokens = 2 := by
      apply closing_numbered hentries (by decide)
      intro j hj
      obtain ⟨entry, -, rfl⟩ := List.mem_map.mp hj
      exact entry.closing_toJson
    rw [toJson_of_ne_nil hnil]
    refine (closing_obj (m := ("name".toList, .str p.name)) ?_ (by decide) rfl).trans ?_
    · simp only [List.forall_mem_cons, hslots, hdesc, hname]
      decide
    · rw [hname]

theorem braceFree_toJson :
    BraceFree 3 p.toJson.tokens ↔ ∀ s ∈ p.strings, closing 3 '}' 0 s < 3 := by
  have hcontrols : closing 3 '}' 0 "controls".toList < 3 := by decide
  have hdesc : closing 3 '}' 0 "desc".toList < 3 := by decide
  have hname : closing 3 '}' 0 "name".toList < 3 := by decide
  by_cases hnil : p.entries = []
  · rw [toJson_of_nil hnil]
    simp only [strings, hnil, braceFree_obj, braceFree_str, List.forall_mem_cons, hdesc, hname,
      List.flatMap_nil, true_and]
    tauto
  · have hslots : BraceFree 3 (Json.obj (PresetEntry.slots p.entries)).tokens ↔
        ∀ s ∈ p.entries.flatMap PresetEntry.strings, closing 3 '}' 0 s < 3 := by
      rw [PresetEntry.slots, braceFree_numbered (by decide), List.forall_mem_map,
        List.forall_mem_flatMap]
      simp only [PresetEntry.braceFree_toJson]
    rw [toJson_of_ne_nil hnil]
    simp only [strings, braceFree_obj, braceFree_str, List.forall_mem_cons, hslots, hcontrols,
      hdesc, hname, true_and]
    tauto

theorem wellFormed_toJson (p : SavedPreset) : p.toJson.WellFormed := by
  by_cases hnil : p.entries = []
  · rw [toJson_of_nil hnil]
    refine ⟨?_, trivial, trivial, trivial⟩
    change ["desc".toList, "name".toList].Pairwise (· < ·)
    decide
  · have hslots : (Json.obj (PresetEntry.slots p.entries)).WellFormed := by
      apply wellFormed_numbered
      intro j hj
      obtain ⟨entry, hentry, rfl⟩ := List.mem_map.mp hj
      exact PresetEntry.wellFormed_toJson (p.filetype_int entry hentry)
    rw [toJson_of_ne_nil hnil]
    refine ⟨?_, hslots, trivial, trivial, trivial⟩
    change ["controls".toList, "desc".toList, "name".toList].Pairwise (· < ·)
    decide

end SavedPreset

end AmpRack

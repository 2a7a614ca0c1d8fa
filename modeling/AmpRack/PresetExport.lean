import AmpRack.JsonFiles

/-!
# Exporting the presets and importing them again

The export numbers the presets in the order in which the directory lists them. The import names the
file of each after its preset, with the escapes that `dump` wrote. Different names have different
escapes, so no file is written over another.
-/

namespace AmpRack

open JsonText

/-- The texts of the files of a directory, in some order; no name is too long for one. -/
abbrev Directory := AList fun _ : Text => Text

namespace Directory

/-- An order in which `std::filesystem::directory_iterator` may come to the files. -/
def Lists (d : Directory) (texts : List Text) : Prop := texts.Perm (d.entries.map (·.2))

/-- `json_to_filename` with a path in the directory. -/
def jsonToFilename (d : Directory) (name : Text) (j : Json) : Directory :=
  if isPlainName name then AList.insert name (fileText j) d else d

/-- The files that `import_presets_from_json` writes, and the number that it returns. -/
def importPresets (d : Directory) (j : Json) : Directory × Option ℕ :=
  ((Presets.importPresetsFromJson j).files.foldl (fun d file => d.jsonToFilename file.1 file.2) d,
    (Presets.importPresetsFromJson j).howMany)

/-- The callback of the import reads the file first. -/
def importFile (d : Directory) (text : Text) : Option (Directory × Option ℕ) :=
  (parse text).map d.importPresets

end Directory

namespace Presets

/-- The loop that `get_all_user_presets` and `save_presets_to_json` share. -/
def getAllUserPresets (texts : List Text) : Option Json :=
  (texts.mapM parse).map AmpRack.getAllUserPresets

/-- What `save_presets_to_json` writes. -/
def savePresetsToJson (texts : List Text) : Option Text :=
  (getAllUserPresets texts).map fileText

end Presets

/-- A directory of presets: every file holds an object with a name, and no two have the same. -/
structure PresetDirectory where
  files : Directory
  presets : List Json
  read : (files.entries.map (·.2)).mapM parse = some presets
  isPreset : ∀ p ∈ presets, ∃ ms name, p = .obj ms ∧ p.get? "name".toList = some (.str name) ∧
    IsFileName name
  distinct : (presets.map (Preset.textOf "name".toList)).Nodup

section Lists

theorem mapM_eq_some_iff {α β : Type*} {f : α → Option β} {xs : List α} {ys : List β} :
    xs.mapM f = some ys ↔ List.Forall₂ (fun x y => f x = some y) xs ys := by
  induction xs generalizing ys with
  | nil =>
    rw [List.mapM_nil, List.forall₂_nil_left_iff]
    constructor
    · intro h
      cases h
      rfl
    · rintro rfl
      rfl
  | cons x xs ih =>
    rw [List.mapM_cons, List.forall₂_cons_left_iff]
    constructor
    · intro h
      obtain ⟨y, hy, h⟩ := Option.bind_eq_some_iff.mp h
      obtain ⟨zs, hzs, h⟩ := Option.bind_eq_some_iff.mp h
      cases h
      exact ⟨y, zs, hy, ih.mp hzs, rfl⟩
    · rintro ⟨y, zs, hy, hzs, rfl⟩
      rw [hy, ih.mpr hzs]
      rfl

/-- The order in which the elements are read is that in which they come out. -/
theorem mapM_perm {α β : Type*} {f : α → Option β} {xs xs' : List α} {ys : List β}
    (hperm : xs'.Perm xs) (h : xs.mapM f = some ys) :
    ∃ ys', xs'.mapM f = some ys' ∧ ys'.Perm ys := by
  obtain ⟨ys', hys', hperm'⟩ := List.perm_comp_forall₂ hperm (mapM_eq_some_iff.mp h)
  exact ⟨ys', mapM_eq_some_iff.mpr hys', hperm'⟩

end Lists

section Write

variable {fs : List (Text × Json)} {d : Directory}

theorem mem_jsonToFilename {name name' : Text} {j : Json} (h : name' ∈ d.jsonToFilename name j) :
    name' = name ∨ name' ∈ d := by
  rw [Directory.jsonToFilename] at h
  split_ifs at h
  · exact AList.mem_insert d |>.mp h
  · exact .inr h

/-- Files of different names, none of which is there yet, are all written. -/
theorem foldl_jsonToFilename_perm (hplain : ∀ f ∈ fs, isPlainName f.1 = true)
    (hnodup : (fs.map (·.1)).Nodup) (hnew : ∀ f ∈ fs, f.1 ∉ d) :
    (fs.foldl (fun d f => d.jsonToFilename f.1 f.2) d).entries.Perm
      (fs.map (fun f => ⟨f.1, fileText f.2⟩) ++ d.entries) := by
  induction fs generalizing d with
  | nil => exact .refl _
  | cons f fs ih =>
    obtain ⟨hf, hfs⟩ := List.forall_mem_cons.mp hplain
    obtain ⟨hfd, hfsd⟩ := List.forall_mem_cons.mp hnew
    rw [List.map_cons, List.nodup_cons] at hnodup
    have hnext : ∀ g ∈ fs, g.1 ∉ d.jsonToFilename f.1 f.2 := by
      intro g hg hmem
      rcases mem_jsonToFilename hmem with heq | hmem
      · exact hnodup.1 (heq ▸ List.mem_map_of_mem hg)
      · exact hfsd g hg hmem
    have hentries : (d.jsonToFilename f.1 f.2).entries = ⟨f.1, fileText f.2⟩ :: d.entries := by
      rw [Directory.jsonToFilename, if_pos hf, AList.entries_insert_of_notMem hfd]
    rw [List.foldl_cons, List.map_cons, List.cons_append]
    apply (ih hfs hnodup.2 hnext).trans
    rw [hentries]
    exact List.perm_middle

end Write

section Presets

variable {d : Directory} {texts : List Text} {presets : List Json}

theorem wellFormed_getAllUserPresets (h : ∀ p ∈ presets, p.WellFormed) :
    (getAllUserPresets presets).WellFormed := by
  rw [getAllUserPresets]
  by_cases hnil : presets = []
  · rw [if_pos hnil]
    trivial
  · rw [if_neg hnil]
    exact wellFormed_numbered h

/-- In whatever order the files are listed, the collection has the same presets. -/
theorem getAllUserPresets_of_lists (hread : (d.entries.map (·.2)).mapM parse = some presets)
    (h : d.Lists texts) :
    ∃ ps, texts.mapM parse = some ps ∧ ps.Perm presets ∧
      Presets.getAllUserPresets texts = some (getAllUserPresets ps) := by
  obtain ⟨ps, hps, hperm⟩ := mapM_perm h hread
  exact ⟨ps, hps, hperm, by rw [Presets.getAllUserPresets, hps, Option.map_some]⟩

/-- Both directories give the same presets, however they are listed. -/
def SamePresets (d d' : Directory) : Prop :=
  ∀ texts texts', d.Lists texts → d'.Lists texts' →
    ∃ j j', Presets.getAllUserPresets texts = some j ∧
      Presets.getAllUserPresets texts' = some j' ∧ (elements j').Perm (elements j)

theorem samePresets_of_perm {d' : Directory} {presets' : List Json}
    (hread : (d.entries.map (·.2)).mapM parse = some presets)
    (hread' : (d'.entries.map (·.2)).mapM parse = some presets') (hperm : presets'.Perm presets) :
    SamePresets d d' := by
  intro texts texts' h h'
  obtain ⟨ps, -, hps, hall⟩ := getAllUserPresets_of_lists hread h
  obtain ⟨ps', -, hps', hall'⟩ := getAllUserPresets_of_lists hread' h'
  refine ⟨_, _, hall, hall', (elements_getAllUserPresets_perm ps').trans ?_⟩
  exact (hps'.trans (hperm.trans hps.symm)).trans (elements_getAllUserPresets_perm ps).symm

theorem PresetDirectory.wellFormed (u : PresetDirectory) : ∀ p ∈ u.presets, p.WellFormed := by
  intro p hp
  obtain ⟨text, -, htext⟩ := exists_of_forall₂ (mapM_eq_some_iff.mp u.read) hp
  exact wellFormed_of_parse htext

/-- Imported into an empty directory, presets of different names all have a file. -/
theorem importPresets_of_named (h : ∀ p ∈ presets, ∃ ms name, p = .obj ms ∧
      p.get? "name".toList = some (.str name) ∧ IsFileName name)
    (hdistinct : (presets.map (Preset.textOf "name".toList)).Nodup) {j : Json}
    (hj : elements j = presets) :
    ∃ after : Directory, Directory.importPresets ∅ j = (after, some presets.length) ∧
      after.Lists (presets.map fileText) := by
  have hnamed : ∀ p ∈ presets, ∃ name, p.get? "name".toList = some (.str name) := by
    intro p hp
    obtain ⟨-, name, -, hname, -⟩ := h p hp
    exact ⟨name, hname⟩
  let fs := presets.map fun p => (escape (Preset.textOf "name".toList p), p)
  have himport : Presets.importPresetsFromJson j =
      { files := fs, howMany := some presets.length } := by
    rw [Presets.importPresetsFromJson, hj, importEntries_of_named hnamed]
  have hplain : ∀ f ∈ fs, isPlainName f.1 = true := by
    intro f hf
    obtain ⟨p, hp, rfl⟩ := List.mem_map.mp hf
    obtain ⟨-, name, -, hname, hfile⟩ := h p hp
    have htext : Preset.textOf "name".toList p = name := by rw [Preset.textOf, hname]
    rw [htext]
    exact hfile.isPlainName_escape
  have hnodup : (fs.map (·.1)).Nodup := by
    have hmap : fs.map (·.1) = (presets.map (Preset.textOf "name".toList)).map escape := by
      rw [List.map_map, List.map_map]
      rfl
    rw [hmap]
    exact hdistinct.map fun _ _ heq => escape_injective heq
  have hperm := foldl_jsonToFilename_perm hplain hnodup
    (d := ∅) (fun f _ hmem => AList.notMem_empty f.1 hmem)
  refine ⟨_, by rw [Directory.importPresets, himport], ?_⟩
  have hvalues : (fs.map fun f => (⟨f.1, fileText f.2⟩ : Sigma fun _ : Text => Text)).map (·.2) =
      presets.map fileText := by
    rw [List.map_map, List.map_map]
    rfl
  rw [Directory.Lists, ← hvalues]
  refine ((hperm.map (·.2)).trans (.of_eq ?_)).symm
  rw [AList.empty_entries, List.append_nil]

theorem mapM_fileText (h : ∀ p ∈ presets, p.WellFormed) :
    (presets.map fileText).mapM parse = some presets := by
  apply mapM_eq_some_iff.mpr
  rw [List.forall₂_map_left_iff, List.forall₂_same]
  exact fun p hp => parse_fileText (h p hp)

end Presets

/-- The import of an export restores the presets and returns their number. -/
theorem import_restores_export (u : PresetDirectory) (texts : List Text)
    (h : u.files.Lists texts) :
    ∃ text after, Presets.savePresetsToJson texts = some text ∧
      Directory.importFile ∅ text = some (after, some u.presets.length) ∧
      SamePresets u.files after := by
  obtain ⟨ps, -, hperm, hall⟩ := getAllUserPresets_of_lists u.read h
  have hps : ∀ p ∈ ps, p.WellFormed := fun p hp => u.wellFormed p (hperm.mem_iff.mp hp)
  have helements := (elements_getAllUserPresets_perm ps).trans hperm
  have hmem {p : Json} (hp : p ∈ elements (getAllUserPresets ps)) : p ∈ u.presets :=
    helements.mem_iff.mp hp
  have hdistinct : ((elements (getAllUserPresets ps)).map (Preset.textOf "name".toList)).Nodup :=
    (helements.map _).nodup_iff.mpr u.distinct
  obtain ⟨after, himport, hlists⟩ :=
    importPresets_of_named (fun p hp => u.isPreset p (hmem hp)) hdistinct rfl
  have hread := mapM_fileText fun p hp => u.wellFormed p (hmem hp)
  obtain ⟨qs, hqs, hqperm⟩ := mapM_perm hlists.symm hread
  refine ⟨fileText (getAllUserPresets ps), after, ?_, ?_, ?_⟩
  · rw [Presets.savePresetsToJson, hall, Option.map_some]
  · rw [Directory.importFile, parse_fileText (wellFormed_getAllUserPresets hps), Option.map_some,
      himport, helements.length_eq]
  · exact samePresets_of_perm u.read hqs (hqperm.trans helements)

def presetNamed (name : Text) : Json := .obj [("name".toList, .str name)]

theorem wellFormed_presetNamed (name : Text) : (presetNamed name).WellFormed :=
  ⟨List.pairwise_singleton _ _, trivial, trivial⟩

/-- Two files that are not called after their presets. -/
def renamedPresets : PresetDirectory where
  files := AList.insert ['1'] (fileText (presetNamed ['a', '"'])) (AList.singleton ['2']
    (fileText (presetNamed ['b'])))
  presets := [presetNamed ['a', '"'], presetNamed ['b']]
  read := by
    have hw : ∀ p ∈ [presetNamed ['a', '"'], presetNamed ['b']], p.WellFormed := by
      intro p hp
      rcases List.mem_pair.mp hp with rfl | rfl
      · exact wellFormed_presetNamed _
      · exact wellFormed_presetNamed _
    have hread := mapM_fileText hw
    exact hread
  isPreset := by
    intro p hp
    rcases List.mem_pair.mp hp with rfl | rfl
    · exact ⟨_, _, rfl, rfl, isFileName_of_plain rfl⟩
    · exact ⟨_, _, rfl, rfl, isFileName_of_plain rfl⟩
  distinct := by decide

theorem import_restores_renamedPresets :
    ∃ text after,
      Presets.savePresetsToJson [fileText (presetNamed ['b']), fileText (presetNamed ['a', '"'])] =
        some text ∧
      Directory.importFile ∅ text = some (after, some 2) ∧
      SamePresets renamedPresets.files after :=
  import_restores_export renamedPresets _ (.swap _ _ _)

end AmpRack

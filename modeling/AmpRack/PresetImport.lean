import AmpRack.Preset

/-!
# Importing presets

`Presets.importPresetsFromJson` lists the files that an import opens: the text of each preset's name,
as it stands between the quotes of the dumped value, is put behind the directory of the user's
presets.
-/

namespace AmpRack

open JsonText

/-- What `for (auto preset : j)` walks through; a value that holds no others is its own element. -/
def elements : Json → List Json
  | .null => []
  | .arr xs => xs
  | .obj ms => ms.map (·.2)
  | j => [j]

/-- `preset ["name"]` and the preset behind it, which has the member then. Only an object and `null`
can be asked for a member. -/
def nameMember : Json → Option (Json × Json)
  | .null => some (.null, .obj [("name".toList, .null)])
  | .obj ms =>
    match (Json.obj ms).get? "name".toList with
    | some name => some (name, .obj ms)
    | none => some (.null, .obj (JsonText.insert "name".toList .null ms))
  | _ => none

def isString : Json → Bool
  | .str _ => true
  | _ => false

/-- `basename.substr (1, basename.size () - 2)` of the dumped name. -/
def basename (name : Json) : Text := strip (dump name)

/-- The files that are opened for writing, under their base names, with what is written to them; and
the number of presets, unless an exception ends the loop. -/
structure Imports where
  files : List (Text × Json)
  howMany : Option ℕ

namespace Presets

/-- `add_preset` converts the name to a string, after the file has been written. -/
def importEntries : List Json → Imports
  | [] => { files := [], howMany := some 0 }
  | preset :: rest =>
    match nameMember preset with
    | none => { files := [], howMany := none }
    | some (name, preset) =>
      if isString name then
        let imports := importEntries rest
        { files := (basename name, preset) :: imports.files, howMany := imports.howMany.map (· + 1) }
      else { files := [(basename name, preset)], howMany := none }

def importPresetsFromJson (j : Json) : Imports := importEntries (elements j)

end Presets

section Names

variable {preset : Json}

theorem nameMember_of_get? {name : Text} (h : preset.get? "name".toList = some (.str name)) :
    nameMember preset = some (.str name, preset) := by
  cases preset with
  | obj ms =>
    simp only [nameMember, h]
  | null => cases h
  | bool b => cases h
  | int n => cases h
  | float literal => cases h
  | str s => cases h
  | arr xs => cases h

/-- A preset that has been asked for its name has it. -/
theorem nameMember_idem {preset' name : Json} (h : nameMember preset = some (name, preset')) :
    nameMember preset' = some (name, preset') := by
  cases preset with
  | obj ms =>
    simp only [nameMember] at h
    cases hget : (Json.obj ms).get? "name".toList with
    | some v =>
      rw [hget] at h
      cases h
      simp only [nameMember, hget]
    | none =>
      rw [hget] at h
      cases h
      simp only [nameMember, get?_insert]
  | null =>
    cases h
    rfl
  | _ => cases h

/-- Presets that have a name are all imported. -/
theorem importEntries_of_named {presets : List Json}
    (h : ∀ j ∈ presets, ∃ name, j.get? "name".toList = some (.str name)) :
    Presets.importEntries presets =
      { files := presets.map fun j => (escape (Preset.textOf "name".toList j), j)
        howMany := some presets.length } := by
  induction presets with
  | nil => rfl
  | cons j presets ih =>
    obtain ⟨⟨name, hj⟩, hpresets⟩ := List.forall_mem_cons.mp h
    have htext : Preset.textOf "name".toList j = name := by rw [Preset.textOf, hj]
    rw [Presets.importEntries, nameMember_of_get? hj]
    simp only [isString, if_true, ih hpresets, basename, strip_dump_str, List.map_cons,
      List.length_cons, Option.map_some, htext]

/-- The loop comes to `preset`: the names in front of it are strings. -/
def Reached (presets : List Json) (preset : Json) : Prop :=
  ∃ before after, presets = before ++ preset :: after ∧
    ∀ p ∈ before, ∃ m, nameMember p = some m ∧ isString m.1 = true

theorem reached_cons {p : Json} {presets : List Json} :
    Reached (p :: presets) preset ↔
      preset = p ∨ (∃ m, nameMember p = some m ∧ isString m.1 = true) ∧ Reached presets preset := by
  constructor
  · rintro ⟨before, after, heq, hbefore⟩
    cases before with
    | nil =>
      cases heq
      exact .inl rfl
    | cons q before =>
      cases heq
      obtain ⟨hp, hbefore⟩ := List.forall_mem_cons.mp hbefore
      exact .inr ⟨hp, before, after, rfl, hbefore⟩
  · rintro (rfl | ⟨hp, before, after, rfl, hbefore⟩)
    · exact ⟨[], presets, rfl, fun _ h => absurd h List.not_mem_nil⟩
    · exact ⟨p :: before, after, rfl, List.forall_mem_cons.mpr ⟨hp, hbefore⟩⟩

/-- A file is opened for every preset that the loop comes to. -/
theorem mem_importEntries {presets : List Json} {file : Text × Json} :
    file ∈ (Presets.importEntries presets).files ↔
      ∃ preset name, Reached presets preset ∧ nameMember preset = some (name, file.2) ∧
        file.1 = basename name := by
  induction presets with
  | nil =>
    constructor
    · intro h
      cases h
    · rintro ⟨preset, name, ⟨before, after, heq, -⟩, -⟩
      cases before <;> cases heq
  | cons p presets ih =>
    simp only [reached_cons]
    cases hp : nameMember p with
    | none =>
      rw [Presets.importEntries, hp]
      constructor
      · intro h
        cases h
      · rintro ⟨preset, name, rfl | ⟨⟨m, hm, -⟩, -⟩, hname, -⟩
        · rw [hp] at hname
          cases hname
        · cases hm
    | some m =>
      obtain ⟨name, p'⟩ := m
      have hhead : file = (basename name, p') ↔
          ∃ n, nameMember p = some (n, file.2) ∧ file.1 = basename n := by
        rw [hp]
        constructor
        · rintro rfl
          exact ⟨name, rfl, rfl⟩
        · rintro ⟨n, heq, hfile⟩
          cases heq
          exact Prod.ext hfile rfl
      by_cases hs : isString name = true
      · have hmem : file ∈ (Presets.importEntries (p :: presets)).files ↔
            file = (basename name, p') ∨ file ∈ (Presets.importEntries presets).files := by
          rw [Presets.importEntries, hp]
          simp only [if_pos hs]
          exact List.mem_cons
        rw [hmem, hhead, ih]
        constructor
        · rintro (⟨n, hn, hfile⟩ | ⟨preset, n, hreached, hn, hfile⟩)
          · exact ⟨p, n, .inl rfl, hn, hfile⟩
          · exact ⟨preset, n, .inr ⟨⟨_, rfl, hs⟩, hreached⟩, hn, hfile⟩
        · rintro ⟨preset, n, rfl | ⟨-, hreached⟩, hn, hfile⟩
          · exact .inl ⟨n, hn, hfile⟩
          · exact .inr ⟨preset, n, hreached, hn, hfile⟩
      · have hmem : file ∈ (Presets.importEntries (p :: presets)).files ↔
            file = (basename name, p') := by
          rw [Presets.importEntries, hp]
          simp only [if_neg hs]
          exact List.mem_singleton
        rw [hmem, hhead]
        constructor
        · rintro ⟨n, hn, hfile⟩
          exact ⟨p, n, .inl rfl, hn, hfile⟩
        · rintro ⟨preset, n, rfl | ⟨⟨m, hm, hstr⟩, -⟩, hn, hfile⟩
          · exact ⟨n, hn, hfile⟩
          · cases hm
            exact absurd hstr hs

end Names

end AmpRack

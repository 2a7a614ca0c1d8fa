import AmpRack.DotPath
import AmpRack.PresetImport

/-!
# The paths that an import writes to

The path of an imported file is the directory of the presets with the text of a name behind it. The
files stay directly inside the directory exactly when every name that a file is opened for is, its
own dots resolved, a single component; a name that goes up has to come back through the directories
it has left.
-/

namespace AmpRack

open JsonText DotPath

/-- `presets_dir` for the given `HOME`. -/
def presetsDir (home : Text) : Text := home ++ "/amprack/presets/".toList

/-- The directory that a path leads to from the working directory. -/
def resolve (cwd : List Text) (path : Text) : List Text :=
  walk (if path.head? = some '/' then [] else cwd) (components path)

def DirectlyInside (cwd : List Text) (dir path : Text) : Prop :=
  ∃ name, resolve cwd path = resolve cwd dir ++ [name]

/-- The files that an import creates or overwrites. `opens` tells the paths that can be opened for
writing. -/
def writtenPaths (opens : Text → Bool) (dir : Text) (j : Json) : List Text :=
  ((Presets.importPresetsFromJson j).files.map fun file => dir ++ file.1).filter opens

theorem presetsDir_eq (home : Text) :
    presetsDir home = home ++ "/amprack/presets".toList ++ ['/'] := by
  rw [presetsDir, List.append_assoc]
  rfl

/-- What follows a directory that ends with a slash is followed from there. -/
theorem resolve_append {dir start : Text} (h : dir = start ++ ['/']) (cwd : List Text)
    (path : Text) : resolve cwd (dir ++ path) = walk (resolve cwd dir) (components path) := by
  have hpath : dir ++ path = start ++ '/' :: path := by
    rw [h, List.append_assoc]
    rfl
  have hhead : (start ++ '/' :: path).head? = (start ++ ['/']).head? := by
    cases start <;> rfl
  rw [hpath, h, resolve, resolve, hhead, components_append, components_slash, walk_append]

theorem resolve_presetsDir_append (cwd : List Text) (home name : Text) :
    resolve cwd (presetsDir home ++ name) =
      walk (resolve cwd (presetsDir home)) (components name) :=
  resolve_append (presetsDir_eq home) cwd name

theorem directlyInside_iff (cwd : List Text) (home name : Text) :
    DirectlyInside cwd (presetsDir home) (presetsDir home ++ name) ↔
      OneBelow (resolve cwd (presetsDir home)) (components name) := by
  rw [DirectlyInside, resolve_presetsDir_append, walk_eq_concat_iff]

/-- An import writes directly inside the directory of the presets, and nowhere else, exactly when
every name it comes to and can open a file for leads to one component below that directory. -/
theorem writtenPaths_inside_iff (opens : Text → Bool) (cwd : List Text) (home : Text) (j : Json) :
    (∀ path ∈ writtenPaths opens (presetsDir home) j,
      DirectlyInside cwd (presetsDir home) path) ↔
    ∀ preset name preset', Reached (elements j) preset → nameMember preset = some (name, preset') →
      opens (presetsDir home ++ basename name) = true →
      OneBelow (resolve cwd (presetsDir home)) (components (basename name)) := by
  have hmem (path : Text) : path ∈ writtenPaths opens (presetsDir home) j ↔
      ∃ preset name preset', Reached (elements j) preset ∧
        nameMember preset = some (name, preset') ∧
        opens (presetsDir home ++ basename name) = true ∧
        path = presetsDir home ++ basename name := by
    rw [writtenPaths, List.mem_filter, List.mem_map]
    constructor
    · rintro ⟨⟨file, hfile, rfl⟩, hopens⟩
      obtain ⟨preset, name, hreached, hname, hbase⟩ := mem_importEntries.mp hfile
      rw [hbase] at hopens ⊢
      exact ⟨preset, name, file.2, hreached, hname, hopens, rfl⟩
    · rintro ⟨preset, name, preset', hreached, hname, hopens, rfl⟩
      have hfile : (basename name, preset') ∈ (Presets.importPresetsFromJson j).files :=
        mem_importEntries.mpr ⟨preset, name, hreached, hname, rfl⟩
      exact ⟨⟨_, hfile, rfl⟩, hopens⟩
  constructor
  · intro h preset name preset' hreached hname hopens
    rw [← directlyInside_iff]
    exact h _ ((hmem _).mpr ⟨preset, name, preset', hreached, hname, hopens, rfl⟩)
  · intro h path hpath
    obtain ⟨preset, name, preset', hreached, hname, hopens, rfl⟩ := (hmem path).mp hpath
    rw [directlyInside_iff]
    exact h preset name preset' hreached hname hopens

/-- A preset that is named after a file outside of the directory. -/
def evilPreset : Json := .obj [("name".toList, .str "../evil".toList)]

theorem evil_preset_written_outside :
    writtenPaths (fun _ => true) (presetsDir "/home/u".toList) (.obj [(['0'], evilPreset)]) =
      ["/home/u/amprack/presets/../evil".toList] ∧
    ¬ DirectlyInside [] (presetsDir "/home/u".toList) "/home/u/amprack/presets/../evil".toList := by
  refine ⟨by decide, ?_⟩
  rintro ⟨name, h⟩
  have hlen := congrArg List.length h
  rw [List.length_append, List.length_singleton] at hlen
  exact absurd hlen (by decide)

end AmpRack

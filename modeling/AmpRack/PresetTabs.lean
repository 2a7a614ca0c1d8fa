import AmpRack.GuardedRun
import AmpRack.MapValues
import AmpRack.SyncStores
import Mathlib.Data.Rat.Floor

/-!
# The lists of presets

A preset of a tab is in the vector that the footswitch walks through, in a row on the screen and, in
two of the tabs, in a file. A `PresetTabs` has all three. `add_preset` puts a preset into the vector
and the row at once, but a row goes without its vector, the library loses its rows and keeps its
vector, and a file is written over or removed without either. It is the Linux program, as
no import makes a row on Windows.
-/

namespace AmpRack

open JsonText GuardedRun MapValues

inductive Tab
  | factory
  | user
  | library
  | heart
  deriving DecidableEq

/-- The directories of presets that are kept. -/
inductive Folder
  | presetsDir
  | favsDir
  deriving DecidableEq

/-- The tab of its presets. -/
def Folder.tab : Folder → Tab
  | presetsDir => .user
  | favsDir => .heart

abbrev Folders := Folder → Store

/-- What ends a run, as no callback catches it. -/
inductive Thrown
  | typeError
  | parseError
  | filesystemError
  deriving DecidableEq

def pageSize : ℕ := 50

/-- The number of the page, and the value and upper bound of `adj`, whose lower bound and page size
are one. -/
structure PageSpin where
  page : ℕ := 0
  value : ℚ := 1
  upper : ℕ := 0

namespace PageSpin

/-- Where `adj` holds a value. -/
def clamp (s : PageSpin) (v : ℚ) : ℚ :=
  if Max.max 1 ((s.upper : ℚ) - 1) < v then Max.max 1 ((s.upper : ℚ) - 1)
  else if v < 1 then 1
  else v

/-- `gtk_adjustment_set_value`, for which `change_value` is called when the value changes. -/
def setValue (s : PageSpin) (v : ℚ) : Option PageSpin :=
  if s.clamp v = s.value then none
  else some { s with value := s.clamp v, page := ⌊s.clamp v⌋.toNat }

theorem clamp_mem (s : PageSpin) (v : ℚ) :
    1 ≤ s.clamp v ∧ s.clamp v ≤ Max.max 1 ((s.upper : ℚ) - 1) := by
  unfold clamp
  split_ifs with hhigh hlow
  · exact ⟨le_max_left _ _, le_rfl⟩
  · exact ⟨le_rfl, le_max_left _ _⟩
  · exact ⟨not_lt.mp hlow, not_lt.mp hhigh⟩

theorem clamp_of_mem {s : PageSpin} {v : ℚ} (h : 1 ≤ v ∧ v ≤ Max.max 1 ((s.upper : ℚ) - 1)) :
    s.clamp v = v := by
  rw [clamp, if_neg (not_lt.mpr h.2), if_neg (not_lt.mpr h.1)]

theorem setValue_of_eq {s : PageSpin} {v : ℚ} (h : s.clamp v = s.value) : s.setValue v = none :=
  if_pos h

theorem setValue_of_ne {s : PageSpin} {v : ℚ} (h : s.clamp v ≠ s.value) :
    s.setValue v = some { s with value := s.clamp v, page := ⌊s.clamp v⌋.toNat } := if_neg h

end PageSpin

/-- `rows` has the presets that `add_preset` made the rows for. -/
structure PresetTabs extends PageSpin where
  listOfPresets : Tab → List Json := fun _ => []
  rows : Tab → List Json := fun _ => []
  files : Folders := fun _ => ∅
  libraryJson : Json := .null

/-- `saved` is what `savePreset` writes, if it writes. `elsewhere` is what reading or removing comes
to when the name leads to no file of a directory: `none` when it throws. -/
inductive TabOp
  | save (name : Text) (saved : Option Json) (elsewhere : Option Json)
  | importPresets (j : Json)
  | delete (row : ℕ) (elsewhere : Option Bool)
  | heart (w : Tab) (row : ℕ) (active : Bool)
  | refresh (downloaded : Json)
  | spin (v : ℚ)
  | next
  | prev

/-- The name of a preset as a row has it, if it is a string: without its quotes. -/
def rowName (j : Json) : Option Text :=
  (nameMember j).bind fun m => if isString m.1 then some (basename m.1) else none

/-- `add_preset` asks for `desc` before it keeps the preset for its callbacks. -/
def withDesc : Json → Json
  | .obj ms =>
    match (Json.obj ms).get? "desc".toList with
    | some _ => .obj ms
    | none => .obj (JsonText.insert "desc".toList .null ms)
  | j => j

namespace PresetTabs

section Folders

variable (entry : Folder → Text → Option (Folder × Text)) (files : Folders) (d : Folder)

/-- `entry d name` is the file that the name behind the path of `d` leads to, if it leads to one of
the two directories; not always to one of `d`, as a name can climb. -/
def write (name : Text) (j : Json) : Folders :=
  match entry d name with
  | none => files
  | some (d', file) => Function.update files d' (AList.insert file j (files d'))

def read (name : Text) : Option Json :=
  (entry d name).bind fun e => (files e.1).lookup e.2

def remove (name : Text) : Folders :=
  match entry d name with
  | none => files
  | some (d', file) => Function.update files d' ((files d').erase file)

end Folders

def push (s : PresetTabs) (w : Tab) (j : Json) : PresetTabs :=
  { s with
    listOfPresets := Function.update s.listOfPresets w (s.listOfPresets w ++ [j])
    rows := Function.update s.rows w (s.rows w ++ [j]) }

/-- The name is converted to a string after the row has been made. -/
def addPreset (s : PresetTabs) (w : Tab) (j : Json) : Except Thrown PresetTabs :=
  if (rowName j).isSome then .ok (s.push w j) else .error .typeError

def addPresetMulti (s : PresetTabs) (w : Tab) (js : List Json) : Except Thrown PresetTabs :=
  js.foldlM (fun s j => s.addPreset w j) s

/-- Only the rows are removed. -/
def libraryLoad (s : PresetTabs) : Except Thrown PresetTabs :=
  addPresetMulti { s with rows := Function.update s.rows .library [] } .library
    (((elements s.libraryJson).drop (s.page * pageSize)).take pageSize)

def loadUser (s : PresetTabs) (d : Folder) : Except Thrown PresetTabs :=
  s.addPresetMulti d.tab ((s.files d).entries.map (·.2))

/-- The state when `my` is done. -/
def my (files : Folders) (quick library : Json) : Except Thrown PresetTabs := do
  let s : PresetTabs :=
    { files := files
      libraryJson := library
      upper := (elements library).length / pageSize }
  let s ← s.loadUser .presetsDir
  let s ← s.loadUser .favsDir
  let s ← s.addPresetMulti .factory (elements quick)
  s.libraryLoad

variable (entry : Folder → Text → Option (Folder × Text))

/-- `add_cb`: the preset is read back from the file. -/
def save (s : PresetTabs) (name : Text) (saved elsewhere : Option Json) :
    Except Thrown PresetTabs :=
  let files := saved.elim s.files (write entry s.files .presetsDir name)
  match (read entry files .presetsDir name).or elsewhere with
  | none => .error .parseError
  | some j => { s with files := files }.addPreset .user j

/-- One turn of the loop of `import_presets_from_json`. -/
def importPreset (s : PresetTabs) (preset : Json) : Except Thrown PresetTabs :=
  match nameMember preset with
  | none => .error .typeError
  | some (name, preset) =>
    { s with files := write entry s.files .presetsDir (basename name) preset }.addPreset .user preset

/-- `delete_callback` of a row. -/
def delete (s : PresetTabs) (row : ℕ) (elsewhere : Option Bool) : Except Thrown PresetTabs :=
  match (s.rows .user)[row]?.bind rowName with
  | none => .ok s
  | some name =>
    let removed :=
      { s with
        rows := Function.update s.rows .user ((s.rows .user).eraseIdx row)
        files := remove entry s.files .presetsDir name }
    match entry .presetsDir name with
    | some (d, file) => if file ∈ s.files d then .ok removed else .ok s
    | none =>
      match elsewhere with
      | none => .error .filesystemError
      | some true => .ok removed
      | some false => .ok s

/-- `preset_fav_cb` of a row. The box that is to be removed is none of `favorites`, so that GTK
leaves it. -/
def heart (s : PresetTabs) (w : Tab) (row : ℕ) (active : Bool) : Except Thrown PresetTabs :=
  match (s.rows w)[row]? with
  | none => .ok s
  | some j =>
    match rowName j with
    | none => .ok s
    | some name =>
      if active then
        { s with files := write entry s.files .favsDir name (withDesc j) }.addPreset .heart
          (withDesc j)
      else .ok { s with files := remove entry s.files .favsDir name }

/-- `change_value` loads the page. -/
def setValue (s : PresetTabs) (v : ℚ) : Except Thrown PresetTabs :=
  (s.toPageSpin.setValue v).elim (.ok s) fun spin => { s with toPageSpin := spin }.libraryLoad

/-- `download_cb`. -/
def refresh (s : PresetTabs) (downloaded : Json) : Except Thrown PresetTabs :=
  { s with
    page := 0
    libraryJson := downloaded
    upper := (elements downloaded).length / pageSize }.libraryLoad

def step (s : PresetTabs) : TabOp → Except Thrown PresetTabs
  | .save name saved elsewhere => s.save entry name saved elsewhere
  | .importPresets j => (elements j).foldlM (importPreset entry) s
  | .delete row elsewhere => s.delete entry row elsewhere
  | .heart w row active => s.heart entry w row active
  | .refresh downloaded => s.refresh downloaded
  | .spin v => s.setValue v
  | .next => { s with page := s.page + 1 }.setValue (s.page + 1 : ℕ)
  | .prev => { s with page := s.page - 1 }.setValue (s.page - 1 : ℕ)

/-- Rows and vectors are the same in every tab, and the files of two of them are too. -/
structure Agree (s : PresetTabs) : Prop where
  shown : ∀ w, s.listOfPresets w = s.rows w
  stored : ∀ (d : Folder) (j : Json), j ∈ s.listOfPresets d.tab ↔ Holds (s.files d) j

/-- Writing `j` under the name loses no preset, and afterwards `j` is in `d` and not new in the
other directory. -/
def WriteOk (files : Folders) (d : Folder) (name : Text) (j : Json) : Prop :=
  match entry d name with
  | none => Holds (files d) j
  | some (d', file) => Spares (files d') file j ∧ (d' ≠ d → Holds (files d) j ∧ Holds (files d') j)

/-- Every preset in turn is written so; an import ends with a preset whose name is no string. -/
def ImportOk : Folders → List Json → Prop
  | _, [] => True
  | files, preset :: rest =>
    match nameMember preset with
    | none => True
    | some (name, preset) => (rowName preset).isSome →
      WriteOk entry files .presetsDir (basename name) preset ∧
        ImportOk (write entry files .presetsDir (basename name) preset) rest

/-- What is saved is written so; what is only read is in the directory. -/
def SaveOk (files : Folders) (name : Text) (saved elsewhere : Option Json) : Prop :=
  match entry .presetsDir name, saved with
  | some _, some j => WriteOk entry files .presetsDir name j
  | _, _ => ∀ j ∈ (read entry files .presetsDir name).or elsewhere, (rowName j).isSome →
      Holds (files .presetsDir) j

/-- No write and no heart taken back loses a preset of a directory, nothing is deleted, and a page
of the library is loaded only while its vector is empty. -/
def TabOk (s : PresetTabs) : TabOp → Prop
  | .save name saved elsewhere => SaveOk entry s.files name saved elsewhere
  | .importPresets j => ImportOk entry s.files (elements j)
  | .delete row elsewhere => ∀ name ∈ (s.rows .user)[row]?.bind rowName,
      (∀ e ∈ entry .presetsDir name, e.2 ∉ s.files e.1) ∧
        (entry .presetsDir name = none → elsewhere ≠ some true)
  | .heart w row active => ∀ j ∈ (s.rows w)[row]?, ∀ name ∈ rowName j,
      if active then WriteOk entry s.files .favsDir name (withDesc j)
      else ∀ e ∈ entry .favsDir name, Elsewhere (s.files e.1) e.2
  | .refresh _ => s.listOfPresets .library = []
  | .spin v => s.clamp v ≠ s.value → s.listOfPresets .library = []
  | .next => s.clamp (s.page + 1 : ℕ) ≠ s.value → s.listOfPresets .library = []
  | .prev => s.clamp (s.page - 1 : ℕ) ≠ s.value → s.listOfPresets .library = []

section Push

variable {entry} {s s' : PresetTabs} {w : Tab} {j : Json} {files : Folders} {d : Folder}

/-- Presets stand at the end of the vector and of the rows; the files are as they were. -/
structure Pushed (s : PresetTabs) (w : Tab) (js : List Json) (s' : PresetTabs) : Prop where
  listOfPresets : s'.listOfPresets = Function.update s.listOfPresets w (s.listOfPresets w ++ js)
  rows : s'.rows = Function.update s.rows w (s.rows w ++ js)
  files : s'.files = s.files

theorem addPreset_ok (h : s.addPreset w j = .ok s') : (rowName j).isSome ∧ s' = s.push w j := by
  unfold addPreset at h
  split_ifs at h with hname
  cases h
  exact ⟨hname, rfl⟩

theorem addPresetMulti_pushed {js : List Json} (h : s.addPresetMulti w js = .ok s') :
    Pushed s w js s' := by
  induction js generalizing s with
  | nil =>
    cases h
    refine ⟨?_, ?_, rfl⟩ <;> rw [List.append_nil, Function.update_eq_self]
  | cons j js ih =>
    rw [addPresetMulti, List.foldlM_cons] at h
    obtain ⟨s₁, hj, hrest⟩ := exists_of_bind_ok h
    obtain ⟨-, rfl⟩ := addPreset_ok hj
    have hp := ih hrest
    refine ⟨hp.listOfPresets.trans ?_, hp.rows.trans ?_, hp.files⟩
    · simp [push]
    · simp [push]

theorem push_shown (h : ∀ w, s.listOfPresets w = s.rows w) (w : Tab) (j : Json) (w' : Tab) :
    (s.push w j).listOfPresets w' = (s.push w j).rows w' := by
  by_cases hw : w' = w
  · subst hw
    simp only [push, Function.update_self, h]
  · simp only [push, Function.update_of_ne hw, h]

theorem tab_injective : Function.Injective Folder.tab := by
  intro d d' h
  cases d <;> cases d' <;> first | rfl | cases h

theorem mem_push (s : PresetTabs) (d d' : Folder) (j v : Json) :
    v ∈ (s.push d.tab j).listOfPresets d'.tab ↔
      v ∈ s.listOfPresets d'.tab ∨ d' = d ∧ v = j := by
  by_cases hd : d' = d
  · subst hd
    simp [push]
  · have hne : d'.tab ≠ d.tab := fun htab => hd (tab_injective htab)
    simp [push, Function.update_of_ne hne, hd]

/-- A preset that comes into a tab has to come into its directory, and nothing else. -/
theorem agree_push_iff (h : Agree s) :
    Agree ({ s with files := files }.push d.tab j) ↔
      ∀ d' v, Holds (files d') v ↔ Holds (s.files d') v ∨ d' = d ∧ v = j := by
  have hlist (d' : Folder) (v : Json) :
      v ∈ ({ s with files := files }.push d.tab j).listOfPresets d'.tab ↔
        Holds (s.files d') v ∨ d' = d ∧ v = j :=
    (mem_push _ d d' j v).trans (or_congr_left (h.stored d' v))
  constructor
  · exact fun h' d' v => (h'.stored d' v).symm.trans (hlist d' v)
  · exact fun hfiles => ⟨push_shown h.shown d.tab j, fun d' v => (hlist d' v).trans (hfiles d' v).symm⟩

/-- If the files stay, the preset is one of them. -/
theorem holds_same_iff (files : Folders) (d : Folder) (j : Json) :
    (∀ d' v, Holds (files d') v ↔ Holds (files d') v ∨ d' = d ∧ v = j) ↔ Holds (files d) j := by
  constructor
  · exact fun h => (h d j).mpr (.inr ⟨rfl, rfl⟩)
  · intro h d' v
    refine ⟨.inl, ?_⟩
    rintro (hv | ⟨rfl, rfl⟩)
    · exact hv
    · exact h

section Entry

variable {name : Text} {d₁ : Folder} {file : Text}

theorem write_none (h : entry d name = none) (j : Json) : write entry files d name j = files := by
  simp only [write, h]

theorem write_self (h : entry d name = some (d₁, file)) (j : Json) :
    write entry files d name j d₁ = (files d₁).insert file j := by
  simp only [write, h, Function.update_self]

theorem write_of_ne (h : entry d name = some (d₁, file)) (j : Json) {d' : Folder} (hd : d' ≠ d₁) :
    write entry files d name j d' = files d' := by
  simp only [write, h, Function.update_of_ne hd]

theorem remove_none (h : entry d name = none) : remove entry files d name = files := by
  simp only [remove, h]

theorem remove_self (h : entry d name = some (d₁, file)) :
    remove entry files d name d₁ = (files d₁).erase file := by
  simp only [remove, h, Function.update_self]

theorem remove_of_ne (h : entry d name = some (d₁, file)) {d' : Folder} (hd : d' ≠ d₁) :
    remove entry files d name d' = files d' := by
  simp only [remove, h, Function.update_of_ne hd]

theorem read_some (h : entry d name = some (d₁, file)) :
    read entry files d name = (files d₁).lookup file := by
  rw [read, h]
  rfl

end Entry

theorem holds_write_iff (files : Folders) (d : Folder) (name : Text) (j : Json) :
    (∀ d' v, Holds (write entry files d name j d') v ↔ Holds (files d') v ∨ d' = d ∧ v = j) ↔
      WriteOk entry files d name j := by
  cases hentry : entry d name with
  | none =>
    rw [write_none hentry, WriteOk, hentry]
    exact holds_same_iff files d j
  | some e =>
    obtain ⟨d₁, file⟩ := e
    rw [WriteOk, hentry]
    constructor
    · intro h
      have hself (v : Json) :
          Holds ((files d₁).insert file j) v ↔ Holds (files d₁) v ∨ d₁ = d ∧ v = j := by
        rw [← write_self hentry]
        exact h d₁ v
      by_cases hd : d₁ = d
      · refine ⟨holds_insert_iff.mp fun v => ?_, fun hne => absurd hd hne⟩
        exact (hself v).trans (or_congr_right (and_iff_right hd))
      · -- in the directory that is written to nothing may be new
        have hspares := holds_insert_same_iff.mp fun v =>
          (hself v).trans (or_iff_left fun hv => hd hv.1)
        have hthere := (h d j).mpr (.inr ⟨rfl, rfl⟩)
        rw [write_of_ne hentry j (Ne.symm hd)] at hthere
        exact ⟨hspares.1, fun _ => ⟨hthere, hspares.2⟩⟩
    · rintro ⟨hspares, hcross⟩ d' v
      by_cases hd' : d' = d₁
      · rw [hd', write_self hentry]
        by_cases hd : d₁ = d
        · exact (holds_insert_iff.mpr hspares v).trans (or_congr_right (and_iff_right hd).symm)
        · have hsame := holds_insert_same_iff.mpr ⟨hspares, (hcross hd).2⟩ v
          exact hsame.trans (or_iff_left fun hv => hd hv.1).symm
      · rw [write_of_ne hentry j hd']
        refine ⟨.inl, ?_⟩
        rintro (hv | ⟨rfl, rfl⟩)
        · exact hv
        · exact (hcross (Ne.symm hd')).1

theorem holds_remove_iff (files : Folders) (d : Folder) (name : Text) :
    (∀ d' v, Holds (remove entry files d name d') v ↔ Holds (files d') v) ↔
      ∀ e ∈ entry d name, Elsewhere (files e.1) e.2 := by
  cases hentry : entry d name with
  | none =>
    rw [remove_none hentry]
    exact iff_of_true (fun _ _ => Iff.rfl) fun e he => (by cases he)
  | some e =>
    obtain ⟨d₁, file⟩ := e
    constructor
    · rintro h _ ⟨⟩
      apply holds_erase_iff.mp
      intro v
      rw [← remove_self hentry]
      exact h d₁ v
    · intro h d' v
      by_cases hd' : d' = d₁
      · rw [hd', remove_self hentry]
        exact holds_erase_iff.mpr (h _ rfl) v
      · rw [remove_of_ne hentry hd']

end Push

section Turns

variable {entry} {s s' : PresetTabs}

/-- A preset is read back before it is added. -/
theorem save_ok {name : Text} {saved elsewhere : Option Json}
    (h : s.save entry name saved elsewhere = .ok s') :
    ∃ j, (read entry (saved.elim s.files (write entry s.files .presetsDir name)) .presetsDir
        name).or elsewhere = some j ∧ (rowName j).isSome ∧
      s' = { s with files := saved.elim s.files (write entry s.files .presetsDir name) }.push
        .user j := by
  unfold save at h
  simp only at h
  split at h
  · cases h
  · rename_i j hj
    obtain ⟨hname, rfl⟩ := addPreset_ok h
    exact ⟨j, hj, hname, rfl⟩

theorem importPreset_ok {preset : Json} (h : s.importPreset entry preset = .ok s') :
    ∃ name preset', nameMember preset = some (name, preset') ∧ (rowName preset').isSome ∧
      s' = { s with files := write entry s.files .presetsDir (basename name) preset' }.push .user
        preset' := by
  unfold importPreset at h
  split at h
  · cases h
  · rename_i name preset' hmember
    obtain ⟨hname, rfl⟩ := addPreset_ok h
    exact ⟨name, preset', hmember, hname, rfl⟩

/-- Nothing is deleted, or the row is removed with the file of its name. -/
theorem delete_ok {row : ℕ} {elsewhere : Option Bool}
    (h : s.delete entry row elsewhere = .ok s') :
    TabOk entry s (.delete row elsewhere) ∧ s' = s ∨
      ¬ TabOk entry s (.delete row elsewhere) ∧ row < (s.rows .user).length ∧
        ∃ name, s' =
          { s with
            rows := Function.update s.rows .user ((s.rows .user).eraseIdx row)
            files := remove entry s.files .presetsDir name } := by
  unfold delete at h
  cases hrow : (s.rows .user)[row]?.bind rowName with
  | none =>
    rw [hrow] at h
    cases h
    refine .inl ⟨fun name hname => ?_, rfl⟩
    rw [hrow] at hname
    cases hname
  | some name =>
    have hlt : row < (s.rows .user).length := by
      obtain ⟨j, hj, -⟩ := Option.bind_eq_some_iff.mp hrow
      exact (List.getElem?_eq_some_iff.mp hj).1
    have hok : TabOk entry s (.delete row elsewhere) ↔
        (∀ e ∈ entry .presetsDir name, e.2 ∉ s.files e.1) ∧
          (entry .presetsDir name = none → elsewhere ≠ some true) := by
      rw [TabOk, hrow]
      exact ⟨fun hall => hall name rfl, fun hall _ hname => (by cases hname; exact hall)⟩
    rw [hok]
    rw [hrow] at h
    simp only at h
    split at h
    · rename_i d file hentry
      rw [hentry]
      split_ifs at h with hmem
      · cases h
        exact .inr ⟨fun hall => hall.1 _ rfl hmem, hlt, name, rfl⟩
      · cases h
        refine .inl ⟨⟨?_, fun hnone => (by cases hnone)⟩, rfl⟩
        rintro _ ⟨⟩
        exact hmem
    · rename_i hentry
      rw [hentry]
      split at h
      · cases h
      · cases h
        exact .inr ⟨fun hall => hall.2 rfl rfl, hlt, name, rfl⟩
      · cases h
        exact .inl ⟨⟨fun e he => (by cases he), fun _ helse => (by cases helse)⟩, rfl⟩

/-- A row without a name is left alone; a heart that is set adds the preset, one that is taken away
removes its file only. -/
theorem heart_ok {w : Tab} {row : ℕ} {active : Bool} (h : s.heart entry w row active = .ok s') :
    (∀ j ∈ (s.rows w)[row]?, rowName j = none) ∧ s' = s ∨
      ∃ j name, (s.rows w)[row]? = some j ∧ rowName j = some name ∧
        (active = true ∧ s' =
            { s with files := write entry s.files .favsDir name (withDesc j) }.push .heart
              (withDesc j) ∨
          active = false ∧ s' = { s with files := remove entry s.files .favsDir name }) := by
  unfold heart at h
  cases hrow : (s.rows w)[row]? with
  | none =>
    rw [hrow] at h
    cases h
    exact .inl ⟨fun j hj => (by cases hj), rfl⟩
  | some j =>
    rw [hrow] at h
    simp only at h
    cases hname : rowName j with
    | none =>
      rw [hname] at h
      cases h
      refine .inl ⟨?_, rfl⟩
      rintro _ ⟨⟩
      exact hname
    | some name =>
      rw [hname] at h
      refine .inr ⟨j, name, rfl, hname, ?_⟩
      cases active with
      | true => exact .inl ⟨rfl, (addPreset_ok h).2⟩
      | false =>
        cases h
        exact .inr ⟨rfl, rfl⟩

end Turns

section Step

variable {entry} {s s' : PresetTabs}

/-- A page is shown as the vector has it exactly when the vector was empty. -/
theorem libraryLoad_agree_iff (h : Agree s) (hs : s.libraryLoad = .ok s') :
    Agree s' ↔ s.listOfPresets .library = [] := by
  have hp := addPresetMulti_pushed hs
  have hlist := congrFun hp.listOfPresets .library
  have hrows := congrFun hp.rows .library
  simp only [Function.update_self, List.nil_append] at hlist hrows
  constructor
  · intro h'
    have hshown := h'.shown .library
    rw [hlist, hrows] at hshown
    exact List.append_left_eq_self.mp hshown
  · intro hnil
    refine ⟨fun w => ?_, fun d j => ?_⟩
    · by_cases hw : w = .library
      · rw [hw, hlist, hrows, hnil, List.nil_append]
      · rw [hp.listOfPresets, hp.rows, Function.update_of_ne hw, Function.update_of_ne hw]
        exact (h.shown w).trans (Function.update_of_ne hw _ _).symm
    · have hd : d.tab ≠ .library := by cases d <;> decide
      rw [hp.listOfPresets, hp.files, Function.update_of_ne hd]
      exact h.stored d j

/-- Nothing happens, or the page of the new value is loaded. -/
theorem setValue_ok {v : ℚ} (hs : s.setValue v = .ok s') :
    s.clamp v = s.value ∧ s' = s ∨ s.clamp v ≠ s.value ∧
      { s with value := s.clamp v, page := ⌊s.clamp v⌋.toNat }.libraryLoad = .ok s' := by
  rw [setValue] at hs
  by_cases hsame : s.clamp v = s.value
  · rw [PageSpin.setValue_of_eq hsame, Option.elim_none] at hs
    cases hs
    exact .inl ⟨hsame, rfl⟩
  · rw [PageSpin.setValue_of_ne hsame, Option.elim_some] at hs
    exact .inr ⟨hsame, hs⟩

theorem setValue_agree_iff (h : Agree s) {v : ℚ} (hs : s.setValue v = .ok s') :
    Agree s' ↔ (s.clamp v ≠ s.value → s.listOfPresets .library = []) := by
  rcases setValue_ok hs with ⟨hsame, rfl⟩ | ⟨hmoves, hs⟩
  · exact iff_of_true h fun hne => absurd hsame hne
  · have hload : Agree s' ↔ s.listOfPresets .library = [] :=
      libraryLoad_agree_iff (s := { s with value := s.clamp v, page := ⌊s.clamp v⌋.toNat })
        ⟨h.shown, h.stored⟩ hs
    rw [hload]
    exact ⟨fun hnil _ => hnil, fun hnil => hnil hmoves⟩

theorem refresh_agree_iff (h : Agree s) {downloaded : Json} (hs : s.refresh downloaded = .ok s') :
    Agree s' ↔ s.listOfPresets .library = [] :=
  libraryLoad_agree_iff
    (s := { s with
      page := 0
      libraryJson := downloaded
      upper := (elements downloaded).length / pageSize }) ⟨h.shown, h.stored⟩ hs

theorem turn_agree_iff (h : Agree s) {page : ℕ} {v : ℚ}
    (hs : { s with page := page }.setValue v = .ok s') :
    Agree s' ↔ (s.clamp v ≠ s.value → s.listOfPresets .library = []) :=
  setValue_agree_iff (s := { s with page := page }) ⟨h.shown, h.stored⟩ hs

theorem save_agree_iff (h : Agree s) {name : Text} {saved elsewhere : Option Json}
    (hs : s.save entry name saved elsewhere = .ok s') :
    Agree s' ↔ SaveOk entry s.files name saved elsewhere := by
  obtain ⟨j, hj, hname, rfl⟩ := save_ok hs
  refine (agree_push_iff (d := .presetsDir) h).trans ?_
  -- what is only read has to be there already
  have hread (hfiles : saved.elim s.files (write entry s.files .presetsDir name) = s.files) :
      (∀ d v, Holds (saved.elim s.files (write entry s.files .presetsDir name) d) v ↔
        Holds (s.files d) v ∨ d = .presetsDir ∧ v = j) ↔
      ∀ k ∈ (read entry s.files .presetsDir name).or elsewhere, (rowName k).isSome →
        Holds (s.files .presetsDir) k := by
    rw [hfiles] at hj ⊢
    rw [hj, holds_same_iff]
    constructor
    · rintro hv _ ⟨⟩ -
      exact hv
    · exact fun hv => hv j rfl hname
  cases hentry : entry .presetsDir name with
  | none =>
    simp only [SaveOk, hentry]
    apply hread
    cases saved with
    | none => rfl
    | some k => exact write_none hentry k
  | some e =>
    cases saved with
    | none =>
      simp only [SaveOk, hentry]
      exact hread rfl
    | some k =>
      rw [Option.elim_some, read_some hentry, write_self hentry, AList.lookup_insert,
        Option.some_or, Option.some.injEq] at hj
      subst hj
      simp only [SaveOk, hentry]
      exact holds_write_iff s.files .presetsDir name k

theorem delete_agree_iff (h : Agree s) {row : ℕ} {elsewhere : Option Bool}
    (hs : s.delete entry row elsewhere = .ok s') :
    Agree s' ↔ TabOk entry s (.delete row elsewhere) := by
  rcases delete_ok hs with ⟨hok, rfl⟩ | ⟨hok, hlt, name, rfl⟩
  · exact iff_of_true h hok
  · -- a row less than presets in the vector
    apply iff_of_false _ hok
    intro h'
    have hshown := congrArg List.length (h'.shown .user)
    simp only [h.shown, Function.update_self, List.length_eraseIdx_of_lt hlt] at hshown
    omega

theorem heart_agree_iff (h : Agree s) {w : Tab} {row : ℕ} {active : Bool}
    (hs : s.heart entry w row active = .ok s') :
    Agree s' ↔ TabOk entry s (.heart w row active) := by
  rcases heart_ok hs with ⟨hnone, rfl⟩ | ⟨j, name, hrow, hname, hturn⟩
  · refine iff_of_true h fun j hj name hname => ?_
    rw [hnone j hj] at hname
    cases hname
  · have hok : TabOk entry s (.heart w row active) ↔
        if active then WriteOk entry s.files .favsDir name (withDesc j)
        else ∀ e ∈ entry .favsDir name, Elsewhere (s.files e.1) e.2 := by
      rw [TabOk, hrow]
      constructor
      · exact fun hall => hall j rfl name hname
      · rintro hall _ ⟨⟩ _ hn
        rw [hname, Option.mem_some_iff] at hn
        rwa [← hn]
    rw [hok]
    rcases hturn with ⟨rfl, rfl⟩ | ⟨rfl, rfl⟩
    · exact (agree_push_iff (d := .favsDir) h).trans
        (holds_write_iff s.files .favsDir name (withDesc j))
    · refine Iff.trans ?_ (holds_remove_iff s.files .favsDir name)
      constructor
      · exact fun h' d v => (h'.stored d v).symm.trans (h.stored d v)
      · exact fun hfiles => ⟨h.shown, fun d v => (h.stored d v).trans (hfiles d v).symm⟩

theorem import_agree (h : Agree s) {presets : List Json} (hok : ImportOk entry s.files presets)
    (hs : presets.foldlM (importPreset entry) s = .ok s') : Agree s' := by
  induction presets generalizing s with
  | nil =>
    cases hs
    exact h
  | cons preset presets ih =>
    rw [List.foldlM_cons] at hs
    obtain ⟨s₁, hturn, hrest⟩ := exists_of_bind_ok hs
    obtain ⟨name, preset', hmember, hname, rfl⟩ := importPreset_ok hturn
    unfold ImportOk at hok
    rw [hmember] at hok
    obtain ⟨hwrite, hok'⟩ := hok hname
    refine ih ?_ hok' hrest
    exact (agree_push_iff (d := .presetsDir) h).mpr
      ((holds_write_iff s.files .presetsDir (basename name) preset').mpr hwrite)

theorem isString_of_rowName {preset preset' name : Json}
    (h : nameMember preset = some (name, preset')) (hrow : (rowName preset').isSome) :
    isString name = true := by
  rw [rowName, nameMember_idem h, Option.bind_some] at hrow
  by_contra hname
  rw [if_neg hname] at hrow
  cases hrow

/-- An import that goes through writes the files of `importEntries`, one after the other. -/
theorem files_import {presets : List Json}
    (hs : presets.foldlM (importPreset entry) s = .ok s') :
    s'.files = (Presets.importEntries presets).files.foldl
      (fun files f => write entry files .presetsDir f.1 f.2) s.files := by
  induction presets generalizing s with
  | nil =>
    cases hs
    rfl
  | cons preset presets ih =>
    rw [List.foldlM_cons] at hs
    obtain ⟨s₁, hturn, hrest⟩ := exists_of_bind_ok hs
    obtain ⟨name, preset', hmember, hname, rfl⟩ := importPreset_ok hturn
    unfold Presets.importEntries
    simp only [hmember, if_pos (isString_of_rowName hmember hname), List.foldl_cons]
    exact ih hrest

theorem agree_my {files : Folders} {quick library : Json} (hs : my files quick library = .ok s) :
    Agree s := by
  obtain ⟨s₁, huser, hs⟩ := exists_of_bind_ok hs
  obtain ⟨s₂, hheart, hs⟩ := exists_of_bind_ok hs
  obtain ⟨s₃, hfactory, hload⟩ := exists_of_bind_ok hs
  have h₁ := addPresetMulti_pushed huser
  have h₂ := addPresetMulti_pushed hheart
  have h₃ := addPresetMulti_pushed hfactory
  have hfiles : s₃.files = files := (h₃.files.trans h₂.files).trans h₁.files
  have hagree : Agree s₃ := by
    refine ⟨fun w => ?_, fun d j => ?_⟩
    · rw [h₃.listOfPresets, h₃.rows, h₂.listOfPresets, h₂.rows, h₁.listOfPresets, h₁.rows]
    · rw [hfiles, holds_iff_mem, h₃.listOfPresets, h₂.listOfPresets, h₁.listOfPresets, h₁.files]
      cases d <;> simp [Folder.tab]
  apply (libraryLoad_agree_iff hagree hload).mpr
  rw [h₃.listOfPresets, h₂.listOfPresets, h₁.listOfPresets]
  rfl

theorem agree_step (h : Agree s) {op : TabOp} (hok : TabOk entry s op)
    (hs : step entry s op = .ok s') : Agree s' := by
  cases op with
  | save name saved elsewhere => exact (save_agree_iff h hs).mpr hok
  | importPresets j => exact import_agree h hok hs
  | delete row elsewhere => exact (delete_agree_iff h hs).mpr hok
  | heart w row active => exact (heart_agree_iff h hs).mpr hok
  | refresh downloaded => exact (refresh_agree_iff h hs).mpr hok
  | spin v => exact (setValue_agree_iff h hs).mpr hok
  | next => exact (turn_agree_iff h hs).mpr hok
  | prev => exact (turn_agree_iff h hs).mpr hok

/-- A single step away from agreement is one that the condition leaves out; only an import can make
good in a later turn what it lost. -/
theorem tabOk_of_agree (h : Agree s) {op : TabOp} (himport : ∀ j, op ≠ .importPresets j)
    (hs : step entry s op = .ok s') (h' : Agree s') : TabOk entry s op := by
  cases op with
  | save name saved elsewhere => exact (save_agree_iff h hs).mp h'
  | importPresets j => exact absurd rfl (himport j)
  | delete row elsewhere => exact (delete_agree_iff h hs).mp h'
  | heart w row active => exact (heart_agree_iff h hs).mp h'
  | refresh downloaded => exact (refresh_agree_iff h hs).mp h'
  | spin v => exact (setValue_agree_iff h hs).mp h'
  | next => exact (turn_agree_iff h hs).mp h'
  | prev => exact (turn_agree_iff h hs).mp h'

end Step

/-- Vectors, rows and files agree all through a run that loses no preset, deletes none and loads no
page of the library over another. -/
theorem agree_of_tabOk {files : Folders} {quick library : Json} {s : PresetTabs}
    (hs : my files quick library = .ok s) (ops : List TabOp)
    (hok : Admits (step entry) (TabOk entry) s ops) :
    Safe (step entry) (fun _ => False) Agree s ops :=
  safe_of_admits (fun _ h => h) (fun _ _ h hop => ⟨fun _ _ => id, fun _ => agree_step h hop⟩)
    (agree_my hs) hok

/-- Every name is that of a file. -/
def plainEntry (d : Folder) (name : Text) : Option (Folder × Text) := some (d, name)

def clean : Json := .obj [("name".toList, .str "clean".toList)]

def bright : Json := .obj [("name".toList, .str "bright".toList)]

/-- A preset of the factory gets its heart, is saved too, another is imported, the library comes
down, a row that is not there is deleted, and the page is turned. -/
theorem agree_of_save : ∃ s, my (fun _ => ∅) (.arr [clean]) .null = .ok s ∧
    Safe (step plainEntry) (fun _ => False) Agree s
      [.heart .factory 0 true, .save "clean".toList (some clean) none,
        .importPresets (.arr [bright]), .refresh (.arr [clean]), .delete 9 none, .next] := by
  have hmy : my (fun _ => ∅) (.arr [clean]) .null = .ok _ := rfl
  refine ⟨_, hmy, agree_of_tabOk plainEntry hmy _ ?_⟩
  refine (admits_cons _ _ _).mpr ⟨?_, fun s₁ h₁ => ?_⟩
  · rintro _ ⟨⟩ _ ⟨⟩
    exact ⟨spares_of_notMem (AList.notMem_empty _) _, fun hne => absurd rfl hne⟩
  cases h₁
  refine (admits_cons _ _ _).mpr ⟨?_, fun s₂ h₂ => ?_⟩
  · exact ⟨spares_of_notMem (AList.notMem_empty _) _, fun hne => absurd rfl hne⟩
  cases h₂
  refine (admits_cons _ _ _).mpr ⟨?_, fun s₃ h₃ => ?_⟩
  · exact fun _ => ⟨⟨spares_of_notMem (by decide) _, fun hne => absurd rfl hne⟩, trivial⟩
  cases h₃
  refine (admits_cons _ _ _).mpr ⟨rfl, fun s₄ h₄ => ?_⟩
  cases h₄
  refine (admits_cons _ _ _).mpr ⟨?_, fun s₅ h₅ => ?_⟩
  · rintro _ ⟨⟩
  cases h₅
  refine (admits_cons _ _ _).mpr ⟨fun hmoves => absurd ?_ hmoves, fun _ _ => admits_nil _⟩
  -- the adjustment is at one already
  exact PageSpin.clamp_of_mem (v := (1 : ℕ)) (by norm_num)

/-- The file and the row go, and the footswitch still comes to the preset. -/
theorem deleted_preset_stays : ∃ s,
    my (Function.update (fun _ => ∅) .presetsDir (AList.singleton "clean".toList clean))
      .null .null = .ok s ∧
      ¬ Safe (step plainEntry) (fun _ => False) Agree s [.delete 0 none] := by
  refine ⟨_, rfl, fun hsafe => ?_⟩
  have hagree := (hsafe _ (List.prefix_refl _)).1 _ rfl
  have hshown := congrArg List.length (hagree.shown .user)
  cases hshown

end PresetTabs

end AmpRack

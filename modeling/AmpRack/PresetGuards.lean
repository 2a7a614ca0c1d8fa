import AmpRack.JsonFiles
import AmpRack.PresetLoader
import AmpRack.SavedPreset

/-!
# The guards of loading and saving

`load_preset` and `savePreset` compare a JSON value with `NULL`, which is the number zero. A file
that is missing is read as an empty object and an empty chain gives `null`; neither is a number. So
the guards stop nothing: the rack is cleared, and the file is written over.
-/

namespace AmpRack

open GuardedRun JsonText RackWindow

/-- The file is in neither of the places where it is looked for. -/
def Missing (disk : Disk) (filename : Text) : Prop :=
  disk filename = none ∧ disk (installedPath filename) = none

namespace RackWindow

/-- `Rack::load_preset (std::string)`, with the value that it returns. -/
def loadPresetFile (w : Installation) (realized : Bool) (disk : Disk) (s : RackWindow)
    (filename : Text) : Except LoadStop (Bool × RackWindow) := do
  let j ← (filenameToJson disk filename).mapError .thrown
  if j.isZero then return (false, s)
  else
    let s ← s.loadPreset w realized j
    return (true, s)

end RackWindow

/-- `Engine::savePreset` with the file that it writes, and the value that it returns. -/
def Engine.savePresetFile (writable : Text → Bool) (disk : Disk) (e : Engine)
    (filename description : Text) : Except Fault (Bool × Disk) :=
  (e.savePreset filename description).map fun saved =>
    match saved with
    | none => (false, disk)
    | some preset => (true, jsonToFilename writable disk preset filename)

/-- The load returns `false` and changes nothing. -/
def LoadRefused (w : Installation) (realized : Bool) (disk : Disk) (s : RackWindow)
    (filename : Text) : Prop :=
  s.loadPresetFile w realized disk filename = .ok (false, s)

/-- The save returns `false` and leaves the files as they are. -/
def SaveRefused (writable : Text → Bool) (disk : Disk) (e : Engine) (filename description : Text) :
    Prop :=
  e.savePresetFile writable disk filename description = .ok (false, disk)

section Guards

variable {w : Installation} {realized : Bool} {disk : Disk} {s : RackWindow} {filename : Text}

theorem clear_empties (r : Rack) : ∃ r', r.clear = .ok r' ∧ r'.chain = [] := by
  have hfits : Engine.Fits [] := Nat.zero_le _
  obtain ⟨e, he, hed⟩ := Engine.edit_some (e := r.engine) hfits
  refine ⟨{ r with listBox := r.listBox.filter (· ∉ r.plugs), plugs := [], engine := e }, ?_,
    hed.chain⟩
  rw [Rack.clear, Engine.clear, he]
  rfl

/-- A missing file clears the rack and its label. -/
theorem loadPresetFile_of_missing (w : Installation) (realized : Bool) (s : RackWindow)
    (h : Missing disk filename) :
    ∃ r, s.rack.clear = .ok r ∧ r.chain = [] ∧ s.loadPresetFile w realized disk filename =
      .ok (true, { rack := r, currentPatch := "null".toList }) := by
  obtain ⟨r, hr, hchain⟩ := clear_empties s.rack
  have hload : s.loadPreset w realized (.obj []) =
      .ok { rack := r, currentPatch := "null".toList } := by
    simp only [RackWindow.loadPreset, hr]
    rfl
  refine ⟨r, hr, hchain, ?_⟩
  rw [RackWindow.loadPresetFile, filenameToJson_of_missing h.1 h.2]
  change (s.loadPreset w realized (.obj [])).bind (fun s => .ok (true, s)) = _
  rw [hload]
  rfl

/-- An empty chain is saved over whatever the file was. -/
theorem savePresetFile_of_nil (writable : Text → Bool) (disk : Disk) {e : Engine}
    (h : e.activePlugins = []) (filename description : Text) :
    e.savePresetFile writable disk filename description =
      .ok (true, jsonToFilename writable disk (.obj [("desc".toList, .str description),
        ("name".toList, .str (lastComponent filename))]) filename) := by
  rw [Engine.savePresetFile, Engine.savePreset_of_nil h]
  rfl

theorem not_loadRefused (w : Installation) (realized : Bool) (s : RackWindow)
    (h : Missing disk filename) : ¬ LoadRefused w realized disk s filename := by
  intro hrefused
  obtain ⟨r, -, -, hload⟩ := loadPresetFile_of_missing w realized s h
  rw [LoadRefused, hload] at hrefused
  cases hrefused

theorem not_saveRefused (writable : Text → Bool) (disk : Disk) {e : Engine}
    (h : e.activePlugins = []) (filename description : Text) :
    ¬ SaveRefused writable disk e filename description := by
  intro hrefused
  rw [SaveRefused, savePresetFile_of_nil writable disk h] at hrefused
  cases hrefused

end Guards

/-- Whatever the rack, a missing file is loaded; and an empty chain is saved. -/
theorem guards_stop_nothing (w : Installation) (realized : Bool) (disk : Disk) (s : RackWindow)
    (filename : Text) (hmissing : Missing disk filename) (writable : Text → Bool) (e : Engine)
    (hempty : e.activePlugins = []) (target description : Text) :
    ¬ LoadRefused w realized disk s filename ∧ ¬ SaveRefused writable disk e target description :=
  ⟨not_loadRefused w realized s hmissing, not_saveRefused writable disk hempty target description⟩

/-- The last preset, and no other file. -/
def savedDisk : Disk := fun path =>
  if path = "/default".toList then some (fileText (.obj [("name".toList, .str "Lead".toList)]))
  else none

theorem guards_stop_nothing_here :
    ¬ LoadRefused partlyInstalled true savedDisk {} "gone.json".toList ∧
      ¬ SaveRefused (fun _ => true) savedDisk {} "/default".toList [] :=
  guards_stop_nothing partlyInstalled true savedDisk {} "gone.json".toList ⟨by decide, by decide⟩
    (fun _ => true) {} rfl "/default".toList []

/-- One plugin, without a file. -/
def leadPreset : Json :=
  .obj [("controls".toList, .obj (PresetEntry.slots [bareEntry "Amp"])),
    ("name".toList, .str "Lead".toList)]

/-- A preset is loaded, then a file that is missing; the last preset is lost when the chain is
empty. -/
theorem missing_file_clears_rack :
    ∃ s s' disk', run (RackWindow.step partlyInstalled) {} [.loadPreset true leadPreset] = .ok s ∧
      s.rack.chain.length = 1 ∧ s.currentPatch = "\"Lead\"".toList ∧
      Missing savedDisk "gone.json".toList ∧
      s.loadPresetFile partlyInstalled true savedDisk "gone.json".toList = .ok (true, s') ∧
      s'.rack.chain = [] ∧ s'.currentPatch = "null".toList ∧
      Engine.savePresetFile (fun _ => true) savedDisk {} "/default".toList [] = .ok (true, disk') ∧
      disk' "/default".toList ≠ savedDisk "/default".toList := by
  have hmissing : Missing savedDisk "gone.json".toList := ⟨by decide, by decide⟩
  obtain ⟨s, hs, hlength, hlabel⟩ : ∃ s,
      run (RackWindow.step partlyInstalled) {} [.loadPreset true leadPreset] = .ok s ∧
        s.rack.chain.length = 1 ∧ s.currentPatch = "\"Lead\"".toList := ⟨_, rfl, rfl, rfl⟩
  obtain ⟨r, -, hchain, hload⟩ := loadPresetFile_of_missing partlyInstalled true s hmissing
  refine ⟨s, _, _, hs, hlength, hlabel, hmissing, hload, hchain, rfl,
    savePresetFile_of_nil (fun _ => true) savedDisk rfl "/default".toList [], ?_⟩
  rw [jsonToFilename, if_pos rfl, Function.update_self]
  decide

end AmpRack

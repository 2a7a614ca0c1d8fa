import AmpRack.JsonMembers
import AmpRack.RackLoad

/-!
# Saving a preset and reading it back

`Engine.getPreset` writes an entry for every plugin of the chain under its position, `savePreset`
adds a description and a name. `Preset.ofJson` is what the loader reads: the entries come in the
order of their keys, which are texts.
-/

namespace JsonText

/-- `j [k] = v`, which makes an object of `null`; other values throw. -/
def Json.assign (j : Json) (k : List Char) (v : Json) : Json :=
  match j with
  | .null => .obj [(k, v)]
  | .obj ms => .obj (insert k v ms)
  | j => j

/-- `j == NULL`, a comparison with the number zero. -/
def Json.isZero : Json → Bool
  | .int n => n == 0
  | .float literal => TextScan.atof literal == 0
  | _ => false

end JsonText

namespace AmpRack

open TextScan JsonText

/-- `path.substr (path.find_last_of ("/") + 1)`. -/
def lastComponent (path : Text) : Text := (path.reverse.takeWhile (· != '/')).reverse

/-- The types that `getPreset` skips. -/
def PluginControl.isAtom (c : PluginControl) : Bool :=
  c.type = .atom || c.type = .lv2AtomInputPort || c.type = .lv2AtomOutputPort

namespace Plugin

/-- The condition on the separator compares with the number of controls plus two and always holds. -/
def controlText (p : Plugin) : Except Fault Text :=
  p.pluginControls.foldlM (fun controls c =>
    if c.isAtom then .ok controls
    else
      match c.defValue with
      | none => .error .nullDef
      | some v => .ok (controls ++ fixed 6 v ++ [';'])) []

def presetEntry (p : Plugin) : Except Fault PresetEntry :=
  p.controlText.map fun controls => {
    name := p.lv2Name
    controls := controls
    file := if p.loadedFileName = [] then none else some (p.loadedFileName, p.loadedFileType) }

end Plugin

namespace PresetEntry

/-- The members stand in the order of their keys. -/
def toJson (entry : PresetEntry) : Json :=
  .obj ([("controls".toList, .str entry.controls)] ++
    (match entry.file with
    | none => []
    | some (filename, filetype) =>
      [("filename".toList, .str filename), ("filetype".toList, .int filetype)]) ++
    [("name".toList, .str entry.name)])

def ofJson (j : Json) : Option PresetEntry :=
  match j.get? "name".toList, j.get? "controls".toList with
  | some (.str name), some (.str controls) =>
    match j.get? "filename".toList, j.get? "filetype".toList with
    | none, _ => some { name := name, controls := controls }
    | some (.str filename), some (.int filetype) =>
      some { name := name, controls := controls, file := some (filename, filetype) }
    | _, _ => none
  | _, _ => none

theorem ofJson_toJson (entry : PresetEntry) : ofJson entry.toJson = some entry := by
  obtain ⟨name, controls, _ | ⟨filename, filetype⟩⟩ := entry <;> rfl

/-- `plugins [std::to_string (i)] = p`, for every position. -/
def slots (entries : List PresetEntry) : Members := numbered (entries.map toJson)

end PresetEntry

namespace Engine

/-- An empty chain has the empty preset. -/
def getPreset (e : Engine) : Except Fault Json :=
  if e.activePlugins = [] then .ok .null
  else (e.activePlugins.mapM Plugin.presetEntry).map fun entries =>
    .obj [("controls".toList, .obj (PresetEntry.slots entries))]

/-- What is written to the file, unless `false` is returned. -/
def savePreset (e : Engine) (filename description : Text) : Except Fault (Option Json) :=
  e.getPreset.map fun preset =>
    if preset.isZero then none
    else some ((preset.assign "desc".toList (.str description)).assign "name".toList
      (.str (lastComponent filename)))

end Engine

namespace Preset

def textOf (key : Text) (j : Json) : Text :=
  match j.get? key with
  | some (.str s) => s
  | _ => []

/-- A preset that the loader can read. -/
def ofJson (j : Json) : Option Preset :=
  match j.get? "controls".toList with
  | some (.obj members) => (members.mapM fun m => PresetEntry.ofJson m.2).map fun entries =>
      { name := textOf "name".toList j, desc := textOf "desc".toList j, entries := entries }
  | _ => none

end Preset

section Slots

/-- The entry of a position is found under its number. -/
theorem get?_slots {entries : List PresetEntry} {k : ℕ} {entry : PresetEntry}
    (h : entries[k]? = some entry) :
    (Json.obj (PresetEntry.slots entries)).get? (Nat.toDigits 10 k) = some entry.toJson := by
  refine get?_numbered ?_
  rw [List.getElem?_map, h, Option.map_some]

theorem mapM_eq_filterMap {α β : Type*} {f : α → Option β} {xs : List α}
    (h : ∀ x ∈ xs, (f x).isSome) : xs.mapM f = some (xs.filterMap f) := by
  induction xs with
  | nil => rfl
  | cons x xs ih =>
    obtain ⟨y, hy⟩ := Option.isSome_iff_exists.mp (h x List.mem_cons_self)
    rw [List.mapM_cons, hy, ih fun z hz => h z (List.mem_cons_of_mem x hz),
      List.filterMap_cons_some hy]
    rfl

/-- The entries as the loader meets them. -/
def PresetEntry.inKeyOrder (entries : List PresetEntry) : List PresetEntry :=
  (slots entries).filterMap fun m => ofJson m.2

theorem filterMap_ofJson_toJson (entries : List PresetEntry) :
    (entries.map PresetEntry.toJson).filterMap PresetEntry.ofJson = entries := by
  rw [List.filterMap_map]
  simp only [Function.comp_def, PresetEntry.ofJson_toJson]
  exact List.filterMap_some

theorem inKeyOrder_eq (entries : List PresetEntry) :
    PresetEntry.inKeyOrder entries =
      ((PresetEntry.slots entries).map (·.2)).filterMap PresetEntry.ofJson := by
  rw [List.filterMap_map]
  rfl

theorem inKeyOrder_perm (entries : List PresetEntry) :
    (PresetEntry.inKeyOrder entries).Perm entries := by
  rw [inKeyOrder_eq]
  refine ((map_numbered_perm (entries.map PresetEntry.toJson)).filterMap _).trans (.of_eq ?_)
  exact filterMap_ofJson_toJson entries

theorem mapM_ofJson_slots (entries : List PresetEntry) :
    ((PresetEntry.slots entries).mapM fun m => PresetEntry.ofJson m.2) =
      some (PresetEntry.inKeyOrder entries) := by
  apply mapM_eq_filterMap
  intro m hm
  obtain ⟨e, -, he⟩ := List.mem_map.mp (exists_of_mem_numbered hm).1
  rw [← he, PresetEntry.ofJson_toJson]
  rfl

/-- Up to ten entries are met in the order of the chain. -/
theorem inKeyOrder_of_le {entries : List PresetEntry} (h : entries.length ≤ 10) :
    PresetEntry.inKeyOrder entries = entries := by
  have hmap : (PresetEntry.slots entries).map (·.2) = entries.map PresetEntry.toJson := by
    apply map_numbered_of_le
    rwa [List.length_map]
  rw [inKeyOrder_eq, hmap, filterMap_ofJson_toJson]

end Slots

section GetPreset

variable {e : Engine} {entries : List PresetEntry}

theorem getPreset_eq (hne : e.activePlugins ≠ [])
    (h : e.activePlugins.mapM Plugin.presetEntry = .ok entries) :
    e.getPreset = .ok (.obj [("controls".toList, .obj (PresetEntry.slots entries))]) := by
  rw [Engine.getPreset, if_neg hne, h]
  rfl

/-- The loader reads the entries that were written. -/
theorem ofJson_getPreset (entries : List PresetEntry) :
    Preset.ofJson (.obj [("controls".toList, .obj (PresetEntry.slots entries))]) =
      some { name := [], desc := [], entries := PresetEntry.inKeyOrder entries } := by
  have hget : (Json.obj [("controls".toList, .obj (PresetEntry.slots entries))]).get?
      "controls".toList = some (.obj (PresetEntry.slots entries)) := rfl
  simp only [Preset.ofJson, hget, mapM_ofJson_slots]
  rfl

end GetPreset

end AmpRack

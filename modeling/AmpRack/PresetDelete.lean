import AmpRack.PresetExport

/-!
# Deleting a preset

The path of a preset is made three times: a save puts the text that was entered behind the directory
of the presets, the preset is called after what follows the last slash of it, and the Delete button
of the row has this name as it was dumped, with its escapes. An import writes to the path of the
button. `DeleteOk` says when a save does.
-/

namespace AmpRack

open JsonText DotPath

/-- What the files hold, under the directories and the name that lead to them from the root. There
are no links. -/
abbrev Tree := List Text → Option Text

/-- `opens` are the paths that a file can be opened under for writing, which no directory can. -/
structure FileSystem where
  cwd : List Text
  home : Text
  opens : Text → Bool
  isFileName : ∀ path, opens path = true → IsFileName (lastComponent path)

/-- The name of a row's Delete button, and the file that was written for the row. -/
structure UserRow where
  tree : Tree
  path : Text
  name : Text

/-- A preset comes to the User tab from the Save dialog, or from an import. -/
inductive RowSource
  | save (text : Text) (p : SavedPreset)
  | importPreset (preset : Json)

namespace FileSystem

variable (f : FileSystem) (tree : Tree)

def presetsDir : Text := AmpRack.presetsDir f.home

/-- The directory of the presets, from the root. -/
def presetsPlace : List Text := resolve f.cwd f.presetsDir

/-- `json_to_filename`. -/
def write (path : Text) (j : Json) : Tree :=
  Function.update tree (resolve f.cwd path) (some (fileText j))

/-- `add_cb`: the preset is named after its path, written and read back for the row. -/
def addCb (text : Text) (p : SavedPreset) : Option UserRow :=
  let path := f.presetsDir ++ text
  if text = [] ∨ f.opens path = false then none
  else
    let tree := f.write tree path { p with name := lastComponent path }.toJson
    (((tree (resolve f.cwd path)).bind parse).bind rowName).map fun name =>
      { tree := tree, path := path, name := name }

/-- One turn of `import_presets_from_json`. -/
def importPreset (preset : Json) : Option UserRow :=
  (nameMember preset).bind fun (name, preset) =>
    let path := f.presetsDir ++ basename name
    if f.opens path = false then none
    else (rowName preset).map fun name =>
      { tree := f.write tree path preset, path := path, name := name }

/-- The row, if a file was written and a row was added. -/
def addRow : RowSource → Option UserRow
  | .save text p => f.addCb tree text p
  | .importPreset preset => f.importPreset tree preset

/-- `delete_callback`: whether the file was removed, and what is left. -/
def deleteCallback (name : Text) : Bool × Tree :=
  let place := resolve f.cwd (f.presetsDir ++ name)
  if (tree place).isSome then (true, Function.update tree place none) else (false, tree)

/-- Pressing Delete removes the file of the row and no other. -/
def RemovesItsFile (row : UserRow) : Prop :=
  f.deleteCallback row.tree row.name =
    (true, Function.update row.tree (resolve f.cwd row.path) none)

end FileSystem

/-- What stands in front of the last component, with the slash. -/
def front (text : Text) : Text := (text.reverse.dropWhile (· != '/')).reverse

/-- The last component of a text that is saved is dumped as it stands, and what is in front of it
leads back to the directory of the presets. -/
def RowSource.DeleteOk (f : FileSystem) : RowSource → Prop
  | .save text _ => (lastComponent text).all needsNoEscape = true ∧
      walk f.presetsPlace (components (front text)) = f.presetsPlace
  | .importPreset _ => True

section Components

theorem front_append_lastComponent (text : Text) : front text ++ lastComponent text = text := by
  rw [front, lastComponent, ← List.reverse_append, List.takeWhile_append_dropWhile,
    List.reverse_reverse]

theorem front_cases (text : Text) : front text = [] ∨ ∃ s, front text = s ++ ['/'] := by
  cases hdrop : text.reverse.dropWhile (· != '/') with
  | nil =>
    left
    rw [front, hdrop, List.reverse_nil]
  | cons c cs =>
    right
    have hne : text.reverse.dropWhile (· != '/') ≠ [] := by
      rw [hdrop]
      exact List.cons_ne_nil _ _
    have hhead := List.head_dropWhile_not (· != '/') hne
    simp only [hdrop, List.head_cons] at hhead
    have hc : c = '/' := by simpa using hhead
    exact ⟨cs.reverse, by rw [front, hdrop, List.reverse_cons, hc]⟩

theorem components_front (text : Text) :
    components text = components (front text) ++ components (lastComponent text) := by
  have htext := front_append_lastComponent text
  rcases front_cases text with hfront | ⟨s, hfront⟩
  · rw [hfront, List.nil_append] at htext
    rw [hfront, htext]
    rfl
  · rw [hfront, List.append_assoc] at htext
    rw [hfront, components_slash, ← components_append]
    exact congrArg components htext.symm

theorem lastComponent_append (dir text : Text) :
    lastComponent (dir ++ '/' :: text) = lastComponent text := by
  have hreverse : (dir ++ '/' :: text).reverse = text.reverse ++ '/' :: dir.reverse := by
    rw [List.reverse_append, List.reverse_cons, List.append_assoc]
    rfl
  rw [lastComponent, hreverse, List.takeWhile_append, lastComponent]
  split_ifs with hlen
  · have hall : text.reverse.takeWhile (· != '/') = text.reverse :=
      (List.takeWhile_prefix _).eq_of_length hlen
    rw [hall, List.takeWhile_cons_of_neg (by decide), List.append_nil]
  · rfl

end Components

namespace FileSystem

variable {f : FileSystem} {tree : Tree} {text : Text}

theorem lastComponent_path (text : Text) :
    lastComponent (f.presetsDir ++ text) = lastComponent text := by
  have hpath : f.presetsDir ++ text = f.home ++ "/amprack/presets".toList ++ '/' :: text := by
    rw [presetsDir, presetsDir_eq, List.append_assoc]
    rfl
  rw [hpath, lastComponent_append]

/-- Where the file of a text is, when there can be one. -/
theorem resolve_of_opens (h : f.opens (f.presetsDir ++ text) = true) :
    resolve f.cwd (f.presetsDir ++ text) =
      walk f.presetsPlace (components (front text)) ++ [lastComponent text] := by
  have hname := f.isFileName _ h
  rw [lastComponent_path] at hname
  rw [presetsDir, resolve_presetsDir_append, components_front, walk_append, hname.components]
  rfl

/-- Where the Delete button looks. -/
theorem resolve_escape {name : Text} (h : IsFileName name) :
    resolve f.cwd (f.presetsDir ++ escape name) = f.presetsPlace ++ [escape name] := by
  have hescape := isFileName_of_plain h.isPlainName_escape
  rw [presetsDir, resolve_presetsDir_append, hescape.components]
  rfl

/-- Delete removes the file of a row exactly when the button's path leads to it. -/
theorem removesItsFile_iff {row : UserRow} (h : (row.tree (resolve f.cwd row.path)).isSome) :
    f.RemovesItsFile row ↔ resolve f.cwd (f.presetsDir ++ row.name) = resolve f.cwd row.path := by
  rw [RemovesItsFile, deleteCallback]
  constructor
  · intro heq
    by_contra hne
    split_ifs at heq with hthere
    · have htree := congrFun (congrArg Prod.snd heq) (resolve f.cwd row.path)
      simp only [Function.update_self, Function.update_of_ne (Ne.symm hne)] at htree
      rw [htree] at h
      cases h
    · cases heq
  · intro heq
    rw [heq, if_pos h]

/-- A row that was added for a save: the file is there, and the button has the name with escapes. -/
theorem addCb_eq {p : SavedPreset} {row : UserRow} (h : f.addCb tree text p = some row) :
    f.opens (f.presetsDir ++ text) = true ∧ row.path = f.presetsDir ++ text ∧
      row.name = escape (lastComponent text) ∧ (row.tree (resolve f.cwd row.path)).isSome := by
  rw [addCb] at h
  split_ifs at h with hcond
  obtain ⟨-, hopens⟩ := not_or.mp hcond
  obtain ⟨name, hname, rfl⟩ := Option.map_eq_some_iff.mp h
  refine ⟨by simpa using hopens, rfl, ?_, ?_⟩
  · rw [write, Function.update_self, Option.bind_some,
      parse_fileText (SavedPreset.wellFormed_toJson _), Option.bind_some, rowName,
      nameMember_of_get? (SavedPreset.get?_name _)] at hname
    cases hname
    change strip (dump (.str (lastComponent (f.presetsDir ++ text)))) = _
    rw [lastComponent_path, strip_dump_str]
  · change (f.write tree _ _ _).isSome = true
    rw [write, Function.update_self]
    rfl

theorem importPreset_eq {preset : Json} {row : UserRow}
    (h : f.importPreset tree preset = some row) :
    row.path = f.presetsDir ++ row.name ∧ (row.tree (resolve f.cwd row.path)).isSome := by
  obtain ⟨⟨name, preset'⟩, hmember, h⟩ := Option.bind_eq_some_iff.mp h
  simp only at h
  split_ifs at h with hopens
  obtain ⟨row', hrow, rfl⟩ := Option.map_eq_some_iff.mp h
  rw [rowName, nameMember_idem hmember, Option.bind_some] at hrow
  split_ifs at hrow with hstring
  cases hrow
  refine ⟨rfl, ?_⟩
  change (f.write tree _ _ _).isSome = true
  rw [write, Function.update_self]
  rfl

theorem save_place_iff {p : SavedPreset} (h : f.opens (f.presetsDir ++ text) = true) :
    resolve f.cwd (f.presetsDir ++ escape (lastComponent text)) =
      resolve f.cwd (f.presetsDir ++ text) ↔ (RowSource.save text p).DeleteOk f := by
  have hname := f.isFileName _ h
  rw [lastComponent_path] at hname
  rw [resolve_of_opens h, resolve_escape hname, RowSource.DeleteOk, ← escape_eq_self_iff]
  constructor
  · intro heq
    obtain ⟨hplace, hlast⟩ := List.append_inj' heq rfl
    exact ⟨List.singleton_inj.mp hlast, hplace.symm⟩
  · rintro ⟨hlast, hplace⟩
    rw [hlast, hplace]

end FileSystem

/-- However a preset comes to the User tab, Delete removes its file and no other exactly when the
path that the row has leads to the file that was written. -/
theorem removesItsFile_iff_deleteOk (f : FileSystem) (tree : Tree) (source : RowSource)
    (row : UserRow) (h : f.addRow tree source = some row) :
    f.RemovesItsFile row ↔ source.DeleteOk f := by
  cases source with
  | save text p =>
    obtain ⟨hopens, hpath, hname, hthere⟩ := FileSystem.addCb_eq h
    rw [FileSystem.removesItsFile_iff hthere, hpath, hname]
    exact FileSystem.save_place_iff hopens
  | importPreset preset =>
    obtain ⟨hpath, hthere⟩ := FileSystem.importPreset_eq h
    rw [FileSystem.removesItsFile_iff hthere, hpath]
    exact ⟨fun _ => trivial, fun _ => rfl⟩

/-- Files can be made directly in the directory of the presets. -/
def homeDisk : FileSystem where
  cwd := []
  home := "/home/u".toList
  opens path := isPlainName (lastComponent path) &&
    (path == AmpRack.presetsDir "/home/u".toList ++ lastComponent path)
  isFileName := by
    intro path h
    exact isFileName_of_plain (Bool.and_eq_true_iff.mp h).1

def emptyPreset : SavedPreset where
  name := []
  desc := []
  entries := []
  filetype_int := by simp

theorem removesItsFile_iff_lead :
    ∃ row, homeDisk.addRow (fun _ => none) (.save "lead".toList emptyPreset) = some row ∧
      (homeDisk.RemovesItsFile row ↔
        (RowSource.save "lead".toList emptyPreset).DeleteOk homeDisk) :=
  ⟨_, rfl, removesItsFile_iff_deleteOk homeDisk (fun _ => none) (.save "lead".toList emptyPreset)
    _ rfl⟩

/-- The name has a quote in it, and the button looks for a backslash as well. -/
theorem quoted_preset_stays :
    ∃ row, homeDisk.addRow (fun _ => none) (.save "a\"b".toList emptyPreset) = some row ∧
      row.path = "/home/u/amprack/presets/a\"b".toList ∧ row.name = "a\\\"b".toList ∧
      homeDisk.deleteCallback row.tree row.name = (false, row.tree) ∧
      ¬ homeDisk.RemovesItsFile row := by
  refine ⟨_, rfl, rfl, rfl, rfl, ?_⟩
  intro h
  cases h

end AmpRack

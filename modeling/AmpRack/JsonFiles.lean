import AmpRack.JsonPretty
import AmpRack.PresetTabs

/-!
# JSON files

`filename_to_json` takes a file that is in neither of two places for an empty object.
`json_to_filename` writes an indented text with a newline behind it; a file that cannot be opened is
not written, and nobody is told.
-/

namespace AmpRack

open JsonText

/-- What the files hold, under their paths. -/
abbrev Disk := Text → Option Text

/-- What `json_to_filename` writes. -/
def fileText (j : Json) : Text := pretty j ++ ['\n']

/-- Where `filename_to_json` looks next. -/
def installedPath (filename : Text) : Text := "/usr/share/amprack/".toList ++ filename

def filenameToJson (disk : Disk) (filename : Text) : Except Thrown Json :=
  match parse (((disk filename).or (disk (installedPath filename))).getD "{}".toList) with
  | none => .error .parseError
  | some j => .ok j

def jsonToFilename (writable : Text → Bool) (disk : Disk) (j : Json) (filename : Text) : Disk :=
  if writable filename then Function.update disk filename (some (fileText j)) else disk

theorem parse_fileText {j : Json} (h : j.WellFormed) : parse (fileText j) = some j := by
  apply parse_pretty h
  intro c hc
  rw [List.mem_singleton.mp hc]
  rfl

section Files

variable {writable : Text → Bool} {disk : Disk} {filename : Text} {j : Json}

/-- A missing file is not told from one that holds an empty object. -/
theorem filenameToJson_of_missing (h : disk filename = none)
    (hinstalled : disk (installedPath filename) = none) :
    filenameToJson disk filename = .ok (.obj []) := by
  rw [filenameToJson, h, hinstalled]
  rfl

theorem filenameToJson_of_text {text : Text} (h : disk filename = some text)
    (hparse : parse text = some j) : filenameToJson disk filename = .ok j := by
  rw [filenameToJson, h]
  simp only [Option.some_or, Option.getD_some, hparse]

/-- What was written is read back. -/
theorem filenameToJson_jsonToFilename (hw : writable filename = true) (hj : j.WellFormed) :
    filenameToJson (jsonToFilename writable disk j filename) filename = .ok j := by
  refine filenameToJson_of_text ?_ (parse_fileText hj)
  rw [jsonToFilename, if_pos hw, Function.update_self]

end Files

end AmpRack

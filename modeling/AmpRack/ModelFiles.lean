import AmpRack.PresetDelete
import AmpRack.PresetLoader

/-!
# The models of a plugin

A file that is loaded into a plugin is copied to the models of the plugin, of which there is a
directory with its name. The copy goes by `lv2_name`, which the URI constructor leaves empty; the
card lists the directory of the name that was asked for, and a model is opened by the text of the
card's label. The loader of an atom port copies the file that was loaded before, of which there is
none, and the two others call the plugin before they copy.
-/

namespace AmpRack

open VectorEdits GuardedRun JsonText DotPath

/-- What the files hold, under the directories and the name that lead to them from the root. -/
abbrev ByteTree := List Text → Option (List UInt8)

namespace FileSystem

variable (f : FileSystem) (tree : ByteTree)

def modelsDir : Text := f.home ++ "/amprack/models/".toList

def modelDir (name : Text) : Text := f.modelsDir ++ name ++ ['/']

/-- What can be read from a path. -/
def read (path : Text) : Option (List UInt8) :=
  if isPlainName (lastComponent path) then tree (resolve f.cwd path) else none

/-- The file of the name in the directory. -/
def entry (dir name : Text) : Option (List UInt8) := tree (resolve f.cwd dir ++ [name])

/-- A source that cannot be read is copied as an empty file. -/
def copyFile (source dest : Text) : ByteTree :=
  if (tree (resolve f.cwd dest)).isSome = true ∨ f.opens dest = false then tree
  else Function.update tree (resolve f.cwd dest) (some ((f.read tree source).getD []))

/-- A loader with its copy, which is made when the file has been loaded. -/
def loadModel (w : Installation) (loader : Loader) (r : Rack) (index : ℤ) (filename : Text) :
    Except Fault (Rack × ByteTree) :=
  match loader.load w r.engine index filename with
  | .error e => .error e
  | .ok engine =>
    if loader.Accepts w filename then
      match at? engine.activePlugins index with
      | none => .error .outOfRange
      | some p => .ok ({ r with engine := engine },
          f.copyFile tree p.loadedFileName (f.modelDir p.lv2Name ++ lastComponent filename))
    else .ok ({ r with engine := engine }, tree)

end FileSystem

/-- The directory has an entry for the file afterwards, with its contents if there was none. -/
structure ModelShown (f : FileSystem) (tree tree' : ByteTree) (dir filename : Text)
    (contents : List UInt8) : Prop where
  there : (f.entry tree' dir (lastComponent filename)).isSome = true
  copied : f.entry tree dir (lastComponent filename) = none →
    f.entry tree' dir (lastComponent filename) = some contents

/-- The directory that the card lists and the one that its models are opened in, which is that of
the text that the label shows for the name. -/
def ModelListed (f : FileSystem) (tree tree' : ByteTree) (labelText : Text → Text)
    (pluginName filename : Text) (contents : List UInt8) : Prop :=
  ∀ name ∈ [pluginName, labelText pluginName],
    ModelShown f tree tree' (f.modelDir name) filename contents

/-- Only `set_atom_port` goes through. The entry is there already; or the name leads back to the
directory of all models, where the file can be made, and the file is empty, as what is copied is the
file of the plugin, which has none. -/
structure ModelOk (f : FileSystem) (tree : ByteTree) (labelText : Text → Text) (loader : Loader)
    (pluginName filename : Text) (contents : List UInt8) : Prop where
  loader : loader = .setAtomPort
  shown : ∀ name ∈ [pluginName, labelText pluginName],
    (f.entry tree (f.modelDir name) (lastComponent filename)).isSome = true ∨
      walk (resolve f.cwd f.modelsDir) (components name) = resolve f.cwd f.modelsDir ∧
        f.opens (f.modelDir [] ++ lastComponent filename) = true ∧ contents = []

namespace FileSystem

variable {f : FileSystem} {tree : ByteTree}

theorem resolve_modelDir (name : Text) :
    resolve f.cwd (f.modelDir name) = walk (resolve f.cwd f.modelsDir) (components name) := by
  have hmodels : f.modelsDir = f.home ++ "/amprack/models".toList ++ ['/'] := by
    rw [modelsDir, List.append_assoc]
    rfl
  rw [modelDir, List.append_assoc, resolve_append hmodels, components_slash]

/-- A plugin without a name has its models in the directory of all. -/
theorem resolve_dest {name : Text} (h : IsFileName name) :
    resolve f.cwd (f.modelDir [] ++ name) = resolve f.cwd f.modelsDir ++ [name] := by
  have hdir : f.modelDir [] = (f.modelsDir ++ []) ++ ['/'] := rfl
  rw [resolve_append hdir, resolve_modelDir, h.components]
  rfl

theorem isFileName_of_read {path : Text} {contents : List UInt8}
    (h : f.read tree path = some contents) : IsFileName (lastComponent path) := by
  rw [read] at h
  split_ifs at h with hplain
  exact isFileName_of_plain hplain

theorem copyFile_of_some {source dest : Text} {place : List Text} {contents : List UInt8}
    (h : tree place = some contents) : f.copyFile tree source dest place = some contents := by
  rw [copyFile]
  split_ifs with hskip
  · exact h
  · have hne : place ≠ resolve f.cwd dest := by
      rintro rfl
      rw [h] at hskip
      exact hskip (.inl rfl)
    rw [Function.update_of_ne hne, h]

theorem copyFile_of_ne {source dest : Text} {place : List Text} (h : place ≠ resolve f.cwd dest) :
    f.copyFile tree source dest place = tree place := by
  rw [copyFile]
  split_ifs
  · rfl
  · rw [Function.update_of_ne h]

theorem copyFile_of_none {source dest : Text} (h : tree (resolve f.cwd dest) = none) :
    f.copyFile tree source dest (resolve f.cwd dest) =
      if f.opens dest = true then some ((f.read tree source).getD []) else none := by
  rw [copyFile, h]
  by_cases hopens : f.opens dest = true
  · rw [if_pos hopens, if_neg (by simp [hopens]), Function.update_self]
  · rw [if_neg hopens, if_pos (.inr (by simpa using hopens)), h]

/-- A copy to the directory of all models shows in a directory that had the entry, or that is this
one. -/
theorem modelShown_iff {dir filename source : Text} {contents : List UInt8}
    (hname : IsFileName (lastComponent filename)) :
    ModelShown f tree (f.copyFile tree source (f.modelDir [] ++ lastComponent filename)) dir filename
        contents ↔
      (f.entry tree dir (lastComponent filename)).isSome = true ∨
        resolve f.cwd dir = resolve f.cwd f.modelsDir ∧
          f.opens (f.modelDir [] ++ lastComponent filename) = true ∧
          (f.read tree source).getD [] = contents := by
  have hdest := resolve_dest (f := f) hname
  cases hentry : f.entry tree dir (lastComponent filename) with
  | some old =>
    have hkept : f.entry (f.copyFile tree source (f.modelDir [] ++ lastComponent filename)) dir
        (lastComponent filename) = some old := copyFile_of_some hentry
    refine ⟨fun _ => .inl rfl, fun _ => ⟨by rw [hkept]; rfl, fun hnone => ?_⟩⟩
    rw [hentry] at hnone
    cases hnone
  | none =>
    have hshown : ModelShown f tree
        (f.copyFile tree source (f.modelDir [] ++ lastComponent filename)) dir filename contents ↔
          f.entry (f.copyFile tree source (f.modelDir [] ++ lastComponent filename)) dir
            (lastComponent filename) = some contents :=
      ⟨fun h => h.copied hentry, fun h => ⟨by rw [h]; rfl, fun _ => h⟩⟩
    rw [hshown, entry]
    by_cases hplace : resolve f.cwd dir = resolve f.cwd f.modelsDir
    · have hnone : tree (resolve f.cwd (f.modelDir [] ++ lastComponent filename)) = none := by
        rw [hdest, ← hplace]
        exact hentry
      rw [hplace, ← hdest, copyFile_of_none hnone]
      by_cases hopens : f.opens (f.modelDir [] ++ lastComponent filename) = true
      · rw [if_pos hopens, Option.some.injEq]
        exact ⟨fun h => .inr ⟨rfl, hopens, h⟩, fun h => (h.resolve_left (by simp)).2.2⟩
      · rw [if_neg hopens]
        exact ⟨fun h => (by cases h), fun h => absurd (h.resolve_left (by simp)).2.1 hopens⟩
    · have hne : resolve f.cwd dir ++ [lastComponent filename] ≠
          resolve f.cwd (f.modelDir [] ++ lastComponent filename) := by
        rw [hdest]
        intro heq
        exact hplace (List.append_inj' heq rfl).1
      rw [copyFile_of_ne hne]
      constructor
      · intro h
        rw [entry, h] at hentry
        cases hentry
      · rintro (h | h)
        · cases h
        · exact absurd h.1 hplace

/-- A plugin of the rack has no name and no file, so nothing is copied to the directory of all. -/
theorem loadModel_setAtomPort {w : Installation} {r : Rack} {k : ℕ} {p : Plugin}
    (filename : Text) (hp : r.chain[k]? = some p) (hmade : Rack.Made w p) :
    ∃ r', f.loadModel tree w .setAtomPort r k filename =
      .ok (r', f.copyFile tree [] (f.modelDir [] ++ lastComponent filename)) := by
  have hlt : k < r.engine.activePlugins.length := (List.getElem?_eq_some_iff.mp hp).1
  obtain ⟨e, he⟩ := Engine.modifyPlugin_bypass_of_lt (e := r.engine) hlt
    fun p => { p with loadedFileType := 2 }
  have hload : Loader.load w r.engine k filename .setAtomPort = .ok e := he
  have hget : at? e.activePlugins (k : ℤ) = some { p with loadedFileType := 2 } := by
    obtain ⟨e₁, he₁, rfl⟩ := Engine.map_eq_ok he
    obtain ⟨i, hi, -, rfl⟩ := Engine.modifyPlugin_ok he₁
    rw [Nat.cast_inj] at hi
    subst hi
    have hp' : r.engine.activePlugins[k]? = some p := hp
    rw [at?_natCast]
    simp [Engine.setBypass, hp']
  have haccepts : Loader.Accepts w filename .setAtomPort := fun h => by cases h
  refine ⟨{ r with engine := e }, ?_⟩
  rw [loadModel, hload]
  simp only [if_pos haccepts, hget, hmade.lv2Name, hmade.loadedFileName]

/-- The other two loaders call the plugin. -/
theorem loader_of_loadModel {w : Installation} {r r' : Rack} {tree' : ByteTree} {loader : Loader}
    {k : ℕ} {filename : Text} (hhandle : ∀ p ∈ r.chain, p.handle = none)
    (haccepts : loader.Accepts w filename)
    (h : f.loadModel tree w loader r k filename = .ok (r', tree')) : loader = .setAtomPort := by
  unfold loadModel at h
  cases he : loader.load w r.engine k filename with
  | error fault =>
    rw [he] at h
    cases h
  | ok e =>
    cases loader with
    | setAtomPort => rfl
    | setPluginFile => exact absurd he (Engine.setPluginFile_ne_ok hhandle)
    | setPluginAudioFile =>
      have hread := (Engine.setPluginAudioFile_eq_ok hhandle he).1
      rw [haccepts rfl] at hread
      cases hread

end FileSystem

/-- In whatever state a file is loaded, it comes to be listed for the plugin exactly when it goes to
an atom port, and the list had it or the name of the plugin leads to the directory of all models. -/
theorem modelListed_iff_modelOk (w : Installation) (ops : List RackWindow.Op) (s : RackWindow)
    (h : run (RackWindow.step w) {} ops = .ok s) (k : ℕ) (p : Plugin)
    (hp : s.rack.chain[k]? = some p) (f : FileSystem) (tree : ByteTree) (labelText : Text → Text)
    (pluginName filename : Text) (contents : List UInt8)
    (hread : f.read tree filename = some contents) (loader : Loader)
    (haccepts : loader.Accepts w filename) :
    (∃ r' tree', f.loadModel tree w loader s.rack k filename = .ok (r', tree') ∧
        ModelListed f tree tree' labelText pluginName filename contents) ↔
      ModelOk f tree labelText loader pluginName filename contents := by
  have hw := RackWindow.run_written h
  obtain ⟨r₁, hload⟩ : ∃ r', f.loadModel tree w .setAtomPort s.rack k filename =
      .ok (r', f.copyFile tree [] (f.modelDir [] ++ lastComponent filename)) :=
    FileSystem.loadModel_setAtomPort filename hp (hw.made p (List.mem_of_getElem? hp))
  have hlisted : ModelListed f tree
      (f.copyFile tree [] (f.modelDir [] ++ lastComponent filename)) labelText pluginName filename
        contents ↔ ∀ name ∈ [pluginName, labelText pluginName],
          (f.entry tree (f.modelDir name) (lastComponent filename)).isSome = true ∨
            walk (resolve f.cwd f.modelsDir) (components name) = resolve f.cwd f.modelsDir ∧
              f.opens (f.modelDir [] ++ lastComponent filename) = true ∧ contents = [] := by
    refine forall_congr' fun name => imp_congr_right fun _ => ?_
    have hnothing : (f.read tree []).getD [] = contents ↔ contents = [] :=
      ⟨fun h => h.symm, fun h => h.symm⟩
    rw [FileSystem.modelShown_iff (FileSystem.isFileName_of_read hread),
      FileSystem.resolve_modelDir, hnothing]
  constructor
  · rintro ⟨r', tree', hr', hshown⟩
    have hloader := FileSystem.loader_of_loadModel hw.handles haccepts hr'
    subst hloader
    rw [hload, Except.ok.injEq, Prod.mk.injEq] at hr'
    rw [← hr'.2] at hshown
    exact ⟨rfl, hlisted.mp hshown⟩
  · rintro ⟨rfl, hshown⟩
    exact ⟨r₁, _, hload, hlisted.mpr hshown⟩

/-- Files can be made in the directory of all models. -/
def modelsDisk : FileSystem where
  cwd := []
  home := "/home/u".toList
  opens path := isPlainName (lastComponent path)
  isFileName _ h := isFileName_of_plain h

/-- One model, outside of the directories of models. -/
def oneModel : ByteTree := fun place =>
  if place = ["m".toList, "a.json".toList] then some [1] else none

theorem modelListed_iff_for_amp :
    ∃ s, run (RackWindow.step RackWindow.partlyInstalled) {}
        [.user (.edit (.addPluginByName "Amp".toList))] = .ok s ∧
      ((∃ r' tree', modelsDisk.loadModel oneModel RackWindow.partlyInstalled .setAtomPort s.rack 0
            "/m/a.json".toList = .ok (r', tree') ∧
          ModelListed modelsDisk oneModel tree' id "Amp".toList "/m/a.json".toList [1]) ↔
        ModelOk modelsDisk oneModel id .setAtomPort "Amp".toList "/m/a.json".toList [1]) := by
  obtain ⟨s, hs, p, hp⟩ : ∃ s, run (RackWindow.step RackWindow.partlyInstalled) {}
      [.user (.edit (.addPluginByName "Amp".toList))] = .ok s ∧ ∃ p, s.rack.chain[0]? = some p :=
    ⟨_, rfl, _, rfl⟩
  exact ⟨s, hs, modelListed_iff_modelOk RackWindow.partlyInstalled
    [.user (.edit (.addPluginByName "Amp".toList))] s hs 0 p hp modelsDisk oneModel id "Amp".toList
    "/m/a.json".toList [1] rfl .setAtomPort (by decide)⟩

/-- `set_atom_port` makes an empty file in the directory of all models, and `set_plugin_file` calls
the plugin through a pointer that was never set. -/
theorem model_not_listed_for_amp :
    ∃ s r' tree', run (RackWindow.step RackWindow.partlyInstalled) {}
        [.user (.edit (.addPluginByName "Amp".toList))] = .ok s ∧
      s.rack.chain.length = 1 ∧ modelsDisk.read oneModel "/m/a.json".toList = some [1] ∧
      modelsDisk.loadModel oneModel RackWindow.partlyInstalled .setPluginFile s.rack 0
        "/m/a.json".toList = .error .uninitialised ∧
      modelsDisk.loadModel oneModel RackWindow.partlyInstalled .setAtomPort s.rack 0
        "/m/a.json".toList = .ok (r', tree') ∧
      modelsDisk.entry tree' modelsDisk.modelsDir "a.json".toList = some [] ∧
      modelsDisk.entry tree' (modelsDisk.modelDir "Amp".toList) "a.json".toList = none ∧
      ¬ ModelListed modelsDisk oneModel tree' id "Amp".toList "/m/a.json".toList [1] := by
  obtain ⟨s, hs, hlength, hfile, r', tree', hload, hall, hamp⟩ : ∃ s,
      run (RackWindow.step RackWindow.partlyInstalled) {}
        [.user (.edit (.addPluginByName "Amp".toList))] = .ok s ∧ s.rack.chain.length = 1 ∧
        modelsDisk.loadModel oneModel RackWindow.partlyInstalled .setPluginFile s.rack 0
          "/m/a.json".toList = .error .uninitialised ∧
        ∃ r' tree', modelsDisk.loadModel oneModel RackWindow.partlyInstalled .setAtomPort s.rack 0
            "/m/a.json".toList = .ok (r', tree') ∧
          modelsDisk.entry tree' modelsDisk.modelsDir "a.json".toList = some [] ∧
          modelsDisk.entry tree' (modelsDisk.modelDir "Amp".toList) "a.json".toList = none :=
    ⟨_, rfl, rfl, rfl, _, _, rfl, rfl, rfl⟩
  refine ⟨s, r', tree', hs, hlength, rfl, hfile, hload, hall, hamp, fun h => ?_⟩
  have hthere := (h "Amp".toList List.mem_cons_self).there
  have hname : lastComponent "/m/a.json".toList = "a.json".toList := rfl
  rw [hname, hamp] at hthere
  cases hthere

end AmpRack

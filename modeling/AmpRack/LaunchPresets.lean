import AmpRack.FileTypes
import AmpRack.PresetExport
import AmpRack.LaunchFavorites

/-!
# The last preset over many launches

When the window is closed the chain is written to a file, and every start loads the file. The
entries in it have no names, so the loader asks for a plugin without a name; where no plugin of the
catalogue is without one, nothing comes back.
-/

namespace AmpRack

open GuardedRun JsonText

/-- Every entry of the preset is there without a name. -/
def Unnamed (j : Json) : Prop :=
  ∀ plugins, j.get? "controls".toList = some plugins →
    ∀ p ∈ elements plugins, p.get? "name".toList = some (.str [])

namespace Rack

variable {w : Installation} {r : Rack}

theorem name_toJson (entry : PresetEntry) :
    entry.toJson.get? "name".toList = some (.str entry.name) := by
  obtain ⟨name, controls, _ | ⟨filename, filetype⟩⟩ := entry <;> rfl

theorem unnamed_of_saved (p : SavedPreset) (h : ∀ entry ∈ p.entries, entry.name = []) :
    Unnamed p.toJson := by
  intro plugins hplugins
  by_cases hnil : p.entries = []
  · rw [p.toJson_of_nil hnil] at hplugins
    cases hplugins
  · rw [p.toJson_of_ne_nil hnil] at hplugins
    cases hplugins
    intro j hj
    obtain ⟨m, hm, rfl⟩ := List.mem_map.mp hj
    obtain ⟨entry, hentry, hjson⟩ := List.mem_map.mp (exists_of_mem_numbered hm).1
    rw [← hjson, name_toJson, h entry hentry]

/-- What a chain is saved as. -/
theorem Typed.savePreset (h : Typed w r) (filename description : Text) :
    ∃ p : SavedPreset, r.engine.savePreset filename description = .ok (some p.toJson) ∧
      ∀ entry ∈ p.entries, entry.name = [] := by
  by_cases hne : r.chain = []
  · refine ⟨⟨lastComponent filename, description, [], by simp⟩, ?_, by simp⟩
    rw [Engine.savePreset_of_nil hne]
    rfl
  · have hentries : ∀ entry ∈ r.chain.map savedEntry, ∃ p ∈ r.chain, savedEntry p = entry :=
      fun _ hentry => List.mem_map.mp hentry
    have hint : ∀ entry ∈ r.chain.map savedEntry, ∀ f ∈ entry.file, IsInt f.2 := by
      intro entry hentry f hf
      obtain ⟨p, hp, rfl⟩ := hentries entry hentry
      rw [Plugin.file_of_presetEntry (h.made p hp).presetEntry f hf]
      exact h.types _ (mem_files.mpr ⟨p, hp, rfl⟩)
    refine ⟨⟨lastComponent filename, description, r.chain.map savedEntry, hint⟩, ?_, ?_⟩
    · rw [Engine.savePreset_of_entries hne (mapM_presetEntry h.made),
        SavedPreset.toJson_of_ne_nil (by simpa using hne)]
      rfl
    · intro entry hentry
      obtain ⟨p, hp, rfl⟩ := hentries entry hentry
      exact (h.made p hp).lv2Name

/-- No turn of the loop adds a plugin. -/
theorem loadElements_unnamed {realized : Bool} {ps : List Json}
    (hps : ∀ p ∈ ps, p.get? "name".toList = some (.str [])) (hnone : lookup w [] = none)
    (s : Rack × ℕ) : ps.foldlM (loadElement w realized) s = .ok s := by
  induction ps with
  | nil => rfl
  | cons p ps ih =>
    obtain ⟨hp, hps⟩ := List.forall_mem_cons.mp hps
    have hstrip : strip (dump (.str [])) = [] := strip_dump_str []
    have hadd : s.1.addPluginByName w [] = .ok (s.1, none) := addPluginByName_unknown hnone
    have hturn : loadElement w realized s p = .ok s := by
      rw [loadElement, memberOf_of_get? hp]
      change ((s.1.addPluginByName w (strip (dump (.str [])))).mapError LoadStop.fault).bind _ = _
      rw [hstrip, hadd]
      rfl
    rw [List.foldlM_cons, hturn]
    exact ih hps

end Rack

namespace RackWindow

variable {w : Installation} {realized : Bool} {s s' : RackWindow}

theorem loadPreset_unnamed {j : Json} (hj : Unnamed j) (hnone : Rack.lookup w [] = none)
    (h : s.loadPreset w realized j = .ok s') : s'.rack.chain = [] := by
  obtain ⟨name, j', plugins, j'', r₀, t, hname, hplugins, hclear, ht, rfl⟩ := loadPreset_ok h
  have hget : j'.get? "controls".toList = j.get? "controls".toList :=
    get?_of_memberOf (by decide) hname
  have hps : ∀ p ∈ elements plugins, p.get? "name".toList = some (.str []) := by
    cases hcontrols : j'.get? "controls".toList with
    | some v =>
      rw [memberOf_of_get? hcontrols, Except.ok.injEq, Prod.mk.injEq] at hplugins
      rw [← hplugins.1]
      exact hj v (hget.symm.trans hcontrols)
    | none =>
      obtain rfl : plugins = .null := by
        cases j' with
        | null =>
          cases hplugins
          rfl
        | obj ms =>
          rw [memberOf, hcontrols] at hplugins
          cases hplugins
          rfl
        | bool b => cases hplugins
        | int n => cases hplugins
        | float literal => cases hplugins
        | str text => cases hplugins
        | arr xs => cases hplugins
      exact fun p hp => (by cases hp)
  rw [Rack.loadElements_unnamed hps hnone, Except.ok.injEq] at ht
  obtain ⟨r, hr, hchain⟩ := clear_empties s.rack
  rw [hclear, Except.ok.injEq] at hr
  rw [← ht, hr]
  exact hchain

end RackWindow

namespace App

variable {m : Machine} {dir : Text} {disk disk' disk₀ : Disk} {app app' : App} {l : Launch}
  {ls : List Launch}

/-- The file of the last preset can be read and has no names. -/
def UnnamedDefault (dir : Text) (disk : Disk) : Prop :=
  ∃ j, filenameToJson disk (defaultFile dir) = .ok j ∧ Unnamed j

section Files

theorem UnnamedDefault.of_writes {files : List Text} (h : UnnamedDefault dir disk)
    (hwrites : Writes files disk disk') (hf : defaultFile dir ∉ files)
    (hinstalled : installedPath (defaultFile dir) ∉ files) : UnnamedDefault dir disk' := by
  rw [UnnamedDefault, hwrites.filenameToJson hf hinstalled]
  exact h

theorem defaultFile_notMem (dir : Text) :
    defaultFile dir ∉ favFile dir :: configFile dir :: catalogueFiles dir := by
  simp [defaultFile, favFile, configFile, catalogueFiles, pluginsFile]

theorem installed_defaultFile_notMem (dir : Text) :
    installedPath (defaultFile dir) ∉ favFile dir :: configFile dir :: catalogueFiles dir := by
  have hne (b : Text) (hb : b.length < 27) : installedPath (defaultFile dir) ≠ dir ++ b :=
    installedPath_ne hb dir
  simp [favFile, configFile, catalogueFiles, pluginsFile, hne]

theorem unnamedDefault_of_missing (h : Missing disk (defaultFile dir)) : UnnamedDefault dir disk :=
  ⟨.obj [], filenameToJson_of_missing h.1 h.2, fun _ hplugins => (by cases hplugins)⟩

end Files

section Start

theorem isInt_of_getInt {j : Json} {n : ℤ} (h : getInt j = some n) : IsInt n := by
  obtain ⟨i, -, rfl⟩ := Option.map_eq_some_iff.mp h
  have hle : -((2 ^ 32 : ℕ) : ℤ) / 2 ≤ i.bmod (2 ^ 32) := Int.le_bmod (by decide)
  have hlt : i.bmod (2 ^ 32) < (((2 ^ 32 : ℕ) : ℤ) + 1) / 2 := Int.bmod_lt (by decide)
  norm_num at hle hlt
  exact ⟨hle, hlt⟩

/-- The types in a catalogue were read as `int`s. -/
theorem intTypes_of_mapM {js : List Json} {w : Installation}
    (h : js.mapM CatalogueEntry.ofJson = some w.catalogue) : Rack.IntTypes w := by
  intro entry hentry type htype
  obtain ⟨plugin, -, hplugin⟩ := exists_of_forall₂ (mapM_eq_some_iff.mp h) hentry
  rw [CatalogueEntry.ofJson] at hplugin
  obtain ⟨name, -, hplugin⟩ := Option.bind_eq_some_iff.mp hplugin
  obtain ⟨library, -, hplugin⟩ := Option.bind_eq_some_iff.mp hplugin
  split_ifs at hplugin
  · obtain ⟨n, hn, hplugin⟩ := Option.bind_eq_some_iff.mp hplugin
    obtain ⟨j, -, hint⟩ := Option.bind_eq_some_iff.mp hn
    cases hplugin
    cases htype
    exact isInt_of_getInt hint
  · cases hplugin
    cases htype

theorem construct_typed (h : construct m dir disk = some app) :
    Rack.IntTypes app.installation ∧ Rack.Typed app.installation app.window.rack := by
  obtain ⟨j, -, -, -, -, hcatalogue, -, -, hwindow⟩ := construct_cases h
  rw [hwindow]
  exact ⟨intTypes_of_mapM hcatalogue, Rack.typed_empty⟩

/-- What the rack and the catalogue have in every state of a launch. -/
structure InRange (app : App) : Prop where
  catalogue : Rack.IntTypes app.installation
  rack : Rack.Typed app.installation app.window.rack

theorem onshow_inRange (hr : InRange app) (h : app.onshow m dir = some app') : InRange app' := by
  obtain ⟨loaded, window, favs, hload, -, rfl⟩ := onshow_cases h
  refine ⟨hr.catalogue, ?_⟩
  rw [RackWindow.loadPresetFile] at hload
  obtain ⟨j, -, hload⟩ := exists_of_bind_ok hload
  split_ifs at hload
  · cases hload
    exact hr.rack
  · obtain ⟨s, hs, hload⟩ := exists_of_bind_ok hload
    cases hload
    exact RackWindow.loadPreset_typed hr.catalogue hr.rack hs

theorem start_inRange (h : start m dir disk = some app) : InRange app := by
  obtain ⟨app₁, app₂, hconstruct, hsettings, honshow⟩ := start_cases h
  obtain ⟨hcatalogue, hrack⟩ := construct_typed hconstruct
  have hsame := settingsOnly_settings hsettings
  refine onshow_inRange ⟨?_, ?_⟩ honshow
  · rw [hsame.installation]
    exact hcatalogue
  · rw [hsame.installation, hsame.window]
    exact hrack

theorem act_inRange {a : AppAct} (hr : InRange app) (h : act m dir app a = some app') :
    InRange app' := by
  have hsettings (hsame : SettingsOnly dir app app') : InRange app' := by
    refine ⟨?_, ?_⟩
    · rw [hsame.installation]
      exact hr.catalogue
    · rw [hsame.installation, hsame.window]
      exact hr.rack
  cases a with
  | rack op =>
    obtain ⟨window, hwindow, rfl⟩ := Option.map_eq_some_iff.mp h
    exact ⟨hr.catalogue, RackWindow.step_typed hr.catalogue hr.rack (toOption_eq_some.mp hwindow)⟩
  | browse ev =>
    obtain ⟨browser, -, rfl⟩ := Option.map_eq_some_iff.mp h
    exact ⟨hr.catalogue, hr.rack⟩
  | switchRenderer selected => exact hsettings (settingsOnly_switchRenderer h)
  | switchTheme basename => exact hsettings (settingsOnly_switchTheme h)

theorem acts_inRange {as : List AppAct} (hr : InRange app)
    (h : as.foldlM (act m dir) app = some app') : InRange app' := by
  induction as generalizing app with
  | nil =>
    cases h
    exact hr
  | cons a as ih =>
    rw [List.foldlM_cons, Option.bind_eq_bind, Option.bind_eq_some_iff] at h
    obtain ⟨app₁, ha, has⟩ := h
    exact ih (act_inRange hr ha) has

end Start

section Runs

/-- A window that is closed leaves a preset without names, or the file as it was. -/
theorem quit_unnamed (hr : InRange app) (hdefault : UnnamedDefault dir app.disk)
    (h : app.quit m dir = some app') : UnnamedDefault dir app'.disk := by
  obtain ⟨saved, disk₁, hsaved, hdisk, -⟩ := quit_cases h
  obtain ⟨p, hp, hnames⟩ :=
    hr.rack.savePreset (defaultFile dir) "Last saved preset".toList
  rw [Engine.savePresetFile, hp] at hsaved
  cases hsaved
  have hwritten : UnnamedDefault dir
      (jsonToFilename m.writable app.disk p.toJson (defaultFile dir)) := by
    by_cases hw : m.writable (defaultFile dir) = true
    · exact ⟨p.toJson, filenameToJson_jsonToFilename hw p.wellFormed_toJson,
        Rack.unnamed_of_saved p hnames⟩
    · exact hdefault.of_writes (writes_of_unwritable hw _ _) List.not_mem_nil List.not_mem_nil
  have hlater := (writes_jsonToFilename m.writable
    (jsonToFilename m.writable app.disk p.toJson (defaultFile dir)) (favorites app.browser)
    (favFile dir)).trans (writes_jsonToFilename m.writable _ app.config (configFile dir))
  rw [← hdisk] at hlater
  have hnot := defaultFile_notMem dir
  have hinstalled := installed_defaultFile_notMem dir
  rw [List.mem_cons, List.mem_cons, not_or, not_or] at hnot hinstalled
  exact hwritten.of_writes hlater (by simp [hnot]) (by simp [hinstalled])

theorem play_unnamed (hdefault : UnnamedDefault dir disk) (h : play dir disk l = some app) :
    UnnamedDefault dir app.disk := by
  obtain ⟨app₁, app₂, hstart, hacts, hend⟩ := play_cases h
  have hacts' : UnnamedDefault dir app₂.disk := by
    have hnot := List.not_mem_of_not_mem_cons (defaultFile_notMem dir)
    have hinstalled := List.not_mem_of_not_mem_cons (installed_defaultFile_notMem dir)
    exact hdefault.of_writes (acts_writes hstart hacts) hnot hinstalled
  obtain ⟨-, hquit⟩ | ⟨-, rfl⟩ := hend
  · exact quit_unnamed (acts_inRange (start_inRange hstart) hacts) hacts' hquit
  · exact hacts'

theorem run_unnamed (h₀ : UnnamedDefault dir disk₀) (h : run dir disk₀ ls = some disk) :
    UnnamedDefault dir disk := by
  induction ls using List.reverseRecOn generalizing disk with
  | nil =>
    cases h
    exact h₀
  | append_singleton ls l ih =>
    obtain ⟨disk₁, app, hrun, hplay, rfl⟩ := run_concat.mp h
    exact play_unnamed (ih hrun) hplay

/-- Whatever was in the chain when the window was closed, the file that a start loads can be read and
has no names, so that the chain is empty, unless the catalogue has a plugin without a name. -/
theorem start_forgets_chain (dir : Text) (disk₀ : Disk) (ls : List Launch) (m : Machine)
    {disk : Disk} {app : App} (h₀ : UnnamedDefault dir disk₀)
    (hrun : App.run dir disk₀ ls = some disk) (hstart : start m dir disk = some app)
    (hnamed : ∀ entry ∈ app.installation.catalogue, entry.name ≠ []) :
    UnnamedDefault dir disk ∧ app.window.rack.chain = [] := by
  refine ⟨run_unnamed h₀ hrun, ?_⟩
  have hwrites := start_writes hstart
  obtain ⟨app₁, app₂, hconstruct, hsettings, honshow⟩ := start_cases hstart
  obtain ⟨loaded, window, favs, hload, -, rfl⟩ := onshow_cases honshow
  obtain ⟨j, hj, hunnamed⟩ := (run_unnamed h₀ hrun).of_writes hwrites
    (List.not_mem_of_not_mem_cons (defaultFile_notMem dir))
    (List.not_mem_of_not_mem_cons (installed_defaultFile_notMem dir))
  have hnone : Rack.lookup app₂.installation [] = none := by
    rw [Rack.lookup_nil, List.find?_eq_none]
    exact fun entry hentry => by simpa using hnamed entry hentry
  have hempty : app₂.window.rack.chain = [] := by
    obtain ⟨-, -, -, -, -, -, -, -, hwindow⟩ := construct_cases hconstruct
    rw [(settingsOnly_settings hsettings).window, hwindow]
    rfl
  rw [RackWindow.loadPresetFile, hj] at hload
  obtain ⟨j', hj', hload⟩ := exists_of_bind_ok hload
  cases hj'
  split_ifs at hload
  · cases hload
    exact hempty
  · obtain ⟨s, hs, hload⟩ := exists_of_bind_ok hload
    cases hload
    exact RackWindow.loadPreset_unnamed hunnamed hnone hs

/-- A plugin is added, then the window is closed. -/
def chainLaunch : Launch where
  lilvPlugins := [EffectBrowser.oneAuthor]
  world := { silentWorld with lilv := fun _ => some [] }
  acts := [.rack (.user (.edit (.addPluginByName "Gain".toList)))]

theorem start_forgets_gain :
    ∃ played disk app, play "/d".toList noFiles chainLaunch = some played ∧
      played.window.rack.chain.length = 1 ∧ run "/d".toList noFiles [chainLaunch] = some disk ∧
      start chainLaunch.toMachine "/d".toList disk = some app ∧
      UnnamedDefault "/d".toList disk ∧ app.window.rack.chain = [] := by
  have hlength : (play "/d".toList noFiles chainLaunch).map (·.window.rack.chain.length) =
      some 1 := by
    decide +kernel
  have hnames : ((run "/d".toList noFiles [chainLaunch]).bind
      (start chainLaunch.toMachine "/d".toList)).map (·.installation.catalogue.map (·.name)) =
        some ["Gain".toList] := by
    decide +kernel
  obtain ⟨played, hplay, hone⟩ := Option.map_eq_some_iff.mp hlength
  obtain ⟨app, happ, hcatalogue⟩ := Option.map_eq_some_iff.mp hnames
  obtain ⟨disk, hrun, hstart⟩ := Option.bind_eq_some_iff.mp happ
  refine ⟨played, disk, app, hplay, hone, hrun, hstart, ?_⟩
  apply start_forgets_chain "/d".toList noFiles [chainLaunch] chainLaunch.toMachine
    (unnamedDefault_of_missing ⟨rfl, rfl⟩) hrun hstart
  intro entry hentry hname
  have hmem := List.mem_map_of_mem (f := CatalogueEntry.name) hentry
  rw [hcatalogue, hname, List.mem_singleton] at hmem
  cases hmem

end Runs

end App

end AmpRack

import AmpRack.LaunchFavorites

/-!
# The catalogue over many launches

The catalogue is made by the first launch that finds no file of it, and nothing writes it again. So
plugins that are installed later are never offered, and those that are removed stay on offer.
-/

namespace AmpRack

open JsonText

namespace App

variable {m : Machine} {dir : Text} {disk disk' disk₀ : Disk} {app : App} {l l₀ : Launch}
  {ls : List Launch} {info : LV2Info}

/-- The files of the catalogue are there and hold what `info` has. -/
structure HasCatalogue (dir : Text) (info : LV2Info) (disk : Disk) : Prop where
  present : (disk (pluginsFile dir)).isSome = true
  read : PluginFiles.read disk dir = .ok info.files

/-- The files that are written all the time. -/
def stateFiles (dir : Text) : List Text := [configFile dir, defaultFile dir, favFile dir]

theorem discover_of_present (h : (disk (pluginsFile dir)).isSome = true) :
    discover m dir disk = some disk := by
  rw [discover, if_pos h]

/-- Where no catalogue was, the files that are written are read back. -/
theorem hasCatalogue_discover (hnone : disk (pluginsFile dir) = none)
    (hw : ∀ name, m.writable (dir ++ name) = true) (h : discover m dir disk = some disk') :
    ∃ info, generateLV2Info m.lilvPlugins = .ok info ∧ HasCatalogue dir info disk' := by
  rw [discover, hnone, Option.isSome_none, if_neg Bool.false_ne_true] at h
  obtain ⟨info, hinfo, rfl⟩ := Option.map_eq_some_iff.mp h
  rw [toOption_eq_some] at hinfo
  refine ⟨info, hinfo, ?_, read_write (catalogued_of_generate hinfo) disk hw⟩
  rw [pluginsFile, LV2Info.write, jsonToFilename_of_ne (file_ne (by decide) dir),
    jsonToFilename_of_ne (file_ne (by decide) dir), jsonToFilename_self (hw _)]
  rfl

theorem mem_stateFiles {p : Text} : p ∈ stateFiles dir ↔
    p = configFile dir ∨ p = defaultFile dir ∨ p = favFile dir := by
  simp [stateFiles]

/-- The names of the other files are shorter. -/
theorem notMem_stateFiles {name : Text} (h : 12 < name.length) (dir : Text) :
    dir ++ name ∉ stateFiles dir := by
  rw [mem_stateFiles]
  rintro (heq | heq | heq)
  all_goals
    have hlength := congrArg List.length (List.append_cancel_left heq)
    simp at hlength
    omega

theorem installedPath_notMem_stateFiles {name : Text} (h : 12 < name.length) (dir : Text) :
    installedPath (dir ++ name) ∉ stateFiles dir := by
  rw [mem_stateFiles]
  rintro (heq | heq | heq)
  all_goals exact installedPath_ne (h.trans_le' (by simp) |>.trans_le (by omega)) dir heq

theorem HasCatalogue.of_writes (h : HasCatalogue dir info disk)
    (hwrites : Writes (stateFiles dir) disk disk') : HasCatalogue dir info disk' := by
  have hsame (name : Text) (hname : 12 < name.length) :
      filenameToJson disk' (dir ++ name) = filenameToJson disk (dir ++ name) :=
    hwrites.filenameToJson (notMem_stateFiles hname dir)
      (installedPath_notMem_stateFiles hname dir)
  constructor
  · rw [pluginsFile, hwrites _ (notMem_stateFiles (by decide) dir)]
    exact h.present
  · rw [PluginFiles.read, hsame _ (by decide), hsame _ (by decide), hsame _ (by decide)]
    exact h.read

theorem HasCatalogue.construct (h : HasCatalogue dir info disk)
    (hconstruct : construct m dir disk = some app) : app.files = info.files ∧ app.disk = disk := by
  obtain ⟨j, -, -, hdiscover, hfiles, -⟩ := construct_cases hconstruct
  rw [discover_of_present h.present, Option.some.injEq] at hdiscover
  rw [← hdiscover, h.read, Except.ok.injEq] at hfiles
  exact ⟨hfiles.symm, hdiscover.symm⟩

/-- What happens from the construction of the window on. -/
theorem play_writes_state (hplay : play dir disk l = some app) :
    ∃ app₁, App.construct l.toMachine dir disk = some app₁ ∧
      Writes (stateFiles dir) app₁.disk app.disk := by
  obtain ⟨app₂, app₃, hstart, hacts, hend⟩ := play_cases hplay
  obtain ⟨app₁, app', hconstruct, hsettings, honshow⟩ := start_cases hstart
  obtain ⟨loaded, window, favs, -, -, rfl⟩ := onshow_cases honshow
  have hwrites := (settingsOnly_settings hsettings).writes.trans (acts_keep hacts).writes
  refine ⟨app₁, hconstruct, ?_⟩
  obtain ⟨-, hquit⟩ | ⟨-, rfl⟩ := hend
  · obtain ⟨saved, disk₁, hsaved, hdisk, -⟩ := quit_cases hquit
    have hlast := (writes_jsonToFilename l.writable disk₁ (favorites app₃.browser)
      (favFile dir)).trans
      (writes_jsonToFilename l.writable _ app₃.config (configFile dir))
    rw [← hdisk] at hlast
    refine (hwrites.trans ((writes_savePresetFile hsaved).trans hlast)).mono fun p hp => ?_
    rw [mem_stateFiles]
    simp only [List.mem_append, List.mem_singleton] at hp
    tauto
  · refine hwrites.mono fun p hp => ?_
    rw [mem_stateFiles]
    simp only [List.mem_append, List.mem_singleton] at hp
    tauto

theorem HasCatalogue.play (h : HasCatalogue dir info disk) (hplay : play dir disk l = some app) :
    HasCatalogue dir info app.disk := by
  obtain ⟨app₁, hconstruct, hwrites⟩ := play_writes_state hplay
  rw [(h.construct hconstruct).2] at hwrites
  exact h.of_writes hwrites

theorem HasCatalogue.run (h : HasCatalogue dir info disk) (hrun : run dir disk ls = some disk') :
    HasCatalogue dir info disk' := by
  induction ls using List.reverseRecOn generalizing disk' with
  | nil =>
    cases hrun
    exact h
  | append_singleton ls l ih =>
    obtain ⟨disk₁, app, hrun₁, hplay, rfl⟩ := run_concat.mp hrun
    exact (ih hrun₁).play hplay

theorem hasCatalogue_of_first (hnone : disk₀ (pluginsFile dir) = none)
    (hw : ∀ name, l₀.writable (dir ++ name) = true)
    (hrun : App.run dir disk₀ (l₀ :: ls) = some disk) :
    ∃ info, generateLV2Info l₀.lilvPlugins = .ok info ∧ HasCatalogue dir info disk := by
  rw [App.run, List.foldlM_cons, Option.bind_eq_bind, Option.bind_eq_some_iff] at hrun
  obtain ⟨disk₁, hfirst, hrest⟩ := hrun
  obtain ⟨app₀, hplay, rfl⟩ := Option.map_eq_some_iff.mp hfirst
  obtain ⟨app₁, hconstruct, hwrites⟩ := play_writes_state hplay
  obtain ⟨-, -, -, hdiscover, -⟩ := construct_cases hconstruct
  obtain ⟨info, hinfo, hcat⟩ := hasCatalogue_discover hnone hw hdiscover
  exact ⟨info, hinfo, (hcat.of_writes hwrites).run hrest⟩

/-- The rows of the browser at a start, which are those of the catalogue. -/
theorem start_rows {ps : List LilvPlugin} (hcat : HasCatalogue dir info disk)
    (hinfo : Catalogued ps info) (hstart : start m dir disk = some app) :
    ∃ qs : List (LilvPlugin × ℕ), qs.Perm (EffectBrowser.listed ps m.blacklist) ∧
      app.browser.boxes.map (·.name) = qs.map (fun q => Nat.toDigits 10 q.2) ∧
      app.browser.hearts.map (·.name) = qs.map fun q => escape q.1.name := by
  obtain ⟨app₁, app₂, hconstruct, hsettings, honshow⟩ := start_cases hstart
  have hfiles := (hcat.construct hconstruct).1
  obtain ⟨-, -, -, -, -, -, -, hbrowser, -⟩ := construct_cases hconstruct
  obtain ⟨loaded, window, favs, -, -, rfl⟩ := onshow_cases honshow
  obtain ⟨qs, hqs, hentries⟩ := Browser.exists_entries m.blacklist hinfo
  rw [hfiles, hentries, Except.ok.injEq] at hbrowser
  refine ⟨qs, hqs, ?_⟩
  rw [(settingsOnly_settings hsettings).browser, ← hbrowser, Browser.onshow_ofEffects,
    Browser.map_name_boxes, Browser.map_name_hearts, List.map_map, List.map_map]
  have hsame (q : LilvPlugin × ℕ) := Browser.restore_same favs { plugin := q.1, x := q.2 }
  constructor
  · rw [Browser.newEffects, List.map_map]
    exact List.map_congr_left fun q _ => congrArg (Nat.toDigits 10) (hsame q).2.1
  · rw [Browser.newEffects, List.map_map]
    exact List.map_congr_left fun q _ => congrArg (fun p : LilvPlugin => escape p.name) (hsame q).1

/-- Whatever is installed later, every start offers the effects that the first launch found, less
what is blacklisted now. -/
theorem start_offers_first (dir : Text) (disk₀ : Disk) (l₀ : Launch) (ls : List Launch)
    (m : Machine) {disk : Disk} {app : App} (hnone : disk₀ (pluginsFile dir) = none)
    (hw : ∀ name, l₀.writable (dir ++ name) = true)
    (hrun : App.run dir disk₀ (l₀ :: ls) = some disk) (hstart : start m dir disk = some app) :
    (app.browser.boxes.map (·.name)).Perm
        ((EffectBrowser.listed l₀.lilvPlugins m.blacklist).map fun e => Nat.toDigits 10 e.2) ∧
      (app.browser.hearts.map (·.name)).Perm
        ((EffectBrowser.listed l₀.lilvPlugins m.blacklist).map fun e => escape e.1.name) := by
  obtain ⟨info, hinfo, hcat⟩ := hasCatalogue_of_first hnone hw hrun
  obtain ⟨qs, hqs, hboxes, hhearts⟩ := start_rows hcat (catalogued_of_generate hinfo) hstart
  rw [hboxes, hhearts]
  exact ⟨hqs.map _, hqs.map _⟩

/-- The plugin of the first launch is gone and another one has come. -/
def laterMachine : Machine where
  lilvPlugins := [{ EffectBrowser.oneAuthor with name := "Fuzz".toList, uri := "urn:fuzz".toList }]
  world := silentWorld

theorem start_offers_gain :
    ∃ disk app, run "/d".toList noFiles [heartLaunch] = some disk ∧
      start laterMachine "/d".toList disk = some app ∧
      app.browser.hearts.map (·.name) = ["Gain".toList] := by
  have hsome : ((run "/d".toList noFiles [heartLaunch]).bind
      (start laterMachine "/d".toList)).isSome = true := by
    decide +kernel
  obtain ⟨app, happ⟩ := Option.isSome_iff_exists.mp hsome
  obtain ⟨disk, hrun, hstart⟩ := Option.bind_eq_some_iff.mp happ
  obtain ⟨-, hhearts⟩ := start_offers_first "/d".toList noFiles heartLaunch [] laterMachine rfl
    (fun _ => rfl) hrun hstart
  exact ⟨disk, app, hrun, hstart, List.perm_singleton.mp hhearts⟩

end App

end AmpRack

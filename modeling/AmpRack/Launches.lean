import AmpRack.BrowserFilters
import AmpRack.PresetGuards

/-!
# Launches of the program

A launch reads the configuration, the catalogue, the last preset and the favourites from the files of
one directory. The catalogue is made when its file is missing. A change of a setting is written at
once; the preset and the favourites are written when the window is closed. A launch that is ended in
another way writes nothing more.
-/

namespace AmpRack

open JsonText VectorEdits

/-- What a start of the program finds: what lilv lists and instantiates, the sound files that can be
read, the blacklist, the files that can be opened for writing and the themes with a stylesheet.
`realized` says whether the window is on the screen when its `show` handler runs. -/
structure Machine where
  lilvPlugins : List LilvPlugin := []
  world : World
  readable : Text → Bool := fun _ => false
  blacklist : Json := .obj []
  writable : Text → Bool := fun _ => true
  hasTheme : Text → Bool := fun _ => true
  realized : Bool := true

inductive AppAct
  | rack (op : RackWindow.Op)
  | browse (ev : BrowserEvent)
  | switchRenderer (selected : ℕ)
  | switchTheme (basename : Text)

/-- A start of the program, what the user does then, and whether the window is closed in the end. -/
structure Launch extends Machine where
  acts : List AppAct := []
  closed : Bool := true

/-- `gskRenderer` is the variable `GSK_RENDERER`, if the program has set it. -/
structure App where
  disk : Disk
  gskRenderer : Option Text := none
  files : PluginFiles
  installation : Installation
  config : Json
  window : RackWindow := {}
  browser : Browser

/-- The array that `main` takes the name of a renderer from. -/
def renderers : List (Option Text) :=
  [some "auto".toList, some "cairo".toList, some "gl".toList, some "ngl".toList,
    some "vulkan".toList, none, none]

/-- An entry of `lv2_plugins.json`. -/
def CatalogueEntry.ofJson (plugin : Json) : Option CatalogueEntry := do
  let name ← (plugin.get? "name".toList).bind Json.toText
  let library ← (plugin.get? "library".toList).bind Json.toText
  if plugin.contains "file" then
    let type ← (plugin.get? "fileType".toList).bind getInt
    return ⟨name, library, some type⟩
  else return ⟨name, library, none⟩

/-- `j [k] = v`, which throws for what is neither an object nor null. -/
def assignMember (j : Json) (k : Text) (v : Json) : Option Json :=
  match j with
  | .null | .obj _ => some (j.assign k v)
  | _ => none

section Assign

variable {j v : Json} {k k' : List Char}

theorem get?_assign (h : j = .null ∨ ∃ ms, j = .obj ms) (k k' : List Char) (v : Json) :
    (j.assign k v).get? k' = if k' = k then some v else j.get? k' := by
  obtain rfl | ⟨ms, rfl⟩ := h
  · by_cases hk : k' = k
    · subst hk
      rw [if_pos rfl]
      exact get?_insert k' v []
    · rw [if_neg hk]
      exact get?_insert_of_ne hk v []
  · by_cases hk : k' = k
    · subst hk
      rw [if_pos rfl]
      exact get?_insert k' v ms
    · rw [if_neg hk]
      exact get?_insert_of_ne hk v ms

theorem assign_isObject (h : j = .null ∨ ∃ ms, j = .obj ms) (k : List Char) (v : Json) :
    ∃ ms, j.assign k v = .obj ms := by
  obtain rfl | ⟨ms, rfl⟩ := h
  · exact ⟨_, rfl⟩
  · exact ⟨_, rfl⟩

theorem wellFormed_assign (h : j.WellFormed) (hv : v.WellFormed) (k : List Char) :
    (j.assign k v).WellFormed := by
  cases j with
  | null => exact ⟨List.pairwise_singleton _ _, hv, trivial⟩
  | obj ms =>
    refine ⟨sortedKeys_insert h.1, membersWellFormed_iff.mpr fun m hm => ?_⟩
    cases mem_insert hm with
    | inl hm =>
      rw [hm]
      exact hv
    | inr hm => exact membersWellFormed_iff.mp h.2 m hm
  | bool b => exact h
  | int n => exact h
  | float literal => exact h
  | str s => exact h
  | arr xs => exact h

/-- What is assigned already changes nothing. -/
theorem insert_of_get? {ms : Members} (hs : SortedKeys ms)
    (h : (Json.obj ms).get? k = some v) : JsonText.insert k v ms = ms := by
  induction ms with
  | nil => cases h
  | cons m ms ih =>
    obtain ⟨hlt, hrest⟩ := List.pairwise_cons.mp hs
    rw [Json.get?, List.find?_cons] at h
    rw [JsonText.insert]
    by_cases hk : m.1 = k
    · have hm : (m.1 == k) = true := by simpa using hk
      rw [hm, Option.map_some, Option.some.injEq] at h
      rw [if_neg (by rw [hk]; exact lt_irrefl k), if_pos hk.symm, ← hk, ← h]
    · have hm : (m.1 == k) = false := by simpa using hk
      rw [hm] at h
      have hmem : k ∈ ms.map (·.1) := by
        obtain ⟨m', hm', -⟩ := Option.map_eq_some_iff.mp h
        have hkey := List.find?_some hm'
        rw [← eq_of_beq hkey]
        exact List.mem_map_of_mem (List.mem_of_find?_eq_some hm')
      rw [if_neg (hlt k hmem).not_gt, if_neg (Ne.symm hk), ih hrest h]

end Assign

section Paths

variable {dir a b : Text}

theorem file_ne (h : a ≠ b) (dir : Text) : dir ++ a ≠ dir ++ b := fun heq =>
  h (List.append_cancel_left heq)

theorem length_installedPath (filename : Text) :
    (installedPath filename).length = 19 + filename.length := by
  have hroot : "/usr/share/amprack/".toList.length = 19 := rfl
  have hpath : installedPath filename = "/usr/share/amprack/".toList ++ filename := rfl
  rw [hpath, List.length_append, hroot]

theorem installedPath_ne (h : b.length < a.length + 19) (dir : Text) :
    installedPath (dir ++ a) ≠ dir ++ b := by
  intro heq
  have hlength := congrArg List.length heq
  rw [length_installedPath, List.length_append, List.length_append] at hlength
  omega

end Paths

namespace App

section Files

variable (dir : Text)

def configFile : Text := dir ++ "/config.json".toList

def favFile : Text := dir ++ "/fav.json".toList

def defaultFile : Text := dir ++ "/default".toList

def pluginsFile : Text := dir ++ "/lv2_plugins.json".toList

end Files

/-- The number of the renderer in the configuration, 0 if there is none. -/
def rendererNumber (config : Json) : Option ℤ :=
  match config.get? "renderer".toList with
  | none => some 0
  | some renderer => getInt renderer

/-- The lines of `main` in front of the application. -/
def environment (config : Json) : Option (Option Text) :=
  (rendererNumber config).bind fun renderer =>
    if renderer = 0 then some none else at? renderers renderer

/-- The lines of the engine's constructor that make the catalogue. -/
def discover (m : Machine) (dir : Text) (disk : Disk) : Option Disk :=
  if (disk (pluginsFile dir)).isSome then some disk
  else (generateLV2Info m.lilvPlugins).toOption.map fun info => info.write m.writable disk dir

/-- The handler of the dropdown for the renderer. -/
def switchRenderer (m : Machine) (dir : Text) (app : App) (selected : ℕ) : Option App :=
  (assignMember app.config "renderer".toList (.int selected)).map fun config =>
    { app with config := config, disk := jsonToFilename m.writable app.disk config (configFile dir) }

def switchTheme (m : Machine) (dir : Text) (app : App) (basename : Text) : Option App :=
  if m.hasTheme basename then
    (assignMember app.config "theme".toList (.str basename)).map fun config =>
      { app with
        config := config
        disk := jsonToFilename m.writable app.disk config (configFile dir) }
  else some app

/-- The constructor of the settings selects the renderer of the configuration, which calls the handler
unless the first entry is selected, as it is anyway. A position behind the five entries deselects, and
the handler then gets `GTK_INVALID_LIST_POSITION`. -/
def settings (m : Machine) (dir : Text) (app : App) : Option App :=
  match rendererNumber app.config with
  | none => none
  | some current =>
    if current = 0 then some app
    else if 0 < current ∧ current < 5 then app.switchRenderer m dir current.toNat
    else app.switchRenderer m dir 4294967295

/-- The handler of the window's `show` signal. -/
def onshow (m : Machine) (dir : Text) (app : App) : Option App := do
  let (_, window) ←
    (app.window.loadPresetFile app.installation m.realized app.disk (defaultFile dir)).toOption
  let favs ← (filenameToJson app.disk (favFile dir)).toOption
  return { app with window := window, browser := app.browser.onshow favs }

/-- The constructors, up to the window. -/
def construct (m : Machine) (dir : Text) (disk : Disk) : Option App := do
  let j ← (filenameToJson disk (configFile dir)).toOption
  let gskRenderer ← environment j
  let disk ← discover m dir disk
  let files ← (PluginFiles.read disk dir).toOption
  let catalogue ← (elements files.lv2Json).mapM CatalogueEntry.ofJson
  let config ← (filenameToJson disk (configFile dir)).toOption
  let _ ← (EffectBrowser.createPluginDialog files m.blacklist).toOption
  let browser ← (Browser.addEntries m.blacklist {} (membersOf files.lv2Json)).toOption
  return {
    disk := disk
    gskRenderer := gskRenderer
    files := files
    installation := { m.world with catalogue := catalogue, readable := m.readable }
    config := config
    browser := browser }

def start (m : Machine) (dir : Text) (disk : Disk) : Option App := do
  let app ← construct m dir disk
  let app ← app.settings m dir
  app.onshow m dir

def act (m : Machine) (dir : Text) (app : App) : AppAct → Option App
  | .rack op => (app.window.step app.installation op).toOption.map fun window =>
      { app with window := window }
  | .browse ev => (app.browser.step app.files ev).toOption.map fun browser =>
      { app with browser := browser }
  | .switchRenderer selected => app.switchRenderer m dir selected
  | .switchTheme basename => app.switchTheme m dir basename

def addFavorite (favs : Json) (fav : Heart) : Json :=
  if fav.active then favs.assign fav.name (.bool true) else favs

/-- The favourites, which are null until there is one. -/
def favorites (browser : Browser) : Json := browser.hearts.foldl addFavorite .null

/-- The handler of the window's `close-request` signal. -/
def quit (m : Machine) (dir : Text) (app : App) : Option App := do
  let (_, disk) ← (app.window.rack.engine.savePresetFile m.writable app.disk (defaultFile dir)
    "Last saved preset".toList).toOption
  let disk := jsonToFilename m.writable disk (favorites app.browser) (favFile dir)
  let disk := jsonToFilename m.writable disk app.config (configFile dir)
  return { app with disk := disk }

def play (dir : Text) (disk : Disk) (l : Launch) : Option App := do
  let app ← start l.toMachine dir disk
  let app ← l.acts.foldlM (act l.toMachine dir) app
  if l.closed then app.quit l.toMachine dir else return app

/-- The disk after the launches. -/
def run (dir : Text) (disk : Disk) (ls : List Launch) : Option Disk :=
  ls.foldlM (fun disk l => (play dir disk l).map (·.disk)) disk

section Writes

variable {m : Machine} {dir : Text} {disk disk' disk'' : Disk} {app app' : App}

/-- The other files are as they were. -/
def Writes (files : List Text) (disk disk' : Disk) : Prop := ∀ p, p ∉ files → disk' p = disk p

theorem Writes.refl (files : List Text) (disk : Disk) : Writes files disk disk := fun _ _ => rfl

theorem Writes.trans {files files' : List Text} (h : Writes files disk disk')
    (h' : Writes files' disk' disk'') : Writes (files ++ files') disk disk'' := by
  intro p hp
  rw [List.mem_append, not_or] at hp
  rw [h' p hp.2, h p hp.1]

theorem Writes.mono {files files' : List Text} (h : Writes files disk disk')
    (hsub : ∀ p ∈ files, p ∈ files') : Writes files' disk disk' :=
  fun p hp => h p fun hmem => hp (hsub p hmem)

theorem writes_jsonToFilename (writable : Text → Bool) (disk : Disk) (j : Json) (filename : Text) :
    Writes [filename] disk (jsonToFilename writable disk j filename) := by
  intro p hp
  exact jsonToFilename_of_ne (by simpa using hp)

/-- A file that cannot be opened stays as it was. -/
theorem writes_of_unwritable {writable : Text → Bool} {filename : Text}
    (h : writable filename ≠ true) (disk : Disk) (j : Json) :
    Writes [] disk (jsonToFilename writable disk j filename) := by
  rw [jsonToFilename, if_neg h]
  exact .refl _ _

/-- A file that is not written is read as before, wherever it is found. -/
theorem Writes.filenameToJson {files : List Text} (h : Writes files disk disk') {filename : Text}
    (hf : filename ∉ files) (hinstalled : installedPath filename ∉ files) :
    filenameToJson disk' filename = filenameToJson disk filename := by
  rw [AmpRack.filenameToJson, AmpRack.filenameToJson, h _ hf, h _ hinstalled]

def catalogueFiles (dir : Text) : List Text :=
  [pluginsFile dir, dir ++ "/lv2_categories.json".toList, dir ++ "/lv2_creators.json".toList]

theorem writes_discover (h : discover m dir disk = some disk') :
    Writes (catalogueFiles dir) disk disk' := by
  rw [discover] at h
  split_ifs at h
  · cases h
    exact .refl _ _
  · obtain ⟨info, -, rfl⟩ := Option.map_eq_some_iff.mp h
    exact ((writes_jsonToFilename _ _ _ _).trans ((writes_jsonToFilename _ _ _ _).trans
      (writes_jsonToFilename _ _ _ _))).mono fun p hp => hp

end Writes

section Start

variable {m : Machine} {dir : Text} {disk : Disk} {app app' : App}

theorem toOption_eq_some {ε α : Type*} {x : Except ε α} {a : α} :
    x.toOption = some a ↔ x = .ok a := by
  cases x with
  | error e => simp [Except.toOption]
  | ok b => simp [Except.toOption]

/-- What the constructors have made. -/
theorem construct_cases (h : construct m dir disk = some app) :
    ∃ j, filenameToJson disk (configFile dir) = .ok j ∧ environment j = some app.gskRenderer ∧
      discover m dir disk = some app.disk ∧ PluginFiles.read app.disk dir = .ok app.files ∧
      (elements app.files.lv2Json).mapM CatalogueEntry.ofJson = some app.installation.catalogue ∧
      filenameToJson app.disk (configFile dir) = .ok app.config ∧
      Browser.addEntries m.blacklist {} (membersOf app.files.lv2Json) = .ok app.browser ∧
      app.window = {} := by
  simp only [construct, Option.bind_eq_bind, Option.bind_eq_some_iff, toOption_eq_some,
    Option.pure_def, Option.some.injEq] at h
  obtain ⟨j, hj, gskRenderer, henv, disk₁, hdisk, files, hfiles, catalogue, hcatalogue, config,
    hconfig, d, -, browser, hbrowser, rfl⟩ := h
  exact ⟨j, hj, henv, hdisk, hfiles, hcatalogue, hconfig, hbrowser, rfl⟩

/-- All but the configuration and its file. -/
structure SettingsOnly (dir : Text) (app app' : App) : Prop where
  writes : Writes [configFile dir] app.disk app'.disk
  gskRenderer : app'.gskRenderer = app.gskRenderer
  files : app'.files = app.files
  installation : app'.installation = app.installation
  window : app'.window = app.window
  browser : app'.browser = app.browser

theorem SettingsOnly.refl (dir : Text) (app : App) : SettingsOnly dir app app :=
  ⟨.refl _ _, rfl, rfl, rfl, rfl, rfl⟩

theorem settingsOnly_switchRenderer {selected : ℕ}
    (h : app.switchRenderer m dir selected = some app') : SettingsOnly dir app app' := by
  obtain ⟨config, -, rfl⟩ := Option.map_eq_some_iff.mp h
  exact ⟨writes_jsonToFilename _ _ _ _, rfl, rfl, rfl, rfl, rfl⟩

theorem settingsOnly_switchTheme {basename : Text}
    (h : app.switchTheme m dir basename = some app') : SettingsOnly dir app app' := by
  rw [switchTheme] at h
  split_ifs at h
  · obtain ⟨config, -, rfl⟩ := Option.map_eq_some_iff.mp h
    exact ⟨writes_jsonToFilename _ _ _ _, rfl, rfl, rfl, rfl, rfl⟩
  · cases h
    exact .refl dir app

theorem settingsOnly_settings (h : app.settings m dir = some app') : SettingsOnly dir app app' := by
  rw [settings] at h
  split at h
  · cases h
  · split_ifs at h
    · cases h
      exact .refl dir app
    · exact settingsOnly_switchRenderer h
    · exact settingsOnly_switchRenderer h

theorem onshow_cases (h : app.onshow m dir = some app') :
    ∃ loaded window favs,
      app.window.loadPresetFile app.installation m.realized app.disk (defaultFile dir) =
        .ok (loaded, window) ∧
      filenameToJson app.disk (favFile dir) = .ok favs ∧
      app' = { app with window := window, browser := app.browser.onshow favs } := by
  simp only [onshow, Option.bind_eq_bind, Option.bind_eq_some_iff, toOption_eq_some,
    Option.pure_def, Option.some.injEq] at h
  obtain ⟨⟨loaded, window⟩, hwindow, favs, hfavs, rfl⟩ := h
  exact ⟨loaded, window, favs, hwindow, hfavs, rfl⟩

theorem start_cases (h : start m dir disk = some app) :
    ∃ app₁ app₂, construct m dir disk = some app₁ ∧ app₁.settings m dir = some app₂ ∧
      app₂.onshow m dir = some app := by
  simpa only [start, Option.bind_eq_bind, Option.bind_eq_some_iff, exists_and_left] using h

end Start

section Play

variable {m : Machine} {dir : Text} {disk : Disk} {l : Launch} {app app' : App}

/-- What an action of the user leaves alone. -/
structure ActKeeps (dir : Text) (app app' : App) : Prop where
  writes : Writes [configFile dir] app.disk app'.disk
  files : app'.files = app.files
  installation : app'.installation = app.installation

theorem SettingsOnly.actKeeps (h : SettingsOnly dir app app') : ActKeeps dir app app' :=
  ⟨h.writes, h.files, h.installation⟩

theorem act_keeps {a : AppAct} (h : act m dir app a = some app') : ActKeeps dir app app' := by
  cases a with
  | rack op =>
    obtain ⟨window, -, rfl⟩ := Option.map_eq_some_iff.mp h
    exact ⟨.refl _ _, rfl, rfl⟩
  | browse ev =>
    obtain ⟨browser, -, rfl⟩ := Option.map_eq_some_iff.mp h
    exact ⟨.refl _ _, rfl, rfl⟩
  | switchRenderer selected => exact (settingsOnly_switchRenderer h).actKeeps
  | switchTheme basename => exact (settingsOnly_switchTheme h).actKeeps

theorem acts_keep {as : List AppAct} (h : as.foldlM (act m dir) app = some app') :
    ActKeeps dir app app' := by
  induction as generalizing app with
  | nil =>
    cases h
    exact ⟨.refl _ _, rfl, rfl⟩
  | cons a as ih =>
    rw [List.foldlM_cons, Option.bind_eq_bind, Option.bind_eq_some_iff] at h
    obtain ⟨app₁, ha, has⟩ := h
    have hone := act_keeps ha
    have hrest := ih has
    exact ⟨(hone.writes.trans hrest.writes).mono fun p hp => by simpa using hp,
      hrest.files.trans hone.files, hrest.installation.trans hone.installation⟩

theorem writes_savePresetFile {writable : Text → Bool} {e : Engine} {filename description : Text}
    {saved : Bool} {disk' : Disk}
    (h : e.savePresetFile writable disk filename description = .ok (saved, disk')) :
    Writes [filename] disk disk' := by
  obtain ⟨preset, -, hsaved⟩ := Engine.map_eq_ok h
  cases preset with
  | none =>
    cases hsaved
    exact .refl _ _
  | some preset =>
    cases hsaved
    exact writes_jsonToFilename _ _ _ _

/-- Closing the window writes the preset, then the favourites, then the configuration. -/
theorem quit_cases (h : app.quit m dir = some app') :
    ∃ saved disk₁, app.window.rack.engine.savePresetFile m.writable app.disk (defaultFile dir)
        "Last saved preset".toList = .ok (saved, disk₁) ∧
      app'.disk = jsonToFilename m.writable
        (jsonToFilename m.writable disk₁ (favorites app.browser) (favFile dir)) app.config
        (configFile dir) ∧
      app'.config = app.config ∧ app'.browser = app.browser ∧ app'.window = app.window ∧
      app'.installation = app.installation := by
  simp only [quit, Option.bind_eq_bind, Option.bind_eq_some_iff, toOption_eq_some,
    Option.pure_def, Option.some.injEq] at h
  obtain ⟨⟨saved, disk₁⟩, hsaved, rfl⟩ := h
  exact ⟨saved, disk₁, hsaved, rfl, rfl, rfl, rfl, rfl⟩

/-- A launch up to the point where the window is closed, if it is. -/
theorem play_cases (h : play dir disk l = some app) :
    ∃ app₁ app₂, start l.toMachine dir disk = some app₁ ∧
      l.acts.foldlM (act l.toMachine dir) app₁ = some app₂ ∧
      (l.closed = true ∧ app₂.quit l.toMachine dir = some app ∨ l.closed = false ∧ app = app₂) := by
  simp only [play, Option.bind_eq_bind, Option.bind_eq_some_iff] at h
  obtain ⟨app₁, hstart, app₂, hacts, h⟩ := h
  refine ⟨app₁, app₂, hstart, hacts, ?_⟩
  split_ifs at h with hclosed
  · exact .inl ⟨hclosed, h⟩
  · cases h
    exact .inr ⟨Bool.eq_false_iff.mpr hclosed, rfl⟩

theorem run_concat {disk' : Disk} {ls : List Launch} :
    run dir disk (ls ++ [l]) = some disk' ↔
      ∃ disk₁ app, run dir disk ls = some disk₁ ∧ play dir disk₁ l = some app ∧ app.disk = disk' := by
  simp [run, List.foldlM_append, Option.bind_eq_some_iff]

end Play

end App

end AmpRack

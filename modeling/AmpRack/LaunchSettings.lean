import AmpRack.LaunchFavorites

/-!
# The settings over many launches

A change of a setting is in the file before the user can do anything else, so a launch that is ended
from outside loses none. The constructor of the settings writes the renderer a second time, to no
effect. A configuration that only the program has written names a renderer that there is.
-/

namespace AmpRack

open JsonText VectorEdits

namespace App

/-- What an action assigns to which key of the configuration. -/
def change (m : Machine) : AppAct → Option (Text × Json)
  | .switchRenderer selected => some ("renderer".toList, .int selected)
  | .switchTheme basename =>
    if m.hasTheme basename then some ("theme".toList, .str basename) else none
  | _ => none

def applyChange (config : Json) (c : Text × Json) : Json := config.assign c.1 c.2

/-- All changes of a launch, in order. -/
def changes (l : Launch) : List (Text × Json) := l.acts.filterMap (change l.toMachine)

/-- The dropdown has five entries. -/
def Offers : AppAct → Prop
  | .switchRenderer selected => selected < 5
  | _ => True

/-- The configuration names renderer `k`, or none, which is renderer 0. -/
def NamesRenderer (config : Json) (k : ℕ) : Prop :=
  k < 5 ∧ (config.get? "renderer".toList = some (.int k) ∨
    k = 0 ∧ config.get? "renderer".toList = none)

/-- The file holds the configuration, which names a renderer. -/
def Configured (dir : Text) (config : Json) (disk : Disk) : Prop :=
  filenameToJson disk (configFile dir) = .ok config ∧ ∃ k, NamesRenderer config k

section Changes

variable {m : Machine} {dir : Text} {disk disk' : Disk} {app app' : App} {config v : Json} {k : Text}
  {n : ℕ}

theorem assignMember_eq {config' : Json} (h : assignMember config k v = some config') :
    config' = config.assign k v ∧ (config = .null ∨ ∃ ms, config = .obj ms) := by
  cases config with
  | null => exact ⟨(Option.some.inj h).symm, .inl rfl⟩
  | obj ms => exact ⟨(Option.some.inj h).symm, .inr ⟨ms, rfl⟩⟩
  | bool b => cases h
  | int i => cases h
  | float literal => cases h
  | str s => cases h
  | arr xs => cases h

theorem Configured.wellFormed (h : Configured dir config disk) : config.WellFormed := by
  obtain ⟨hok, -⟩ := h
  rw [filenameToJson] at hok
  split at hok
  · cases hok
  · rename_i hparse
    cases hok
    exact wellFormed_of_parse hparse

theorem Configured.of_writes {files : List Text} (h : Configured dir config disk)
    (hwrites : Writes files disk disk') (hf : configFile dir ∉ files)
    (hinstalled : installedPath (configFile dir) ∉ files) : Configured dir config disk' := by
  refine ⟨?_, h.2⟩
  rw [hwrites.filenameToJson hf hinstalled]
  exact h.1

/-- Writing a configuration that names a renderer. -/
theorem configured_of_write (hw : m.writable (configFile dir) = true) (hconfig : config.WellFormed)
    (hnames : ∃ k, NamesRenderer config k) :
    Configured dir config (jsonToFilename m.writable disk config (configFile dir)) :=
  ⟨filenameToJson_jsonToFilename hw hconfig, hnames⟩

theorem switchRenderer_configured (hw : m.writable (configFile dir) = true)
    (hc : Configured dir app.config app.disk) (hn : n < 5)
    (h : app.switchRenderer m dir n = some app') :
    Configured dir app'.config app'.disk ∧
      app'.config = app.config.assign "renderer".toList (.int n) := by
  obtain ⟨config, hassign, rfl⟩ := Option.map_eq_some_iff.mp h
  obtain ⟨rfl, hobject⟩ := assignMember_eq hassign
  have hint : (Json.int n).WellFormed := wellFormed_int (by omega)
  have hnames : NamesRenderer (app.config.assign "renderer".toList (.int n)) n :=
    ⟨hn, .inl (by rw [get?_assign hobject, if_pos rfl])⟩
  exact ⟨configured_of_write hw (wellFormed_assign hc.wellFormed hint _) ⟨n, hnames⟩, rfl⟩

theorem switchTheme_configured {basename : Text} (hw : m.writable (configFile dir) = true)
    (hc : Configured dir app.config app.disk) (htheme : m.hasTheme basename = true)
    (h : app.switchTheme m dir basename = some app') :
    Configured dir app'.config app'.disk ∧
      app'.config = app.config.assign "theme".toList (.str basename) := by
  rw [switchTheme, if_pos htheme] at h
  obtain ⟨config, hassign, rfl⟩ := Option.map_eq_some_iff.mp h
  obtain ⟨rfl, hobject⟩ := assignMember_eq hassign
  have hstr : (Json.str basename).WellFormed := trivial
  obtain ⟨k, hnames⟩ := hc.2
  have hkey : "renderer".toList ≠ "theme".toList := by decide
  have hnames' : NamesRenderer (app.config.assign "theme".toList (.str basename)) k := by
    rw [NamesRenderer, get?_assign hobject, if_neg hkey]
    exact hnames
  exact ⟨configured_of_write hw (wellFormed_assign hc.wellFormed hstr _) ⟨k, hnames'⟩, rfl⟩

theorem act_configured {a : AppAct} (hw : m.writable (configFile dir) = true)
    (hc : Configured dir app.config app.disk) (ha : Offers a) (h : act m dir app a = some app') :
    Configured dir app'.config app'.disk ∧
      app'.config = (change m a).toList.foldl applyChange app.config := by
  cases a with
  | rack op =>
    obtain ⟨window, -, rfl⟩ := Option.map_eq_some_iff.mp h
    exact ⟨hc, rfl⟩
  | browse ev =>
    obtain ⟨browser, -, rfl⟩ := Option.map_eq_some_iff.mp h
    exact ⟨hc, rfl⟩
  | switchRenderer selected => exact switchRenderer_configured hw hc ha h
  | switchTheme basename =>
    rw [change]
    split_ifs with htheme
    · exact switchTheme_configured hw hc htheme h
    · rw [act, switchTheme, if_neg htheme] at h
      cases h
      exact ⟨hc, rfl⟩

theorem acts_configured {as : List AppAct} (hw : m.writable (configFile dir) = true)
    (hc : Configured dir app.config app.disk) (has : ∀ a ∈ as, Offers a)
    (h : as.foldlM (act m dir) app = some app') :
    Configured dir app'.config app'.disk ∧
      app'.config = (as.filterMap (change m)).foldl applyChange app.config := by
  induction as generalizing app with
  | nil =>
    cases h
    exact ⟨hc, rfl⟩
  | cons a as ih =>
    obtain ⟨ha, has⟩ := List.forall_mem_cons.mp has
    rw [List.foldlM_cons, Option.bind_eq_bind, Option.bind_eq_some_iff] at h
    obtain ⟨app₁, hone, hrest⟩ := h
    obtain ⟨hc₁, hconfig₁⟩ := act_configured hw hc ha hone
    obtain ⟨hc', hconfig'⟩ := ih hc₁ has hrest
    refine ⟨hc', ?_⟩
    rw [hconfig', hconfig₁, List.filterMap_cons]
    cases change m a with
    | none => rfl
    | some c => rfl

end Changes

section Start

variable {m : Machine} {dir : Text} {disk : Disk} {app app' : App} {config : Json} {k : ℕ}

theorem NamesRenderer.rendererNumber (h : NamesRenderer config k) :
    rendererNumber config = some (k : ℤ) := by
  obtain ⟨hk, hsome | ⟨rfl, hnone⟩⟩ := h
  · have hbmod : (k : ℤ).bmod (2 ^ 32) = k := Int.bmod_eq_of_le (by omega) (by omega)
    rw [App.rendererNumber, hsome]
    exact congrArg some hbmod
  · rw [App.rendererNumber, hnone]
    rfl

/-- The variable is the name of the renderer, and unset for the first. -/
theorem environment_of_names (h : NamesRenderer config k) :
    environment config = some (if k = 0 then none else renderers.getD k none) := by
  rw [environment, h.rendererNumber, Option.bind_some]
  match k, h.1 with
  | 0, _ | 1, _ | 2, _ | 3, _ | 4, _ => rfl

/-- Selecting the renderer of the configuration assigns what is there. -/
theorem settings_config (hc : Configured dir app.config app.disk)
    (h : app.settings m dir = some app') :
    app'.config = app.config ∧ Configured dir app.config app'.disk := by
  obtain ⟨k, hnames⟩ := hc.2
  rw [settings, hnames.rendererNumber] at h
  obtain ⟨hk, hentry⟩ := hnames
  dsimp only at h
  split_ifs at h with hzero hrange
  · cases h
    exact ⟨rfl, hc⟩
  · obtain ⟨config, hassign, rfl⟩ := Option.map_eq_some_iff.mp h
    obtain ⟨rfl, hobject⟩ := assignMember_eq hassign
    have hsame : app.config.assign "renderer".toList (.int k) = app.config := by
      obtain hsome | ⟨rfl, -⟩ := hentry
      · have hwell := hc.wellFormed
        obtain hnull | ⟨ms, hms⟩ := hobject
        · rw [hnull] at hsome
          cases hsome
        · rw [hms] at hsome hwell ⊢
          exact congrArg Json.obj (insert_of_get? hwell.1 hsome)
      · exact absurd rfl hzero
    rw [Int.toNat_natCast, hsame]
    refine ⟨rfl, ?_⟩
    by_cases hw : m.writable (configFile dir) = true
    · exact configured_of_write hw hc.wellFormed hc.2
    · exact hc.of_writes (writes_of_unwritable hw app.disk app.config) List.not_mem_nil
        List.not_mem_nil
  · omega

theorem configFile_notMem (dir : Text) : configFile dir ∉ catalogueFiles dir := by
  simp [configFile, catalogueFiles, pluginsFile]

theorem installed_configFile_notMem (dir : Text) :
    installedPath (configFile dir) ∉ catalogueFiles dir := by
  have hne (b : Text) (hb : b.length < 31) : installedPath (configFile dir) ≠ dir ++ b :=
    installedPath_ne hb dir
  simp [catalogueFiles, pluginsFile, hne]

theorem start_configured (hc : Configured dir config disk) (h : start m dir disk = some app) :
    app.config = config ∧ Configured dir config app.disk ∧
      environment config = some app.gskRenderer := by
  obtain ⟨app₁, app₂, hconstruct, hsettings, honshow⟩ := start_cases h
  obtain ⟨j, hj, henv, hdiscover, -, -, hconfig₁, -⟩ := construct_cases hconstruct
  obtain ⟨loaded, window, favs, -, -, rfl⟩ := onshow_cases honshow
  have hc₁ := hc.of_writes (writes_discover hdiscover) (configFile_notMem dir)
    (installed_configFile_notMem dir)
  cases hc.1.symm.trans hj
  cases hc₁.1.symm.trans hconfig₁
  obtain ⟨hconfig₂, hc₂⟩ := settings_config hc₁ hsettings
  exact ⟨hconfig₂, hc₂, by rw [henv, (settingsOnly_settings hsettings).gskRenderer]⟩

end Start

section Runs

variable {m : Machine} {dir : Text} {disk disk₀ : Disk} {app app' : App} {config config₀ : Json}
  {l : Launch} {ls : List Launch}

theorem quit_configured (hw : m.writable (configFile dir) = true)
    (hc : Configured dir app.config app.disk) (h : app.quit m dir = some app') :
    Configured dir app.config app'.disk := by
  obtain ⟨saved, disk₁, -, hdisk, -⟩ := quit_cases h
  rw [hdisk]
  exact configured_of_write hw hc.wellFormed hc.2

/-- The launch can write the configuration, and the user selects only what the dropdown has. -/
def KeepsConfig (dir : Text) (l : Launch) : Prop :=
  l.writable (configFile dir) = true ∧ ∀ a ∈ l.acts, Offers a

theorem play_configured (hl : KeepsConfig dir l) (hc : Configured dir config disk)
    (h : play dir disk l = some app) :
    Configured dir ((changes l).foldl applyChange config) app.disk := by
  obtain ⟨app₁, app₂, hstart, hacts, hend⟩ := play_cases h
  obtain ⟨rfl, hc₁, -⟩ := start_configured hc hstart
  obtain ⟨hc₂, hconfig₂⟩ := acts_configured hl.1 hc₁ hl.2 hacts
  rw [changes, ← hconfig₂]
  obtain ⟨-, hquit⟩ | ⟨-, rfl⟩ := hend
  · exact quit_configured hl.1 hc₂ hquit
  · exact hc₂

theorem run_configured (hls : ∀ l ∈ ls, KeepsConfig dir l) (hc : Configured dir config disk₀)
    (h : run dir disk₀ ls = some disk) :
    Configured dir ((ls.flatMap changes).foldl applyChange config) disk := by
  induction ls generalizing disk₀ config with
  | nil =>
    cases h
    exact hc
  | cons l ls ih =>
    obtain ⟨hl, hls⟩ := List.forall_mem_cons.mp hls
    rw [run, List.foldlM_cons, Option.bind_eq_bind, Option.bind_eq_some_iff] at h
    obtain ⟨disk₁, hone, hrest⟩ := h
    obtain ⟨app, hplay, rfl⟩ := Option.map_eq_some_iff.mp hone
    rw [List.flatMap_cons, List.foldl_append]
    exact ih hls (play_configured hl hc hplay) hrest

/-- Over any launches, closed or not, a start finds the first configuration with all changes of all
launches, and the renderer is the one selected last. -/
theorem start_has_changes (dir : Text) (disk₀ : Disk) (config₀ : Json) (ls : List Launch)
    (m : Machine) {disk : Disk} {app : App} (h₀ : Configured dir config₀ disk₀)
    (hls : ∀ l ∈ ls, KeepsConfig dir l) (hrun : run dir disk₀ ls = some disk)
    (hstart : start m dir disk = some app) :
    app.config = (ls.flatMap changes).foldl applyChange config₀ ∧
      ∃ k, NamesRenderer app.config k ∧
        app.gskRenderer = if k = 0 then none else renderers.getD k none := by
  obtain ⟨hconfig, hc, henv⟩ := start_configured (run_configured hls h₀ hrun) hstart
  obtain ⟨k, hnames⟩ := hc.2
  rw [environment_of_names hnames, Option.some.injEq] at henv
  exact ⟨hconfig, k, hconfig ▸ hnames, henv.symm⟩

/-- A renderer and a theme are selected, and the window is not closed. -/
def settingsLaunch : Launch where
  world := silentWorld
  acts := [.switchRenderer 3, .switchTheme "Modern".toList, .switchRenderer 2]
  closed := false

theorem start_has_changes_gl :
    ∃ disk app, run "/d".toList noFiles [settingsLaunch] = some disk ∧
      start settingsLaunch.toMachine "/d".toList disk = some app ∧
      app.config = .obj [("renderer".toList, .int 2), ("theme".toList, .str "Modern".toList)] := by
  have hsome : ((run "/d".toList noFiles [settingsLaunch]).bind
      (start settingsLaunch.toMachine "/d".toList)).isSome = true := by
    decide +kernel
  obtain ⟨app, happ⟩ := Option.isSome_iff_exists.mp hsome
  obtain ⟨disk, hrun, hstart⟩ := Option.bind_eq_some_iff.mp happ
  have h₀ : Configured "/d".toList (.obj []) noFiles :=
    ⟨filenameToJson_of_missing rfl rfl, 0, by decide, .inr ⟨rfl, rfl⟩⟩
  have hls : ∀ l ∈ [settingsLaunch], KeepsConfig "/d".toList l := by
    intro l hl
    obtain rfl := List.mem_singleton.mp hl
    refine ⟨rfl, ?_⟩
    simp [settingsLaunch, Offers]
  obtain ⟨hconfig, -⟩ := start_has_changes "/d".toList noFiles (.obj []) [settingsLaunch]
    settingsLaunch.toMachine h₀ hls hrun hstart
  exact ⟨disk, app, hrun, hstart, hconfig⟩

end Runs

end App

end AmpRack

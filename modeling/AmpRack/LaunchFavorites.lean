import AmpRack.Launches

/-!
# The favourites over many launches

The favourites on disk are the names of the hearts that were on when the window was last closed. No
other launch touches them.
-/

namespace AmpRack

open JsonText LastEvent

namespace App

section Favorites

variable {browser : Browser} {name : Text}

theorem get?_foldl_addFavorite (hearts : List Heart) {favs : Json}
    (h : favs = .null ∨ ∃ ms, favs = .obj ms) :
    ((hearts.foldl addFavorite favs).get? name).isSome = true ↔
      (favs.get? name).isSome = true ∨ ∃ fav ∈ hearts, fav.active = true ∧ fav.name = name := by
  induction hearts generalizing favs with
  | nil => simp
  | cons fav hearts ih =>
    rw [List.foldl_cons, List.exists_mem_cons_iff, addFavorite]
    split_ifs with hactive
    · rw [ih (.inr (assign_isObject h _ _)), get?_assign h, ← or_assoc]
      by_cases hname : name = fav.name
      · simp [hname, hactive]
      · simp [hname, Ne.symm hname]
    · rw [ih h]
      simp [hactive]

theorem isSome_favorites (browser : Browser) (name : Text) :
    ((favorites browser).get? name).isSome = true ↔
      ∃ fav ∈ browser.hearts, fav.active = true ∧ fav.name = name := by
  refine (get?_foldl_addFavorite browser.hearts (.inl rfl)).trans ?_
  simp [Json.get?]

theorem wellFormed_favorites (browser : Browser) : (favorites browser).WellFormed := by
  have hfold (hearts : List Heart) {favs : Json} (h : favs.WellFormed) :
      (hearts.foldl addFavorite favs).WellFormed := by
    induction hearts generalizing favs with
    | nil => exact h
    | cons fav hearts ih =>
      rw [List.foldl_cons, addFavorite]
      split_ifs
      · have htrue : (Json.bool true).WellFormed := trivial
        exact ih (wellFormed_assign h htrue _)
      · exact ih h
  exact hfold browser.hearts trivial

end Favorites

section Start

variable {m : Machine} {dir : Text} {disk : Disk} {app : App} {l : Launch}

/-- New hearts are off. -/
theorem inactive_addEntries {blacklist : Json} {ms : Members} {b b' : Browser}
    (hb : ∀ fav ∈ b.hearts, fav.active = false) (h : Browser.addEntries blacklist b ms = .ok b') :
    ∀ fav ∈ b'.hearts, fav.active = false := by
  induction ms generalizing b with
  | nil =>
    cases h
    exact hb
  | cons m ms ih =>
    obtain ⟨key, plugin⟩ := m
    rw [Browser.addEntries] at h
    split at h
    · cases h
    · split_ifs at h
      · exact ih hb h
      · split at h
        · cases h
        · refine ih (fun fav hfav => ?_) h
          cases List.mem_append.mp hfav with
          | inl hfav => exact hb fav hfav
          | inr hfav => rw [List.mem_singleton.mp hfav]

/-- What a start writes. -/
theorem start_writes (h : start m dir disk = some app) :
    Writes (configFile dir :: catalogueFiles dir) disk app.disk := by
  obtain ⟨app₁, app₂, hconstruct, hsettings, honshow⟩ := start_cases h
  obtain ⟨j, -, -, hdiscover, -⟩ := construct_cases hconstruct
  obtain ⟨loaded, window, favs, -, -, rfl⟩ := onshow_cases honshow
  have hwrites := (writes_discover hdiscover).trans (settingsOnly_settings hsettings).writes
  exact hwrites.mono fun p hp => by simpa [or_comm] using hp

theorem favFile_notMem (dir : Text) : favFile dir ∉ configFile dir :: catalogueFiles dir := by
  simp [favFile, configFile, catalogueFiles, pluginsFile]

theorem installed_favFile_notMem (dir : Text) :
    installedPath (favFile dir) ∉ configFile dir :: catalogueFiles dir := by
  have hne (b : Text) (hb : b.length < 28) : installedPath (favFile dir) ≠ dir ++ b :=
    installedPath_ne hb dir
  simp [configFile, catalogueFiles, pluginsFile, hne]

/-- At a start a heart is on exactly when the favourites on disk have its name. -/
theorem start_hearts (h : start m dir disk = some app) :
    ∃ favs, filenameToJson disk (favFile dir) = .ok favs ∧
      ∀ fav ∈ app.browser.hearts, fav.active = (favs.get? fav.name).isSome := by
  obtain ⟨app₁, app₂, hconstruct, hsettings, honshow⟩ := start_cases h
  have hwrites := start_writes h
  obtain ⟨j, -, -, -, -, -, -, hbrowser, -⟩ := construct_cases hconstruct
  obtain ⟨loaded, window, favs, -, hfavs, rfl⟩ := onshow_cases honshow
  refine ⟨favs, ?_, ?_⟩
  · rw [← hwrites.filenameToJson (favFile_notMem dir) (installed_favFile_notMem dir)]
    exact hfavs
  · intro fav hfav
    obtain ⟨fav₁, hfav₁, rfl⟩ := List.mem_map.mp hfav
    rw [(settingsOnly_settings hsettings).browser] at hfav₁
    have hoff := inactive_addEntries (fun _ hmem => absurd hmem List.not_mem_nil) hbrowser fav₁ hfav₁
    split_ifs with hname
    · exact hname.symm
    · rw [hoff, eq_comm, Bool.eq_false_iff]
      exact hname

end Start

section Runs

variable {m : Machine} {dir : Text} {disk disk₀ : Disk} {app : App} {l : Launch} {ls : List Launch}
  {name : Text}

/-- The files written up to the end of a launch, if the window is not closed. -/
theorem acts_writes {app₁ : App} (hstart : start m dir disk = some app₁) {as : List AppAct}
    (hacts : as.foldlM (act m dir) app₁ = some app) :
    Writes (configFile dir :: catalogueFiles dir) disk app.disk :=
  ((start_writes hstart).trans (acts_keep hacts).writes).mono fun p hp => by
    simpa [or_comm, or_left_comm] using hp

/-- The launch writes the favourites. -/
def SavesFavorites (dir : Text) (l : Launch) : Prop :=
  l.closed = true ∧ l.writable (favFile dir) = true

theorem play_of_saves (h : play dir disk l = some app) (hsaves : SavesFavorites dir l) :
    filenameToJson app.disk (favFile dir) = .ok (favorites app.browser) := by
  obtain ⟨app₁, app₂, -, -, ⟨-, hquit⟩ | ⟨hclosed, -⟩⟩ := play_cases h
  · obtain ⟨saved, disk₁, -, hdisk, -, hbrowser, -⟩ := quit_cases hquit
    have hne : favFile dir ≠ configFile dir := file_ne (by decide) dir
    refine filenameToJson_of_text ?_ (parse_fileText (wellFormed_favorites _))
    rw [hdisk, jsonToFilename_of_ne hne, jsonToFilename_self hsaves.2, hbrowser]
  · rw [hsaves.1] at hclosed
    cases hclosed

theorem play_of_not_saves (h : play dir disk l = some app) (hsaves : ¬ SavesFavorites dir l) :
    filenameToJson app.disk (favFile dir) = filenameToJson disk (favFile dir) := by
  obtain ⟨app₁, app₂, hstart, hacts, ⟨hclosed, hquit⟩ | ⟨-, rfl⟩⟩ := play_cases h
  · obtain ⟨saved, disk₁, hsaved, hdisk, -⟩ := quit_cases hquit
    have hunwritable : l.writable (favFile dir) ≠ true := fun hw => hsaves ⟨hclosed, hw⟩
    have hlast := (writes_of_unwritable hunwritable disk₁ (favorites app₂.browser)).trans
      (writes_jsonToFilename l.writable _ app₂.config (configFile dir))
    rw [← hdisk] at hlast
    have hwrites := (acts_writes hstart hacts).trans ((writes_savePresetFile hsaved).trans hlast)
    apply hwrites.filenameToJson
    · have hfav := favFile_notMem dir
      simp_all [favFile, defaultFile, configFile]
    · have hfav := installed_favFile_notMem dir
      have hdefault : installedPath (favFile dir) ≠ defaultFile dir :=
        installedPath_ne (by decide) dir
      simp_all
  · exact (acts_writes hstart hacts).filenameToJson (favFile_notMem dir)
      (installed_favFile_notMem dir)

/-- The name is not among the favourites on disk. -/
def NotFavorite (dir name : Text) (disk : Disk) : Prop :=
  ∃ favs, filenameToJson disk (favFile dir) = .ok favs ∧ favs.get? name = none

/-- No heart of this name is on at the end of the launch. -/
def EndsOff (dir : Text) (disk₀ : Disk) (name : Text) (before : List Launch) (l : Launch) : Prop :=
  ∀ disk app, run dir disk₀ before = some disk → play dir disk l = some app →
    ∀ fav ∈ app.browser.hearts, fav.name = name → fav.active = false

theorem notFavorite_iff (h₀ : Missing disk₀ (favFile dir)) (hrun : run dir disk₀ ls = some disk) :
    NotFavorite dir name disk ↔ LastOf (SavesFavorites dir) (EndsOff dir disk₀ name) ls := by
  induction ls using List.reverseRecOn generalizing disk with
  | nil =>
    cases hrun
    refine iff_of_true ⟨.obj [], filenameToJson_of_missing h₀.1 h₀.2, rfl⟩ (lastOf_nil _ _)
  | append_singleton ls l ih =>
    obtain ⟨disk₁, app, hrun₁, hplay, rfl⟩ := run_concat.mp hrun
    by_cases hsaves : SavesFavorites dir l
    · have hfavs := isSome_favorites app.browser name
      rw [lastOf_concat hsaves, NotFavorite, play_of_saves hplay hsaves]
      constructor
      · rintro ⟨favs, hok, hnone⟩ disk' app' hrun' hplay' fav hfav hname
        cases hok
        cases hrun₁.symm.trans hrun'
        cases hplay.symm.trans hplay'
        rw [hnone] at hfavs
        exact Bool.eq_false_iff.mpr fun hactive =>
          absurd (hfavs.mpr ⟨fav, hfav, hactive, hname⟩) (by simp)
      · intro hoff
        refine ⟨_, rfl, Option.not_isSome_iff_eq_none.mp fun hsome => ?_⟩
        obtain ⟨fav, hfav, hactive, hname⟩ := hfavs.mp hsome
        rw [hoff disk₁ app hrun₁ hplay fav hfav hname] at hactive
        cases hactive
    · rw [lastOf_concat_of_not hsaves, ← ih hrun₁, NotFavorite, play_of_not_saves hplay hsaves]
      rfl

/-- Over any launches, a heart is off at a start exactly when no heart of its name was on when the
window was last closed with the favourites writable. -/
theorem heart_off_iff (dir : Text) (disk₀ : Disk) (ls : List Launch) (m : Machine) {disk : Disk}
    {app : App} (h₀ : Missing disk₀ (favFile dir)) (hrun : run dir disk₀ ls = some disk)
    (hstart : start m dir disk = some app) {fav : Heart} (hfav : fav ∈ app.browser.hearts) :
    fav.active = false ↔ LastOf (SavesFavorites dir) (EndsOff dir disk₀ fav.name) ls := by
  obtain ⟨favs, hfavs, hhearts⟩ := start_hearts hstart
  rw [← notFavorite_iff h₀ hrun, hhearts fav hfav, NotFavorite, hfavs]
  simp

/-- No plugin can be instantiated. -/
def silentWorld : World := ⟨fun _ => none, fun _ _ => ⟨.float, 0, 1, 0⟩⟩

def noFiles : Disk := fun _ => none

/-- The heart of the one plugin is switched on, then the window is closed. -/
def heartLaunch : Launch where
  lilvPlugins := [EffectBrowser.oneAuthor]
  world := silentWorld
  acts := [.browse (.toggleHeart 0)]

theorem heart_on_after :
    ∃ disk app, run "/d".toList noFiles [heartLaunch] = some disk ∧
      start heartLaunch.toMachine "/d".toList disk = some app ∧
      ∀ fav ∈ app.browser.hearts, fav.name = "Gain".toList → fav.active = true := by
  have hsome : ((run "/d".toList noFiles [heartLaunch]).bind
      (start heartLaunch.toMachine "/d".toList)).isSome = true := by
    decide +kernel
  obtain ⟨app, happ⟩ := Option.isSome_iff_exists.mp hsome
  obtain ⟨disk, hrun, hstart⟩ := Option.bind_eq_some_iff.mp happ
  have hhearts : (play "/d".toList noFiles heartLaunch).map (·.browser.hearts) =
      some [⟨"Gain".toList, 0, true⟩] := by
    decide +kernel
  obtain ⟨played, hplay, hplayed⟩ := Option.map_eq_some_iff.mp hhearts
  refine ⟨disk, app, hrun, hstart, fun fav hfav hname => ?_⟩
  rw [← Bool.not_eq_false, heart_off_iff "/d".toList noFiles [heartLaunch] heartLaunch.toMachine
    ⟨rfl, rfl⟩ hrun hstart hfav, ← List.nil_append [heartLaunch], lastOf_concat ⟨rfl, rfl⟩]
  intro hoff
  have hfalse := hoff noFiles played rfl hplay ⟨"Gain".toList, 0, true⟩
    (by rw [hplayed]; exact List.mem_singleton_self _) hname.symm
  cases hfalse

end Runs

end App

end AmpRack

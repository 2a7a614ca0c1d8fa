import AmpRack.LaunchCatalogue

/-!
# What a click on an effect adds

A row of the browser has the name of its effect on a button, and the button asks the rack for a
plugin of that name. The rack takes the first in the catalogue, which is in the order of the numbers
as texts and has the blacklisted plugins too.
-/

namespace AmpRack

open JsonText KeyGroups AmpRack.Rack VectorEdits

namespace App

/-- A click on the button of a row, which has the text that the heart has for a name. -/
def clickRow (app : App) (i : ℕ) : Option AppAct :=
  app.browser.hearts[i]?.map fun fav => .rack (.user (.edit (.addPluginByName fav.name)))

section Names

variable {m : Machine} {dir : Text} {app app' : App} {files : PluginFiles} {b b' : Browser}

theorem names_step {ev : BrowserEvent} (h : b.step files ev = .ok b') :
    b'.hearts.map (·.name) = b.hearts.map (·.name) := by
  cases ev with
  | search text =>
    cases h
    rw [Browser.doSearch]
    split_ifs
    · rfl
    · rfl
  | showOnlyFavorites active =>
    rw [Browser.step, Browser.showOnlyFavPlugins] at h
    split at h
    · cases h
    · cases h
      rfl
  | select dropdown selected =>
    rw [Browser.step, Browser.showOnlyCategories] at h
    split at h
    · cases h
    · cases h
      rfl
  | toggleHeart i =>
    cases h
    have hname : ∀ fav : Heart, ({ fav with active := !fav.active } : Heart).name = fav.name :=
      fun _ => rfl
    exact map_modify_of_eq hname b.hearts i

theorem names_act {a : AppAct} (h : act m dir app a = some app') :
    app'.browser.hearts.map (·.name) = app.browser.hearts.map (·.name) := by
  cases a with
  | rack op =>
    obtain ⟨window, -, rfl⟩ := Option.map_eq_some_iff.mp h
    rfl
  | browse ev =>
    obtain ⟨browser, hbrowser, rfl⟩ := Option.map_eq_some_iff.mp h
    exact names_step (toOption_eq_some.mp hbrowser)
  | switchRenderer selected => rw [(settingsOnly_switchRenderer h).browser]
  | switchTheme basename => rw [(settingsOnly_switchTheme h).browser]

theorem names_acts {as : List AppAct} (h : as.foldlM (act m dir) app = some app') :
    app'.browser.hearts.map (·.name) = app.browser.hearts.map (·.name) := by
  induction as generalizing app with
  | nil =>
    cases h
    rfl
  | cons a as ih =>
    rw [List.foldlM_cons, Option.bind_eq_bind, Option.bind_eq_some_iff] at h
    obtain ⟨app₁, ha, has⟩ := h
    rw [ih has, names_act ha]

end Names

section Lookup

variable {m : Machine} {dir : Text} {disk disk₀ : Disk} {app app₁ : App} {l₀ : Launch}
  {ls : List Launch} {ps : List LilvPlugin} {info : LV2Info}

/-- The entry of a plugin. It says nothing of files. -/
def entryOf (p : LilvPlugin) : CatalogueEntry := ⟨p.name, p.uri, none⟩

theorem ofJson_toJson (p : LilvPlugin) (x : ℕ) :
    CatalogueEntry.ofJson (p.toJson x) = some (entryOf p) := rfl

theorem mapM_ofJson (qs : List (LilvPlugin × ℕ)) :
    (qs.map fun q => q.1.toJson q.2).mapM CatalogueEntry.ofJson =
      some (qs.map fun q => entryOf q.1) := by
  induction qs with
  | nil => rfl
  | cons q qs ih =>
    rw [List.map_cons, List.mapM_cons, ofJson_toJson, ih]
    rfl

theorem elements_pluginsJson (info : LV2Info) :
    elements info.pluginsJson = info.plugins.map (·.2) := by
  rw [LV2Info.pluginsJson]
  split_ifs with hnil
  · rw [hnil]
    rfl
  · rfl

/-- The catalogue in memory: the plugins in the order of their numbers as texts. -/
theorem construct_catalogue (hcat : HasCatalogue dir info disk) (hinfo : Catalogued ps info)
    (hconstruct : construct m dir disk = some app) :
    ∃ qs : List (LilvPlugin × ℕ), qs.Perm (ps.zipIdx 1) ∧
      (qs.Pairwise fun q q' => Nat.toDigits 10 q.2 < Nat.toDigits 10 q'.2) ∧
      app.installation.catalogue = qs.map fun q => entryOf q.1 := by
  obtain ⟨qs, hperm, hplugins⟩ := Browser.exists_plugins hinfo
  obtain ⟨-, -, -, -, -, hcatalogue, -⟩ := construct_cases hconstruct
  refine ⟨qs, hperm, ?_, ?_⟩
  · have hsorted := hinfo.sorted
    rw [SortedKeys, hplugins, List.map_map, List.pairwise_map] at hsorted
    exact hsorted
  · rw [(hcat.construct hconstruct).1, LV2Info.files, elements_pluginsJson, hplugins,
      List.map_map] at hcatalogue
    exact Option.some.inj (hcatalogue.symm.trans (mapM_ofJson qs))

/-- What the rack finds is the first of the plugins with this name. -/
theorem exists_lookup {w : Installation} {qs : List (LilvPlugin × ℕ)}
    (hsorted : qs.Pairwise fun q q' => Nat.toDigits 10 q.2 < Nat.toDigits 10 q'.2)
    (hw : w.catalogue = qs.map fun q => entryOf q.1) {q : LilvPlugin × ℕ} (hq : q ∈ qs) :
    ∃ first ∈ qs, first.1.name = q.1.name ∧ lookup w (escape q.1.name) = some (entryOf first.1) ∧
      ∀ q' ∈ qs, q'.1.name = q.1.name → Nat.toDigits 10 first.2 ≤ Nat.toDigits 10 q'.2 := by
  have hname (q' : LilvPlugin × ℕ) : (escape q'.1.name == escape q.1.name) = true ↔
      q'.1.name = q.1.name := beq_iff_eq.trans escape_injective.eq_iff
  obtain ⟨first, hmem, hfirst, hfind, hleast⟩ := exists_find?_least
    (p := fun q' => escape q'.1.name == escape q.1.name) hsorted hq ((hname q).mpr rfl)
  have hlookup : lookup w (escape q.1.name) =
      (qs.find? fun q' => escape q'.1.name == escape q.1.name).map fun q' => entryOf q'.1 := by
    simp only [lookup, hw, strip_dump_str, List.find?_map]
    rfl
  rw [hfind, Option.map_some] at hlookup
  exact ⟨first, hmem, (hname first).mp hfirst, hlookup,
    fun q' hq' heq => hleast q' hq' ((hname q').mpr heq)⟩

/-- At any moment of any launch, a click on a row adds the plugin that comes first among all of that
name, blacklisted or not: one whose number stands lower as a text. -/
theorem click_adds_first (dir : Text) (disk₀ : Disk) (l₀ : Launch) (ls : List Launch) (m : Machine)
    (as : List AppAct) {disk : Disk} {app₁ app : App} (hnone : disk₀ (pluginsFile dir) = none)
    (hw : ∀ name, l₀.writable (dir ++ name) = true)
    (hrun : App.run dir disk₀ (l₀ :: ls) = some disk) (hstart : start m dir disk = some app₁)
    (hacts : as.foldlM (act m dir) app₁ = some app) :
    ∃ qs : List (LilvPlugin × ℕ), qs.Perm (EffectBrowser.listed l₀.lilvPlugins m.blacklist) ∧
      app₁.browser.boxes.map (·.name) = qs.map (fun q => Nat.toDigits 10 q.2) ∧
      ∀ (i : ℕ) (q : LilvPlugin × ℕ), qs[i]? = some q →
        app.clickRow i = some (.rack (.user (.edit (.addPluginByName (escape q.1.name))))) ∧
        ∃ first ∈ l₀.lilvPlugins.zipIdx 1, first.1.name = q.1.name ∧
          lookup app.installation (escape q.1.name) = some (entryOf first.1) ∧
          ∀ q' ∈ l₀.lilvPlugins.zipIdx 1, q'.1.name = q.1.name →
            Nat.toDigits 10 first.2 ≤ Nat.toDigits 10 q'.2 := by
  obtain ⟨info, hinfo, hcat⟩ := hasCatalogue_of_first hnone hw hrun
  have hinfo := catalogued_of_generate hinfo
  obtain ⟨qs, hqs, hboxes, hhearts⟩ := start_rows hcat hinfo hstart
  obtain ⟨app₂, app₃, hconstruct, hsettings, honshow⟩ := start_cases hstart
  obtain ⟨rs, hperm, hsorted, hcatalogue⟩ := construct_catalogue hcat hinfo hconstruct
  obtain ⟨loaded, window, favs, -, -, rfl⟩ := onshow_cases honshow
  have hinstalled : app.installation.catalogue = rs.map fun q => entryOf q.1 := by
    rw [(acts_keep hacts).installation, ← hcatalogue]
    exact congrArg Installation.catalogue (settingsOnly_settings hsettings).installation
  refine ⟨qs, hqs, hboxes, fun i q hq => ⟨?_, ?_⟩⟩
  · have hname : (app.browser.hearts.map (·.name))[i]? = some (escape q.1.name) := by
      rw [names_acts hacts, hhearts, List.getElem?_map, hq]
      rfl
    rw [List.getElem?_map, Option.map_eq_some_iff] at hname
    obtain ⟨fav, hfav, hname⟩ := hname
    rw [clickRow, hfav, Option.map_some, hname]
  · have hlisted := hqs.mem_iff.mp (List.mem_of_getElem? hq)
    have hmem : q ∈ rs := hperm.mem_iff.mpr (List.mem_of_mem_filter hlisted)
    obtain ⟨first, hfirst, hsame, hlookup, hleast⟩ := exists_lookup hsorted hinstalled hmem
    exact ⟨first, hperm.mem_iff.mp hfirst, hsame, hlookup, fun q' hq' =>
      hleast q' (hperm.mem_iff.mpr hq')⟩

/-- Ten plugins, of which the second and the tenth have one name. -/
def twins : List LilvPlugin :=
  (["A", "Gain", "B", "C", "D", "E", "F", "G", "H", "Gain"].zipIdx 1).map fun e =>
    { EffectBrowser.oneAuthor with
      name := e.1.toList
      uri := "urn:".toList ++ Nat.toDigits 10 e.2 }

def twinsLaunch : Launch where
  lilvPlugins := twins
  world := silentWorld

/-- A click on the row of the second adds the tenth. -/
theorem click_adds_tenth :
    ∃ disk app, run "/d".toList noFiles [twinsLaunch] = some disk ∧
      start twinsLaunch.toMachine "/d".toList disk = some app ∧
      (lookup app.installation (escape "Gain".toList)).map (·.library) = some "urn:10".toList := by
  have hsome : ((run "/d".toList noFiles [twinsLaunch]).bind
      (start twinsLaunch.toMachine "/d".toList)).isSome = true := by
    decide +kernel
  obtain ⟨app, happ⟩ := Option.isSome_iff_exists.mp hsome
  obtain ⟨disk, hrun, hstart⟩ := Option.bind_eq_some_iff.mp happ
  obtain ⟨qs, hqs, -, hclicks⟩ := click_adds_first "/d".toList noFiles twinsLaunch []
    twinsLaunch.toMachine [] rfl (fun _ => rfl) hrun hstart rfl
  have hsecond : ∃ q ∈ EffectBrowser.listed twins (.obj []), q.1.name = "Gain".toList := by
    decide
  have htenth : ∃ q ∈ twins.zipIdx 1, q.1.name = "Gain".toList ∧ q.2 = 10 := by decide
  have hfirst : ∀ q ∈ twins.zipIdx 1, q.1.name = "Gain".toList →
      Nat.toDigits 10 q.2 ≤ Nat.toDigits 10 10 → q.1.uri = "urn:10".toList := by decide
  obtain ⟨q, hq, hname⟩ := hsecond
  obtain ⟨i, hi⟩ := List.getElem?_of_mem (hqs.mem_iff.mpr hq)
  obtain ⟨-, first, hmem, hsame, hlookup, hleast⟩ := hclicks i q hi
  obtain ⟨q', hq', hname', hten⟩ := htenth
  have hle := hleast q' hq' (hname'.trans hname.symm)
  rw [hten] at hle
  rw [hname] at hsame hlookup
  refine ⟨disk, app, hrun, hstart, ?_⟩
  rw [hlookup, Option.map_some, entryOf, hfirst first hmem hsame hle]

end Lookup

end App

end AmpRack

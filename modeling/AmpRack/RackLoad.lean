import AmpRack.RackInvariant

/-!
# Loading a preset

A preset is loaded into a cleared rack. `LoadOk` says exactly when that goes through: no more
entries load than there are slots, and none moves a slider of a control without a value or has a file
that its plugin is called for. The cards are then aligned with the chain.
-/

namespace AmpRack

open VectorEdits GuardedRun TextScan JsonText Plugin

namespace PluginUI

theorem SameCard.getIndex {ui ui' : PluginUI} (h : SameCard ui ui') (realized : Bool) :
    ui'.getIndex realized = ui.getIndex realized := by
  rw [PluginUI.getIndex, PluginUI.getIndex, h.index, h.widgetName]

theorem getElem?_sliders_setSlider {ui : PluginUI} {i j : ℕ} (h : i < j) (value : ℚ) :
    (ui.setSlider i value).sliders[j]? = ui.sliders[j]? := by
  simp only [setSlider, List.getElem?_modify, if_neg h.ne]
  cases ui.sliders[j]? <;> rfl

end PluginUI

namespace Rack

theorem uiv_controlChanged {realized : Bool} {r r' : Rack} {card control : ℕ} {val : ℚ}
    (h : r.controlChanged realized card control val = .ok r') : r'.uiv = r.uiv := by
  obtain ⟨-, rfl⟩ | ⟨-, -, -, -, -, -, -, -, -, rfl⟩ := controlChanged_ok h <;> rfl

/-- Setting slider `i` leaves the sliders behind it as they are. -/
theorem rangeSetValue_card {realized : Bool} {r r' : Rack} {card i : ℕ} {f : Floating} {ui : PluginUI}
    (hui : r.uiv[card]? = some ui) (h : r.rangeSetValue realized card i f = .ok r') :
    ∃ ui', r'.uiv[card]? = some ui' ∧ ui.SameCard ui' ∧
      ∀ j, i < j → ui'.sliders[j]? = ui.sliders[j]? := by
  unfold rangeSetValue at h
  split at h
  · cases h
    exact ⟨ui, hui, .refl ui, fun _ _ => rfl⟩
  · split_ifs at h
    · cases h
      exact ⟨ui, hui, .refl ui, fun _ _ => rfl⟩
    · rename_i s _ _
      refine ⟨ui.setSlider i (s.settle f), ?_, ui.sameCard_setSlider i _,
        fun j hj => PluginUI.getElem?_sliders_setSlider hj _⟩
      rw [uiv_controlChanged h]
      simp [hui]

def SlidersOk (p : Plugin) (sliders : List Slider) (values : List Floating) (n : ℕ) : Prop :=
  ∀ j v s, values[j]? = some v → sliders[n + j]? = some s → SliderOk p s v

theorem slidersOk_nil (p : Plugin) (sliders : List Slider) (n : ℕ) : SlidersOk p sliders [] n := by
  intro j v s hv
  simp at hv

theorem slidersOk_cons {p : Plugin} {sliders : List Slider} {v : Floating} {values : List Floating} {n : ℕ} :
    SlidersOk p sliders (v :: values) n ↔
      (∀ s, sliders[n]? = some s → SliderOk p s v) ∧ SlidersOk p sliders values (n + 1) := by
  constructor
  · intro h
    refine ⟨fun s hs => h 0 v s rfl hs, fun j u s hu hs => h (j + 1) u s hu ?_⟩
    rwa [show n + (j + 1) = n + 1 + j by omega]
  · rintro ⟨h0, h⟩ j u s hu hs
    cases j with
    | zero =>
      cases hu
      exact h0 s hs
    | succ j =>
      rw [show n + (j + 1) = n + 1 + j by omega] at hs
      exact h j u s hu hs

/-- The loop over the values goes through exactly when every slider it reaches can be set. -/
theorem foldlM_rangeSetValue_ok_iff {realized : Bool} {card k : ℕ} (values : List Floating) (n : ℕ)
    {r : Rack} {ui : PluginUI} {p : Plugin} (hui : r.uiv[card]? = some ui)
    (hindex : ui.getIndex realized = k) (hp : r.chain[k]? = some p) :
    (∃ r', (values.zipIdx n).foldlM (fun r v => rangeSetValue realized r card v.2 v.1) r = .ok r') ↔
      SlidersOk p ui.sliders values n := by
  induction values generalizing n r ui p with
  | nil => exact ⟨fun _ => slidersOk_nil p _ n, fun _ => ⟨r, rfl⟩⟩
  | cons v values ih =>
    rw [List.zipIdx_cons, List.foldlM_cons, slidersOk_cons]
    have hone : (∃ r₁, r.rangeSetValue realized card n v = .ok r₁) ↔
        ∀ s, ui.sliders[n]? = some s → SliderOk p s v := by
      cases hs : ui.sliders[n]? with
      | none => exact ⟨fun _ s h => (by cases h), fun _ => ⟨r, rangeSetValue_none hui hs⟩⟩
      | some s =>
        rw [rangeSetValue_ok_iff hui hs hindex hp]
        exact ⟨fun h s' hs' => (by cases hs'; exact h), fun h => h s rfl⟩
    rw [← hone]
    cases hr : r.rangeSetValue realized card n v with
    | error f =>
      refine ⟨fun ⟨r', hr'⟩ => (by cases hr'), fun h => ?_⟩
      obtain ⟨⟨r₁, hr₁⟩, -⟩ := h
      cases hr₁
    | ok r₁ =>
      have ht := rangeSetValue_touched hr
      obtain ⟨ui₁, hui₁, hsame, hlater⟩ := rangeSetValue_card hui hr
      obtain ⟨p₁, hp₁, hkin⟩ := ht.kin hp
      have hrest := ih (n + 1) hui₁ ((hsame.getIndex realized).trans hindex) hp₁
      have hiff : SlidersOk p₁ ui₁.sliders values (n + 1) ↔ SlidersOk p ui.sliders values (n + 1) := by
        refine forall_congr' fun j => forall_congr' fun u => forall_congr' fun s => ?_
        rw [hlater _ (by omega), SliderOk.of_kin hkin]
      rw [← hiff, ← hrest]
      exact ⟨fun h => ⟨⟨r₁, rfl⟩, h⟩, fun h => h.2⟩

theorem foldlM_rangeSetValue_touched {realized : Bool} {card : ℕ} (values : List (Floating × ℕ))
    {r r' : Rack} (h : values.foldlM (fun r v => rangeSetValue realized r card v.2 v.1) r = .ok r') :
    Touched r r' :=
  inv_of_run (fun _ _ _ ht hr => ht.trans (rangeSetValue_touched hr)) (.refl r) h

end Rack

/-- The values the loader reads from the control text of an entry. -/
def PresetEntry.values (entry : PresetEntry) : List Floating :=
  (getlines ';' (strip (dump (.str entry.controls)))).map readFloat

namespace Rack

def ControlsOk (p : Plugin) (entry : PresetEntry) : Prop := SlidersOk p p.sliders entry.values 0

/-- `nextId` is the next object to be made, `room` the number of free slots. -/
def LoadOk (w : Installation) : ℕ → ℕ → List PresetEntry → Prop
  | _, _, [] => True
  | nextId, room, entry :: entries =>
    match lookup w (strip (dump (.str entry.name))) with
    | none => LoadOk w nextId room entries
    | some found =>
      if (w.lilv found.library).isSome then
        0 < room ∧ ControlsOk (Plugin.new w.toWorld nextId found.library) entry ∧
          FileSkipped w entry.file ∧ LoadOk w (nextId + 1) (room - 1) entries
      else LoadOk w (nextId + 1) room entries

/-- The URI that an entry of this name loads, if it loads one. -/
def loadedUri (w : Installation) (name : Text) : Option Text :=
  (lookup w (strip (dump (.str name)))).bind fun found =>
    if (w.lilv found.library).isSome then some found.library else none

def loadedUris (w : Installation) (entries : List PresetEntry) : List Text :=
  entries.filterMap fun entry => loadedUri w entry.name

/-- The state of the loop: `s.2` plugins are loaded, all of them switched on. -/
structure Loading (s : Rack × ℕ) : Prop extends Aligned s.1 where
  active : ∀ p ∈ s.1.chain, p.active = true
  length : s.1.chain.length = s.2

namespace Loading

variable {s : Rack × ℕ}

theorem length_switchedOn (h : Loading s) : (switchedOn s.1.chain).length = s.2 := by
  rw [switchedOn, List.filter_eq_self.mpr h.active, h.length]

theorem le (h : Loading s) : s.2 ≤ MAX_PLUGINS := by
  rw [← h.length_switchedOn]
  exact h.settled.fits

theorem of_touched {r' : Rack} (h : Loading s) (ht : Touched s.1 r') : Loading (r', s.2) where
  toAligned := h.toAligned.of_touched ht
  active := by
    intro p' hp'
    obtain ⟨k, hk⟩ := List.mem_iff_getElem?.mp hp'
    have hlt : k < s.1.chain.length := by
      rw [chain, ht.engine.chain.length_eq]
      exact (List.getElem?_eq_some_iff.mp hk).1
    obtain ⟨q, hq, hkin⟩ := ht.kin (List.getElem?_eq_getElem hlt)
    have hqp : some q = some p' := hq.symm.trans hk
    cases hqp
    exact hkin.active.trans (h.active _ (List.getElem_mem hlt))
  length := by
    change r'.engine.activePlugins.length = s.2
    rw [← ht.engine.chain.length_eq]
    exact h.length

theorem of_added {w : Installation} {requested : Text} {found : CatalogueEntry} {p : Plugin} {r' : Rack}
    (h : Loading s) (hroom : s.2 < MAX_PLUGINS) (ha : Added w s.1 requested found p r') :
    Loading (r', s.2 + 1) where
  toAligned := ha.aligned h.toAligned (.inl (by rw [h.length]; simp only [MAX_PLUGINS] at hroom; omega))
  active := by
    intro q hq
    rw [ha.chain] at hq
    rcases List.mem_append.mp hq with hq | hq
    · exact h.active q hq
    · rw [List.mem_singleton.mp hq, ha.kin.active, Plugin.new_active]
  length := by
    change r'.chain.length = s.2 + 1
    rw [ha.chain, List.length_append, List.length_singleton, h.length]

end Loading

section Entry

variable {w : Installation} {realized : Bool} {s s' : Rack × ℕ} {entry : PresetEntry}
  {found : CatalogueEntry}

/-- An entry that goes through has loaded nothing, or a plugin with its controls and its file. -/
theorem loadEntry_ok (h : loadEntry w realized s entry = .ok s') :
    ∃ r₁ card?, s.1.addPluginByName w (strip (dump (.str entry.name))) = .ok (r₁, card?) ∧
      (card? = none ∧ s' = (r₁, s.2) ∨
        ∃ card r₂ r₃, card? = some card ∧
          r₁.loadControls realized card (strip (dump (.str entry.controls))) = .ok r₂ ∧
          r₂.loadFile w s.2 entry.file = .ok r₃ ∧ s' = (r₃, s.2 + 1)) := by
  rw [loadEntry] at h
  obtain ⟨⟨r₁, card?⟩, hadd, h⟩ := exists_of_bind_ok h
  refine ⟨r₁, card?, hadd, ?_⟩
  cases card? with
  | none =>
    cases h
    exact .inl ⟨rfl, rfl⟩
  | some card =>
    obtain ⟨r₂, hr₂, h⟩ := exists_of_bind_ok h
    obtain ⟨r₃, hr₃, h⟩ := exists_of_bind_ok h
    cases h
    exact .inr ⟨card, r₂, r₃, rfl, hr₂, hr₃, rfl⟩

theorem loadEntry_unknown (h : lookup w (strip (dump (.str entry.name))) = none) :
    loadEntry w realized s entry = .ok s := by
  simp only [loadEntry, addPluginByName_unknown h]
  rfl

theorem loadEntry_failed (hl : Loading s) (h : lookup w (strip (dump (.str entry.name))) = some found)
    (hlilv : w.lilv found.library = none) :
    loadEntry w realized s entry =
      .ok ({ s.1 with engine := { s.1.engine with nextId := s.1.engine.nextId + 1 } }, s.2) := by
  simp only [loadEntry, addPluginByName_failed hl.settled h hlilv]
  rfl

theorem Loading.of_failed (hl : Loading s) :
    Loading ({ s.1 with engine := { s.1.engine with nextId := s.1.engine.nextId + 1 } }, s.2) :=
  ⟨hl.toAligned.of_failed, hl.active, hl.length⟩

/-- The control text can be loaded into the card that has been added exactly when its values can be
set. -/
theorem loadControls_added_iff (realized : Bool) (hl : Loading s) (hroom : s.2 < MAX_PLUGINS)
    {requested : Text} {p : Plugin} {r₁ : Rack} (ha : Added w s.1 requested found p r₁)
    (controls : Text) :
    (∃ r₂, r₁.loadControls realized s.1.uiv.length controls = .ok r₂) ↔
      SlidersOk (Plugin.new w.toWorld s.1.engine.nextId found.library)
        (Plugin.new w.toWorld s.1.engine.nextId found.library).sliders
        ((getlines ';' controls).map readFloat) 0 := by
  have hui : r₁.uiv[s.1.uiv.length]? =
      some (.new p s.1.chain.length found.fileType (w.models requested)) := by
    rw [ha.uiv]
    simp
  have hindex : (PluginUI.new p s.1.chain.length found.fileType (w.models requested)).getIndex
      realized = (s.1.chain.length : ℕ) := by
    have hname := signedChar_add_48 (i := s.1.chain.length) (by omega)
      (by rw [hl.length]; simp only [MAX_PLUGINS] at hroom; omega)
    cases realized
    · rfl
    · simp only [PluginUI.getIndex, PluginUI.new, hname]
      simp
  have hp : r₁.chain[s.1.chain.length]? = some p := by
    rw [ha.chain]
    simp
  have hsliders : p.sliders = (Plugin.new w.toWorld s.1.engine.nextId found.library).sliders := by
    rw [Plugin.sliders, Plugin.sliders, ha.controls]
  rw [← hsliders]
  refine (foldlM_rangeSetValue_ok_iff _ 0 hui hindex hp).trans ?_
  exact forall_congr' fun j => forall_congr' fun u => forall_congr' fun t => by
    rw [SliderOk.of_kin ha.kin]
    rfl

/-- With a slot free, the card of an entry that lilv can load is the last one. -/
theorem loadEntry_added (realized : Bool) (hl : Loading s)
    (h : lookup w (strip (dump (.str entry.name))) = some found)
    (hlilv : (w.lilv found.library).isSome) (hroom : s.2 < MAX_PLUGINS) :
    ∃ r₁ p, Added w s.1 (strip (dump (.str entry.name))) found p r₁ ∧
      loadEntry w realized s entry =
        (r₁.loadControls realized s.1.uiv.length (strip (dump (.str entry.controls))) >>= fun r₂ =>
          (r₂.loadFile w s.2 entry.file).map fun r => (r, s.2 + 1)) ∧
      ((∃ r₂, r₁.loadControls realized s.1.uiv.length (strip (dump (.str entry.controls))) =
          .ok r₂) ↔
        ControlsOk (Plugin.new w.toWorld s.1.engine.nextId found.library) entry) := by
  obtain ⟨r₁, p, hadd, ha⟩ :=
    addPluginByName_added (r := s.1) h hlilv (by rw [hl.length_switchedOn]; exact hroom)
  refine ⟨r₁, p, ha, ?_, loadControls_added_iff realized hl hroom ha _⟩
  simp only [loadEntry, hadd]
  rfl

/-- An entry with values that can be set and a file that is passed over adds its plugin. -/
theorem loadEntry_of_controlsOk (realized : Bool) (hl : Loading s)
    (h : lookup w (strip (dump (.str entry.name))) = some found)
    (hlilv : (w.lilv found.library).isSome) (hroom : s.2 < MAX_PLUGINS)
    (hc : ControlsOk (Plugin.new w.toWorld s.1.engine.nextId found.library) entry)
    (hfile : FileSkipped w entry.file) :
    ∃ r₁ p r', Added w s.1 (strip (dump (.str entry.name))) found p r₁ ∧
      r₁.loadControls realized s.1.uiv.length (strip (dump (.str entry.controls))) = .ok r' ∧
      loadEntry w realized s entry = .ok (r', s.2 + 1) := by
  obtain ⟨r₁, p, ha, heq, hiff⟩ := loadEntry_added realized hl h hlilv hroom
  obtain ⟨r', hr'⟩ := hiff.mpr hc
  refine ⟨r₁, p, r', ha, hr', ?_⟩
  rw [heq, hr']
  change (r'.loadFile w s.2 entry.file).map _ = _
  rw [loadFile_of_skipped hfile]
  rfl

/-- What such an entry leaves: one plugin more, all of them switched on. -/
structure EntryLoaded (w : Installation) (s : Rack × ℕ) (found : CatalogueEntry) (r' : Rack) :
    Prop where
  loading : Loading (r', s.2 + 1)
  nextId : r'.engine.nextId = s.1.engine.nextId + 1
  uris : r'.chain.map (·.uri) = s.1.chain.map (·.uri) ++ [some found.library]

theorem entryLoaded {requested controls : Text} {p : Plugin} {r₁ r' : Rack} (hl : Loading s)
    (hlilv : (w.lilv found.library).isSome) (hroom : s.2 < MAX_PLUGINS)
    (ha : Added w s.1 requested found p r₁)
    (hr' : r₁.loadControls realized s.1.uiv.length controls = .ok r') :
    EntryLoaded w s found r' := by
  have ht : Touched r₁ r' := foldlM_rangeSetValue_touched _ hr'
  obtain ⟨ports, hports⟩ := Option.isSome_iff_exists.mp hlilv
  refine ⟨(hl.of_added hroom ha).of_touched ht, by rw [ht.engine.nextId, ha.nextId], ?_⟩
  rw [ht.uris, ha.chain, List.map_append, List.map_singleton, ha.kin.uri,
    (Plugin.new_of_some hports _).uri]

/-- An entry that loads a plugin finds a slot free, sliders that it may set and no file to set. -/
theorem loadEntry_loaded (hl : Loading s)
    (h : lookup w (strip (dump (.str entry.name))) = some found)
    (hlilv : (w.lilv found.library).isSome) (hs : loadEntry w realized s entry = .ok s') :
    s.2 < MAX_PLUGINS ∧ ControlsOk (Plugin.new w.toWorld s.1.engine.nextId found.library) entry ∧
      FileSkipped w entry.file := by
  have hroom : s.2 < MAX_PLUGINS := by
    obtain ⟨r₁, card?, hadd, -⟩ := loadEntry_ok hs
    rw [← hl.length_switchedOn]
    exact addPluginByName_room h hlilv hadd
  refine ⟨hroom, ?_⟩
  obtain ⟨r₁, p, ha, heq, hiff⟩ := loadEntry_added realized hl h hlilv hroom
  rw [heq] at hs
  obtain ⟨r₂, hr₂, hs⟩ := exists_of_bind_ok hs
  refine ⟨hiff.mp ⟨r₂, hr₂⟩, ?_⟩
  have ht : Touched r₁ r₂ := foldlM_rangeSetValue_touched _ hr₂
  obtain ⟨q, hq, hkin⟩ := ht.kin (k := s.2) (p := p) (by rw [ha.chain, ← hl.length]; simp)
  obtain ⟨r₃, hr₃, -⟩ := Engine.map_eq_ok hs
  exact skipped_of_loadFile (by rw [at?_natCast]; exact hq) (hkin.handle.trans ha.handle) hr₃

end Entry

section Entries

variable {w : Installation} {realized : Bool}

theorem loadedUris_cons_none {entry : PresetEntry} (h : loadedUri w entry.name = none)
    (entries : List PresetEntry) : loadedUris w (entry :: entries) = loadedUris w entries :=
  List.filterMap_cons_none h

theorem loadedUris_cons_some {entry : PresetEntry} {uri : Text}
    (h : loadedUri w entry.name = some uri) (entries : List PresetEntry) :
    loadedUris w (entry :: entries) = uri :: loadedUris w entries :=
  List.filterMap_cons_some h

theorem loadEntries_of_loadOk (realized : Bool) {s : Rack × ℕ} (hl : Loading s)
    {entries : List PresetEntry}
    (h : LoadOk w s.1.engine.nextId (MAX_PLUGINS - s.2) entries) :
    ∃ s', entries.foldlM (loadEntry w realized) s = .ok s' ∧ Loading s' ∧
      s'.1.chain.map (·.uri) = s.1.chain.map (·.uri) ++ (loadedUris w entries).map some := by
  induction entries generalizing s with
  | nil => exact ⟨s, rfl, hl, (List.append_nil _).symm⟩
  | cons entry entries ih =>
    rw [List.foldlM_cons]
    cases hfound : lookup w (strip (dump (.str entry.name))) with
    | none =>
      rw [loadEntry_unknown hfound, loadedUris_cons_none (by simp [loadedUri, hfound])]
      simp only [LoadOk, hfound] at h
      exact ih hl h
    | some found =>
      cases hlilv : w.lilv found.library with
      | none =>
        simp only [LoadOk, hfound, hlilv, Option.isSome_none, Bool.false_eq_true, if_false] at h
        rw [loadEntry_failed hl hfound hlilv,
          loadedUris_cons_none (by simp [loadedUri, hfound, hlilv])]
        exact ih hl.of_failed h
      | some ports =>
        simp only [LoadOk, hfound, hlilv, Option.isSome_some, if_true] at h
        obtain ⟨hroom, hc, hfile, hrest⟩ := h
        have hsome : (w.lilv found.library).isSome := by rw [hlilv]; rfl
        obtain ⟨r₁, p, r', ha, hcontrols, hr'⟩ :=
          loadEntry_of_controlsOk realized hl hfound hsome (by omega) hc hfile
        have hloaded := entryLoaded hl hsome (by omega) ha hcontrols
        rw [← hloaded.nextId, Nat.sub_sub] at hrest
        obtain ⟨s', hs', hl'', huris'⟩ := ih hloaded.loading hrest
        rw [hr', loadedUris_cons_some (show loadedUri w entry.name = some found.library by
          simp [loadedUri, hfound, hlilv])]
        refine ⟨s', hs', hl'', ?_⟩
        rw [huris', hloaded.uris, List.append_assoc]
        rfl

theorem loadOk_of_loadEntries {s s' : Rack × ℕ} (hl : Loading s) {entries : List PresetEntry}
    (h : entries.foldlM (loadEntry w realized) s = .ok s') :
    LoadOk w s.1.engine.nextId (MAX_PLUGINS - s.2) entries := by
  induction entries generalizing s with
  | nil => exact trivial
  | cons entry entries ih =>
    rw [List.foldlM_cons] at h
    cases hfound : lookup w (strip (dump (.str entry.name))) with
    | none =>
      rw [loadEntry_unknown hfound] at h
      simp only [LoadOk, hfound]
      exact ih hl h
    | some found =>
      cases hlilv : w.lilv found.library with
      | none =>
        rw [loadEntry_failed hl hfound hlilv] at h
        simp only [LoadOk, hfound, hlilv, Option.isSome_none, Bool.false_eq_true, if_false]
        exact ih hl.of_failed h
      | some ports =>
        simp only [LoadOk, hfound, hlilv, Option.isSome_some, if_true]
        have hsome : (w.lilv found.library).isSome := by rw [hlilv]; rfl
        obtain ⟨s₁, hs₁, h⟩ := exists_of_bind_ok h
        obtain ⟨hroom, hc, hfile⟩ := loadEntry_loaded hl hfound hsome hs₁
        obtain ⟨r₁, p, r', ha, hcontrols, hr'⟩ :=
          loadEntry_of_controlsOk realized hl hfound hsome hroom hc hfile
        have hloaded := entryLoaded hl hsome hroom ha hcontrols
        rw [hr', Except.ok.injEq] at hs₁
        rw [← hs₁] at h
        have hrest := ih hloaded.loading h
        rw [hloaded.nextId, ← Nat.sub_sub] at hrest
        exact ⟨by omega, hc, hfile, hrest⟩

end Entries

section Preset

variable {w : Installation} {realized : Bool} {r r' : Rack} {p : Preset}

theorem loadPreset_ok (h : r.loadPreset w realized p = .ok r') :
    ∃ r₀ s, r.clear = .ok r₀ ∧ p.entries.foldlM (loadEntry w realized) (r₀, 0) = .ok s ∧
      r' = s.1 := by
  rw [loadPreset] at h
  obtain ⟨r₀, hr₀, h⟩ := exists_of_bind_ok h
  obtain ⟨s, hs, h⟩ := exists_of_bind_ok h
  cases h
  exact ⟨r₀, s, hr₀, hs, rfl⟩

/-- `clear` empties the list box because every card in it is in `plugs`. -/
theorem clear_loading (hs : r.engine.Settled) (hplugs : ∀ card ∈ r.listBox, card ∈ r.plugs) :
    ∃ r', r.clear = .ok r' ∧ Loading (r', 0) ∧ r'.engine.nextId = r.engine.nextId ∧
      r'.chain = [] := by
  obtain ⟨e, he, hb⟩ := Engine.clear_ok hs
  have hbox : r.listBox.filter (· ∉ r.plugs) = [] := by
    rw [List.filter_eq_nil_iff]
    intro card hc
    simpa using hplugs card hc
  refine ⟨{ r with listBox := [], plugs := [], engine := e }, ?_, ?_, hb.nextId, hb.chain⟩
  · rw [clear, he, ← hbox]
    rfl
  · have hchain : ({ r with listBox := [], plugs := [], engine := e } : Rack).chain = [] := hb.chain
    have hinv : Inv { r with listBox := [], plugs := [], engine := e } := by
      refine ⟨hb.settled, ?_, ?_, ?_, fun card hc => (by cases hc)⟩
      · rw [hchain]
        exact List.nodup_nil
      · rw [hchain]
        intro q hq
        cases hq
      · rw [Corresponds, hchain]
        rfl
    refine ⟨⟨hinv, fun k card ui hc => (by simp at hc), fun k card ui q hc => (by simp at hc)⟩, ?_, ?_⟩
    · rw [hchain]
      intro q hq
      cases hq
    · rw [hchain]
      rfl

theorem loadPreset_of_loadOk (realized : Bool) (hs : r.engine.Settled)
    (hplugs : ∀ card ∈ r.listBox, card ∈ r.plugs)
    (hok : LoadOk w r.engine.nextId MAX_PLUGINS p.entries) :
    ∃ r', r.loadPreset w realized p = .ok r' ∧ r'.Aligned ∧
      r'.chain.map (·.uri) = (loadedUris w p.entries).map some := by
  obtain ⟨r₀, hr₀, hl, hid, hnil⟩ := clear_loading hs hplugs
  rw [← hid] at hok
  obtain ⟨s, hload, hl', huris⟩ := loadEntries_of_loadOk realized hl hok
  refine ⟨s.1, ?_, hl'.toAligned, ?_⟩
  · simp only [loadPreset, hr₀]
    change (p.entries.foldlM (loadEntry w realized) (r₀, 0) >>= _) = _
    rw [hload]
    rfl
  · rw [huris, hnil]
    rfl

theorem loadOk_of_loadPreset (hs : r.engine.Settled)
    (hplugs : ∀ card ∈ r.listBox, card ∈ r.plugs) (hr' : r.loadPreset w realized p = .ok r') :
    LoadOk w r.engine.nextId MAX_PLUGINS p.entries := by
  obtain ⟨r₀, hr₀, hl, hid, -⟩ := clear_loading hs hplugs
  obtain ⟨r₁, s, hclear, hload, -⟩ := loadPreset_ok hr'
  rw [hr₀, Except.ok.injEq] at hclear
  subst hclear
  rw [← hid]
  exact loadOk_of_loadEntries hl hload

end Preset

end Rack

end AmpRack

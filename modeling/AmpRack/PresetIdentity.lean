import AmpRack.ControlValues
import AmpRack.RackOrder

/-!
# The plugins that a saved preset loads

A saved entry carries `lv2_name`, which the URI constructor leaves empty, so the loader looks for
the first catalogue entry without a name. `Written` is what every reachable rack has of that;
`RestoreOk` says exactly when a saved preset restores the plugins of the chain.
-/

namespace AmpRack

open VectorEdits BoxOrder GuardedRun TextScan JsonText Engine

section Valued

theorem Plugin.valued_addPort (w : World) {p : Plugin} (h : Valued p.pluginControls) (i : ℕ)
    (port : LilvPort) : Valued (p.addPort w i port).pluginControls := by
  have hpush (c : PluginControl) (hc : c.isAtom = false → c.defValue.isSome) :
      Valued (p.pluginControls ++ [c]) := by
    intro d hd
    rcases List.mem_append.mp hd with hd | hd
    · exact h d hd
    · rw [List.mem_singleton.mp hd]
      exact hc
  unfold addPort pushControl
  split_ifs
  all_goals first
    | exact h
    | exact hpush _ fun _ => rfl
    | refine hpush _ fun hc => ?_
  simp only [PluginControl.isAtom, PluginControl.ofAtomPort] at hc
  split_ifs at hc <;> simp at hc

theorem Plugin.valued_addPorts (w : World) (ports : List LilvPort) {p : Plugin}
    (h : Valued p.pluginControls) (i : ℕ) : Valued (p.addPorts w i ports).pluginControls := by
  induction ports generalizing p i with
  | nil => exact h
  | cons port ports ih => exact ih (p.valued_addPort w h i port) (i + 1)

theorem Plugin.valued_new (w : World) (id : ℕ) (uri : Text) :
    Valued (Plugin.new w id uri).pluginControls := by
  unfold Plugin.new
  split
  · intro c hc
    cases hc
  · exact Plugin.valued_addPorts w _ (fun c hc => (by cases hc)) 0

theorem Plugin.Kin.valued {p q : Plugin} (h : p.Kin q) (hp : Valued p.pluginControls) :
    Valued q.pluginControls := by
  intro c hc hatom
  obtain ⟨k, hk⟩ := List.mem_iff_getElem?.mp hc
  have htype := congrArg (·[k]?) h.types
  have hvalue := congrArg (·[k]?) h.values
  simp only [List.getElem?_map, hk, Option.map_some] at htype hvalue
  obtain ⟨d, hd, hdtype⟩ := Option.map_eq_some_iff.mp htype.symm
  rw [hd, Option.map_some, Option.some.injEq] at hvalue
  rw [hvalue]
  apply hp d (List.mem_of_getElem? hd)
  rw [PluginControl.isAtom, hdtype]
  exact hatom

end Valued

namespace Rack

/-- What the URI constructor and every later edit leave true of a plugin in the chain. -/
structure Made (w : Installation) (p : Plugin) : Prop where
  uri : ∃ uri, p.uri = some uri ∧ (w.lilv uri).isSome
  handle : p.handle = none
  lv2Name : p.lv2Name = []
  loadedFileName : p.loadedFileName = []
  valued : Valued p.pluginControls

/-- What holds in every state that is reached, whatever the order of the cards. -/
structure Written (w : Installation) (r : Rack) : Prop where
  settled : r.engine.Settled
  plugs : ∀ card ∈ r.listBox, card ∈ r.plugs
  made : ∀ p ∈ r.chain, Made w p

section Written

variable {w : Installation} {r r' : Rack}

theorem written_empty : Written w {} :=
  ⟨settled_empty, fun _ hc => (by cases hc), fun _ hp => (by cases hp)⟩

theorem made_new {uri : Text} (h : (w.lilv uri).isSome) (id : ℕ) :
    Made w (Plugin.new w.toWorld id uri) := by
  obtain ⟨ports, hports⟩ := Option.isSome_iff_exists.mp h
  exact ⟨⟨uri, (Plugin.new_of_some hports id).uri, h⟩, Plugin.new_handle _ _ _,
    Plugin.new_lv2Name _ _ _, Plugin.new_loadedFileName _ _ _, Plugin.valued_new _ _ _⟩

theorem Made.of_kin {p q : Plugin} (h : Made w p) (hk : p.Kin q) : Made w q :=
  ⟨by rw [hk.uri]; exact h.uri, hk.handle.trans h.handle, hk.lv2Name.trans h.lv2Name,
    (hk.fileName h.handle).trans h.loadedFileName, hk.valued h.valued⟩

theorem Written.of_touched (h : Written w r) (ht : Touched r r') : Written w r' where
  settled := ht.engine.settled h.settled
  plugs := by
    rw [ht.listBox, ht.plugs]
    exact h.plugs
  made := by
    intro q hq
    obtain ⟨k, hk⟩ := List.mem_iff_getElem?.mp hq
    have hlt : k < r.chain.length := by
      rw [chain, ht.engine.chain.length_eq]
      exact (List.getElem?_eq_some_iff.mp hk).1
    obtain ⟨q', hq', hkin⟩ := ht.kin (List.getElem?_eq_getElem hlt)
    rw [hk] at hq'
    cases hq'
    exact (h.made _ (List.getElem_mem hlt)).of_kin hkin

theorem Written.of_added {entry : CatalogueEntry} {p : Plugin} (h : Written w r)
    (hlilv : (w.lilv entry.library).isSome) (ha : Added w r requested entry p r') : Written w r' where
  settled := ha.settled
  plugs := by
    rw [ha.listBox, ha.plugs]
    intro card hc
    exact (List.mem_append.mp hc).elim (fun hc => List.mem_append_left _ (h.plugs card hc))
      (List.mem_append_right _)
  made := by
    rw [ha.chain]
    intro q hq
    rcases List.mem_append.mp hq with hq | hq
    · exact h.made q hq
    · rw [List.mem_singleton.mp hq]
      exact (made_new hlilv _).of_kin ha.kin

/-- An edit whose plugins were all there and whose cards were all there. -/
theorem Written.of_became {ps : List Plugin} (h : Written w r) (hb : r.engine.Became ps r'.engine)
    (hps : ∀ p ∈ ps, Made w p) (hplugs : r'.plugs = r.plugs)
    (hbox : ∀ card ∈ r'.listBox, card ∈ r.listBox) : Written w r' where
  settled := hb.settled
  plugs := by
    rw [hplugs]
    exact fun card hc => h.plugs card (hbox card hc)
  made := by
    rw [chain, hb.chain]
    exact hps

theorem addPluginByName_written {requested : Text} {s : Rack × Option ℕ} (h : Written w r)
    (hs : r.addPluginByName w requested = .ok s) : Written w s.1 := by
  obtain rfl | rfl | ⟨entry, r', p, -, hsome, -, rfl, ha⟩ := addPluginByName_cases h.settled hs
  · exact h
  · exact ⟨⟨h.settled.mirrors, h.settled.running, h.settled.fits⟩, h.plugs, h.made⟩
  · exact h.of_added hsome ha

theorem loadEntry_written {realized : Bool} {s s' : Rack × ℕ} {entry : PresetEntry}
    (h : Written w s.1) (hs : loadEntry w realized s entry = .ok s') : Written w s'.1 := by
  obtain ⟨r₁, card?, hadd, hs⟩ := loadEntry_ok hs
  have hw := addPluginByName_written h hadd
  rcases hs with ⟨-, rfl⟩ | ⟨card, r₂, r₃, -, hload, hfile, rfl⟩
  · exact hw
  · have hw₂ := hw.of_touched (foldlM_rangeSetValue_touched _ hload)
    exact hw₂.of_touched (loadFile_touched hfile)

theorem foldlM_loadEntry_written {realized : Bool} {s s' : Rack × ℕ} {entries : List PresetEntry}
    (h : Written w s.1) (hs : entries.foldlM (loadEntry w realized) s = .ok s') :
    Written w s'.1 :=
  inv_of_run (fun (t : Rack × ℕ) _ _ (ht : Written w t.1) hone => loadEntry_written ht hone) h hs

theorem clear_written (h : Written w r) (hr' : r.clear = .ok r') : Written w r' := by
  obtain ⟨r₀, hr₀, hl, -, hnil⟩ := clear_loading h.settled h.plugs
  rw [hr'] at hr₀
  cases hr₀
  exact ⟨hl.settled, hl.plugs, by rw [hnil]; exact fun _ hp => (by cases hp)⟩

theorem loadPreset_written {realized : Bool} {p : Preset} (h : Written w r)
    (hr' : r.loadPreset w realized p = .ok r') : Written w r' := by
  obtain ⟨r₀, s, hclear, hload, rfl⟩ := loadPreset_ok hr'
  exact foldlM_loadEntry_written (clear_written h hclear) hload

/-- A move that is made at all moves one plugin by one place. -/
theorem moveDown_cases {card : ℕ} (h : r.moveDown card = .ok r') :
    r' = r ∨ ∃ (i : ℤ) (e : Engine) (q : ℤ), i < r.chain.length ∧
      r.engine.moveActivePluginDown i = .ok (e, q) ∧ r'.engine = e ∧ r'.plugs = r.plugs ∧
      r'.listBox = reorderChildAfter r.listBox card (nextSibling card r.listBox) := by
  unfold moveDown at h
  split at h
  · cases h; exact .inl rfl
  · rename_i ui hui
    split_ifs at h with hrange
    · cases h; exact .inl rfl
    · split at h
      · cases h
      · rename_i e q he
        refine .inr ⟨ui.index, e, q, by omega, he, ?_⟩
        cases hupper : nextSibling card r.listBox <;>
          simp only [hupper, Option.elim_none, Option.elim_some] at h <;> split at h <;> cases h
        · exact ⟨rfl, rfl, rfl⟩
        · exact ⟨rfl, rfl, rfl⟩

theorem moveUp_cases {card : ℕ} (h : r.moveUp card = .ok r') :
    r' = r ∨ ∃ (i : ℤ) (e : Engine) (q : ℤ), i ≠ 0 ∧
      r.engine.moveActivePluginUp i = .ok (e, q) ∧ r'.engine = e ∧ r'.plugs = r.plugs ∧
      r'.listBox = (prevSibling card r.listBox).elim r.listBox
        fun upper => reorderChildAfter r.listBox upper (some card) := by
  unfold moveUp at h
  split at h
  · cases h; exact .inl rfl
  · rename_i ui hui
    split_ifs at h with hzero
    · cases h; exact .inl rfl
    · split at h
      · cases h
      · rename_i e q he
        refine .inr ⟨ui.index, e, q, hzero, he, ?_⟩
        cases hupper : prevSibling card r.listBox <;>
          simp only [hupper, Option.elim_none, Option.elim_some] at h <;> split at h <;> cases h
        · exact ⟨rfl, rfl, rfl⟩
        · exact ⟨rfl, rfl, rfl⟩

theorem made_exchange (h : ∀ p ∈ r.chain, Made w p) {i : ℕ} (hi : i + 1 < r.chain.length) :
    ∀ p ∈ exchange r.chain i, Made w p :=
  fun p hp => h p ((exchange_perm r.chain hi).mem_iff.mp hp)

theorem moveDown_written {card : ℕ} (h : Written w r) (hmem : card ∈ r.listBox)
    (hr' : r.moveDown card = .ok r') : Written w r' := by
  rcases moveDown_cases hr' with rfl | ⟨i, e, q, hlt, he, rfl, hplugs, hbox⟩
  · exact h
  · rcases moveActivePluginDown_eq_ok he with hend | ⟨k, rfl, hk⟩
    · have hend' : i = r.chain.length := hend
      omega
    · obtain ⟨e, he', hb⟩ := moveActivePluginDown_of_lt h.settled hk
      rw [he] at he'
      cases he'
      apply h.of_became hb (made_exchange h.made hk) hplugs
      intro c hc
      rw [hbox] at hc
      rcases mem_reorderChildAfter hc with rfl | hc
      · exact hmem
      · exact hc

theorem moveUp_written {card : ℕ} (h : Written w r) (hr' : r.moveUp card = .ok r') :
    Written w r' := by
  rcases moveUp_cases hr' with rfl | ⟨i, e, q, hne, he, rfl, hplugs, hbox⟩
  · exact h
  · rcases moveActivePluginUp_eq_ok he with hzero | ⟨k, rfl, hk⟩
    · exact absurd hzero hne
    · obtain ⟨e, he', hb⟩ := moveActivePluginUp_of_lt h.settled hk
      rw [he] at he'
      cases he'
      apply h.of_became hb (made_exchange h.made hk) hplugs
      intro c hc
      rw [hbox] at hc
      cases hupper : prevSibling card r.listBox with
      | none =>
        rw [hupper] at hc
        exact hc
      | some upper =>
        rw [hupper, Option.elim_some] at hc
        rcases mem_reorderChildAfter hc with rfl | hc
        · exact mem_of_prevSibling hupper
        · exact hc

theorem delete_written {card : ℕ} (h : Written w r) (hr' : r.delete card = .ok r') :
    Written w r' := by
  unfold delete at hr'
  split at hr'
  · cases hr'; exact h
  · obtain ⟨e, he, rfl⟩ := map_eq_ok hr'
    obtain ⟨i, hi, hlt⟩ := erasePlugin_eq_ok he
    obtain ⟨e', he', hb⟩ := erasePlugin_of_lt h.settled hlt
    rw [hi, he'] at he
    cases he
    exact h.of_became hb (fun p hp => h.made p (List.mem_of_mem_eraseIdx hp)) rfl
      fun c hc => List.mem_of_mem_erase hc

theorem toggle_written {card : ℕ} {value : Bool} (h : Written w r)
    (hr' : r.toggle card value = .ok r') : Written w r' := by
  unfold toggle at hr'
  split at hr'
  · cases hr'; exact h
  · split_ifs at hr'
    · cases hr'; exact h
    · obtain ⟨e, he, rfl⟩ := map_eq_ok hr'
      obtain ⟨i, hi, hlt, hfit⟩ := setActive_eq_ok he
      obtain ⟨e', he', hb⟩ := setActive_of_lt h.settled hlt hfit
      rw [hi, he'] at he
      cases he
      refine h.of_became hb (fun p hp => ?_) rfl fun c hc => hc
      obtain ⟨k, hk⟩ := List.mem_iff_getElem?.mp hp
      rw [switch, List.getElem?_modify] at hk
      obtain ⟨q, hq, rfl⟩ := Option.map_eq_some_iff.mp hk
      have hmade := h.made q (List.mem_of_getElem? hq)
      split_ifs
      · exact ⟨hmade.uri, hmade.handle, hmade.lv2Name, hmade.loadedFileName, hmade.valued⟩
      · exact hmade

theorem step_written {op : Op} (h : Written w r) (hr' : step w r op = .ok r') : Written w r' := by
  cases op with
  | addPluginByName requested =>
    obtain ⟨s, hs, rfl⟩ := map_eq_ok hr'
    exact addPluginByName_written h hs
  | delete card =>
    simp only [step] at hr'
    split_ifs at hr'
    · exact delete_written h hr'
    · cases hr'; exact h
  | moveUp card =>
    simp only [step] at hr'
    split_ifs at hr'
    · exact moveUp_written h hr'
    · cases hr'; exact h
  | moveDown card =>
    simp only [step] at hr'
    split_ifs at hr' with hmem
    · exact moveDown_written h hmem hr'
    · cases hr'; exact h
  | toggle card value =>
    simp only [step] at hr'
    split_ifs at hr'
    · exact toggle_written h hr'
    · cases hr'; exact h
  | clear => exact clear_written h hr'
  | loadPreset realized p => exact loadPreset_written h hr'

theorem run_written {ops : List Op} (h : run (step w) {} ops = .ok r) : Written w r :=
  inv_of_run (fun _ _ _ h hr' => step_written h hr') written_empty h

end Written

/-- Asking for this name adds a plugin with this URI, wherever there is room. -/
def LoadsUri (w : Installation) (requested : Text) (uri : Option Text) : Prop :=
  ∀ r : Rack, r.engine.Settled → (switchedOn r.chain).length < MAX_PLUGINS →
    ∃ r' card p, r.addPluginByName w requested = .ok (r', some card) ∧
      r'.chain = r.chain ++ [p] ∧ p.uri = uri

/-- The preset `json`, which the loader reads as `preset`, keeps the plugins of `r`. -/
structure KeepsPlugins (w : Installation) (realized : Bool) (r : Rack) (json : Json)
    (preset : Preset) : Prop where
  names : ∀ (k : ℕ) (p : Plugin), r.chain[k]? = some p → ∃ entry : PresetEntry,
    (json.get? "controls".toList).bind (·.get? (Nat.toDigits 10 k)) = some entry.toJson ∧
      LoadsUri w (strip (dump (.str entry.name))) p.uri
  restores : ∃ r', r.loadPreset w realized preset = .ok r' ∧
    (r'.chain.map (·.uri)).Perm (r.chain.map (·.uri))

/-- An empty rack has no preset to save. -/
def PresetRestores (w : Installation) (realized : Bool) (r : Rack) : Prop :=
  r.chain ≠ [] → ∃ json preset, r.engine.getPreset = .ok json ∧
    Preset.ofJson json = some preset ∧ KeepsPlugins w realized r json preset

structure RestoreOk (w : Installation) (r : Rack) : Prop where
  unnamed : ∀ p ∈ r.chain, ∃ entry, w.catalogue.find? (·.name == []) = some entry ∧
    p.uri = some entry.library
  room : r.chain.length ≤ MAX_PLUGINS
  controls : ∀ (k : ℕ) (p : Plugin) (uri : Text) (entry : PresetEntry), r.chain[k]? = some p →
    p.uri = some uri → p.presetEntry = .ok entry →
      ControlsOk (Plugin.new w.toWorld (r.engine.nextId + k) uri) entry

section Identity

variable {w : Installation} {r : Rack}

theorem escape_eq_nil {s : Text} (h : escape s = []) : s = [] := by
  have := length_le_length_escape s
  rw [h] at this
  exact List.eq_nil_of_length_eq_zero (Nat.le_zero.mp this)

/-- Without a name, the loader asks for an entry without a name. -/
theorem lookup_nil (w : Installation) : lookup w [] = w.catalogue.find? (·.name == []) := by
  have hname : (fun entry : CatalogueEntry => strip (dump (.str entry.name)) == []) =
      fun entry => entry.name == [] := by
    funext entry
    rw [strip_dump_str, Bool.eq_iff_iff, beq_iff_eq, beq_iff_eq]
    exact ⟨escape_eq_nil, fun h => by rw [h]; rfl⟩
  rw [lookup, hname]

theorem loadsUri_iff (w : Installation) (requested : Text) (uri : Option Text) :
    LoadsUri w requested uri ↔ ∃ entry, lookup w requested = some entry ∧
      (w.lilv entry.library).isSome ∧ uri = some entry.library := by
  have huri {id : ℕ} {library : Text} (h : (w.lilv library).isSome) :
      (Plugin.new w.toWorld id library).uri = some library := by
    obtain ⟨ports, hports⟩ := Option.isSome_iff_exists.mp h
    exact (Plugin.new_of_some hports id).uri
  constructor
  · intro h
    obtain ⟨r', card, p, hr', hchain, hp⟩ := h {} settled_empty (by decide)
    obtain hs | hs | ⟨entry, r₁, q, hfound, hsome, -, hs, ha⟩ :=
      addPluginByName_cases settled_empty hr'
    · cases hs
    · cases hs
    · cases hs
      have hpq : p = q := by simpa using hchain.symm.trans ha.chain
      refine ⟨entry, hfound, hsome, ?_⟩
      rw [← hp, hpq, ha.kin.uri, huri hsome]
  · rintro ⟨entry, hfound, hsome, rfl⟩ r hs hroom
    obtain ⟨r', p, hr', ha⟩ := addPluginByName_added hfound hsome hroom
    exact ⟨r', _, p, hr', ha.chain, ha.kin.uri.trans (huri hsome)⟩

/-- The entry that a plugin is saved as. -/
def savedEntry (p : Plugin) : PresetEntry where
  name := p.lv2Name
  controls := (savedControls p.pluginControls 0).flatMap fun c => fixed 6 c.2 ++ [';']
  file := if p.loadedFileName = [] then none else some (p.loadedFileName, p.loadedFileType)

theorem Made.presetEntry {p : Plugin} (h : Made w p) : p.presetEntry = .ok (savedEntry p) := by
  rw [Plugin.presetEntry, controlText_eq h.valued]
  rfl

theorem mapM_presetEntry {ps : List Plugin} (h : ∀ p ∈ ps, Made w p) :
    ps.mapM Plugin.presetEntry = .ok (ps.map savedEntry) := by
  induction ps with
  | nil => rfl
  | cons p ps ih =>
    obtain ⟨hp, hps⟩ := List.forall_mem_cons.mp h
    rw [List.mapM_cons, hp.presetEntry, ih hps]
    rfl

theorem Written.getPreset (h : Written w r) (hne : r.chain ≠ []) :
    r.engine.getPreset =
      .ok (.obj [("controls".toList, .obj (PresetEntry.slots (r.chain.map savedEntry)))]) :=
  getPreset_eq hne (mapM_presetEntry h.made)

/-- All entries being saved without a name and a file, all load the same plugin or none loads. -/
theorem loadOk_iff {found : CatalogueEntry} (hfound : lookup w [] = some found)
    (hsome : (w.lilv found.library).isSome) {entries : List PresetEntry}
    (hbare : ∀ entry ∈ entries, entry.name = [] ∧ entry.file = none) (nextId room : ℕ) :
    LoadOk w nextId room entries ↔ entries.length ≤ room ∧
      ∀ (k : ℕ) (entry : PresetEntry), entries[k]? = some entry →
        ControlsOk (Plugin.new w.toWorld (nextId + k) found.library) entry := by
  induction entries generalizing nextId room with
  | nil => simp [LoadOk]
  | cons entry entries ih =>
    obtain ⟨⟨hname, hfile⟩, hbare⟩ := List.forall_mem_cons.mp hbare
    have hlookup : lookup w (strip (dump (.str entry.name))) = some found := by
      rw [hname, strip_dump_str]
      exact hfound
    have hskipped : FileSkipped w entry.file := fun f hf => by rw [hfile] at hf; cases hf
    simp only [LoadOk, hlookup, hsome, if_true, ih hbare]
    constructor
    · rintro ⟨hroom, hc, -, hlen, hrest⟩
      refine ⟨by rw [List.length_cons]; omega, fun k e he => ?_⟩
      cases k with
      | zero =>
        cases he
        exact hc
      | succ k =>
        have := hrest k e he
        rwa [Nat.add_assoc, Nat.add_comm 1 k] at this
    · rintro ⟨hlen, hall⟩
      rw [List.length_cons] at hlen
      refine ⟨by omega, hall 0 entry rfl, hskipped, by omega, fun k e he => ?_⟩
      have := hall (k + 1) e he
      rwa [Nat.add_assoc, Nat.add_comm 1 k]

/-- The preset that the chain is saved as, as it is read back. -/
def savedPreset (r : Rack) : Preset where
  name := []
  entries := PresetEntry.inKeyOrder (r.chain.map savedEntry)

theorem Made.bare {p : Plugin} (h : Made w p) :
    (savedEntry p).name = [] ∧ (savedEntry p).file = none :=
  ⟨h.lv2Name, if_pos h.loadedFileName⟩

theorem bare_of_mem_savedPreset (h : Written w r) {entry : PresetEntry}
    (hentry : entry ∈ r.savedPreset.entries) : entry.name = [] ∧ entry.file = none := by
  obtain ⟨q, hq, rfl⟩ := List.mem_map.mp ((inKeyOrder_perm _).mem_iff.mp hentry)
  exact (h.made q hq).bare

theorem entries_savedPreset (hroom : r.chain.length ≤ MAX_PLUGINS) :
    r.savedPreset.entries = r.chain.map savedEntry :=
  inKeyOrder_of_le (by rwa [List.length_map])

theorem loadOk_savedPreset (h : Written w r) {found : CatalogueEntry}
    (hfound : lookup w [] = some found) (hsome : (w.lilv found.library).isSome) :
    LoadOk w r.engine.nextId MAX_PLUGINS r.savedPreset.entries ↔ r.chain.length ≤ MAX_PLUGINS ∧
      ∀ (k : ℕ) (p : Plugin) (entry : PresetEntry), r.chain[k]? = some p →
        p.presetEntry = .ok entry →
          ControlsOk (Plugin.new w.toWorld (r.engine.nextId + k) found.library) entry := by
  have hlen : r.savedPreset.entries.length = r.chain.length := by
    rw [savedPreset, (inKeyOrder_perm _).length_eq, List.length_map]
  rw [loadOk_iff hfound hsome fun _ => bare_of_mem_savedPreset h, hlen]
  apply and_congr_right
  intro hroom
  rw [entries_savedPreset hroom]
  constructor
  · intro hcontrols k p entry hp hentry
    rw [(h.made p (List.mem_of_getElem? hp)).presetEntry, Except.ok.injEq] at hentry
    apply hcontrols k entry
    rw [List.getElem?_map, hp, ← hentry]
    rfl
  · intro hcontrols k entry hentry
    rw [List.getElem?_map] at hentry
    obtain ⟨p, hp, rfl⟩ := Option.map_eq_some_iff.mp hentry
    exact hcontrols k p _ hp (h.made p (List.mem_of_getElem? hp)).presetEntry

theorem loadedUri_nil {found : CatalogueEntry} (hfound : lookup w [] = some found)
    (hsome : (w.lilv found.library).isSome) : loadedUri w [] = some found.library := by
  have hlookup : lookup w (strip (dump (.str []))) = some found := by
    rw [strip_dump_str]
    exact hfound
  rw [loadedUri, hlookup, Option.bind_some, if_pos hsome]

/-- The condition on the names says that every saved entry loads the URI of its plugin. -/
theorem unnamed_iff (h : Written w r) :
    (∀ p ∈ r.chain, ∃ entry, w.catalogue.find? (·.name == []) = some entry ∧
      p.uri = some entry.library) ↔
      ∀ p ∈ r.chain, LoadsUri w (strip (dump (.str (savedEntry p).name))) p.uri := by
  refine forall_congr' fun p => forall_congr' fun hp => ?_
  have hname : strip (dump (.str (savedEntry p).name)) = [] := by
    rw [strip_dump_str]
    exact congrArg escape (h.made p hp).lv2Name
  rw [hname, loadsUri_iff, lookup_nil]
  refine exists_congr fun entry => and_congr_right fun _ => ?_
  obtain ⟨uri, huri, hsome⟩ := (h.made p hp).uri
  refine ⟨fun he => ⟨?_, he⟩, fun he => he.2⟩
  rw [huri, Option.some.injEq] at he
  rwa [← he]

theorem names_iff {json : Json}
    (hjson : json = .obj [("controls".toList,
      .obj (PresetEntry.slots (r.chain.map savedEntry)))]) :
    (∀ (k : ℕ) (p : Plugin), r.chain[k]? = some p → ∃ entry : PresetEntry,
      (json.get? "controls".toList).bind (·.get? (Nat.toDigits 10 k)) = some entry.toJson ∧
        LoadsUri w (strip (dump (.str entry.name))) p.uri) ↔
      ∀ p ∈ r.chain, LoadsUri w (strip (dump (.str (savedEntry p).name))) p.uri := by
  have hslot {k : ℕ} {p : Plugin} (hp : r.chain[k]? = some p) :
      (json.get? "controls".toList).bind (·.get? (Nat.toDigits 10 k)) =
        some (savedEntry p).toJson := by
    rw [hjson]
    refine get?_slots ?_
    rw [List.getElem?_map, hp, Option.map_some]
  constructor
  · intro hnames p hp
    obtain ⟨k, hk⟩ := List.mem_iff_getElem?.mp hp
    obtain ⟨entry, hentry, hloads⟩ := hnames k p hk
    rw [hslot hk, Option.some.injEq] at hentry
    have heq : savedEntry p = entry := by
      have := congrArg PresetEntry.ofJson hentry
      rwa [PresetEntry.ofJson_toJson, PresetEntry.ofJson_toJson, Option.some.injEq] at this
    rw [heq]
    exact hloads
  · exact fun hall k p hp => ⟨savedEntry p, hslot hp, hall p (List.mem_of_getElem? hp)⟩

theorem loadedUris_savedEntry (h : Written w r)
    (hun : ∀ p ∈ r.chain, ∃ entry, w.catalogue.find? (·.name == []) = some entry ∧
      p.uri = some entry.library) :
    (loadedUris w (r.chain.map savedEntry)).map some = r.chain.map (·.uri) := by
  have hmade := h.made
  generalize r.chain = ps at hun hmade
  induction ps with
  | nil => rfl
  | cons p ps ih =>
    obtain ⟨hp, hps⟩ := List.forall_mem_cons.mp hun
    obtain ⟨hmp, hmps⟩ := List.forall_mem_cons.mp hmade
    obtain ⟨entry, hfind, huri⟩ := hp
    obtain ⟨uri, huri', hsome⟩ := hmp.uri
    rw [huri, Option.some.injEq] at huri'
    rw [← lookup_nil] at hfind
    have hloaded : loadedUri w (savedEntry p).name = some entry.library := by
      rw [show (savedEntry p).name = [] from hmp.lv2Name]
      exact loadedUri_nil hfind (huri' ▸ hsome)
    rw [List.map_cons, loadedUris_cons_some hloaded, List.map_cons, List.map_cons, ih hps hmps, huri]

/-- The URI that the nameless entry loads is that of every plugin in the chain. -/
theorem exists_lookup_of_unnamed (h : Written w r) (hne : r.chain ≠ [])
    (hun : ∀ p ∈ r.chain, ∃ entry, w.catalogue.find? (·.name == []) = some entry ∧
      p.uri = some entry.library) :
    ∃ found, lookup w [] = some found ∧ (w.lilv found.library).isSome ∧
      ∀ p ∈ r.chain, p.uri = some found.library := by
  obtain ⟨p, ps, hps⟩ := List.exists_cons_of_ne_nil hne
  have hp : p ∈ r.chain := by rw [hps]; exact List.mem_cons_self
  obtain ⟨found, hfound, huri⟩ := hun p hp
  obtain ⟨uri, huri', hsome⟩ := (h.made p hp).uri
  rw [huri, Option.some.injEq] at huri'
  refine ⟨found, by rw [lookup_nil, hfound], huri' ▸ hsome, fun q hq => ?_⟩
  obtain ⟨found', hfound', huri''⟩ := hun q hq
  rw [hfound, Option.some.injEq] at hfound'
  rw [huri'', hfound']

theorem presetRestores_iff (h : Written w r) (realized : Bool) :
    PresetRestores w realized r ↔ RestoreOk w r := by
  by_cases hne : r.chain = []
  · refine ⟨fun _ => ⟨?_, ?_, ?_⟩, fun _ hr => absurd hne hr⟩
    · rw [hne]
      intro p hp
      cases hp
    · rw [hne]
      exact Nat.zero_le _
    · rw [hne]
      intro k p uri entry hp
      simp at hp
  constructor
  · intro hr
    obtain ⟨json, preset, hjson, hpreset, hkeeps⟩ := hr hne
    rw [h.getPreset hne, Except.ok.injEq] at hjson
    rw [← hjson, ofJson_getPreset, Option.some.injEq] at hpreset
    have hun := (unnamed_iff h).mpr ((names_iff hjson.symm).mp hkeeps.names)
    obtain ⟨found, hfound, hsome, huris⟩ := exists_lookup_of_unnamed h hne hun
    obtain ⟨r', hr', -⟩ := hkeeps.restores
    rw [← hpreset] at hr'
    have hload := (loadOk_savedPreset h hfound hsome).mp
      (loadOk_of_loadPreset h.settled h.plugs hr')
    refine ⟨hun, hload.1, fun k p uri entry hp huri hentry => ?_⟩
    rw [huris p (List.mem_of_getElem? hp), Option.some.injEq] at huri
    rw [← huri]
    exact hload.2 k p entry hp hentry
  · intro hok _
    obtain ⟨found, hfound, hsome, huris⟩ := exists_lookup_of_unnamed h hne hok.unnamed
    refine ⟨_, _, h.getPreset hne, ofJson_getPreset _,
      (names_iff rfl).mpr ((unnamed_iff h).mp hok.unnamed), ?_⟩
    have hload : LoadOk w r.engine.nextId MAX_PLUGINS r.savedPreset.entries := by
      apply (loadOk_savedPreset h hfound hsome).mpr
      refine ⟨hok.room, fun k p entry hp hentry => ?_⟩
      exact hok.controls k p _ entry hp (huris p (List.mem_of_getElem? hp)) hentry
    obtain ⟨r', hr', -, hloaded⟩ := loadPreset_of_loadOk realized h.settled h.plugs hload
    refine ⟨r', hr', ?_⟩
    rw [hloaded, ← loadedUris_savedEntry h hok.unnamed]
    exact ((inKeyOrder_perm (r.chain.map savedEntry)).filterMap _).map some

end Identity

/-- In every reachable state, saving and loading keeps every plugin exactly when the chain is short
enough, its plugins are what a catalogue entry without a name loads, and the values can be set. -/
theorem presetRestores_iff_restoreOk (w : Installation) (ops : List Op) (realized : Bool) (r : Rack)
    (h : run (step w) {} ops = .ok r) : PresetRestores w realized r ↔ RestoreOk w r :=
  presetRestores_iff (run_written h) realized

theorem presetRestores_iff_after_add :
    ∃ r, run (step smallInstallation) {} [.addPluginByName "Gain".toList] = .ok r ∧
      (PresetRestores smallInstallation true r ↔ RestoreOk smallInstallation r) :=
  ⟨_, rfl, presetRestores_iff_restoreOk smallInstallation [.addPluginByName "Gain".toList] true _ rfl⟩

/-- The one plugin of the catalogue is saved under the empty name, which no entry has. -/
theorem saved_name_not_in_catalogue :
    ∃ r, run (step smallInstallation) {} [.addPluginByName "Gain".toList] = .ok r ∧
      r.chain.map (·.lv2Name) = [[]] ∧ lookup smallInstallation [] = none ∧
      ¬ PresetRestores smallInstallation true r := by
  refine ⟨_, rfl, rfl, rfl, fun h => ?_⟩
  have hw : run (step smallInstallation) {} [.addPluginByName "Gain".toList] = .ok _ := rfl
  obtain ⟨entry, hfind, -⟩ :=
    ((presetRestores_iff (run_written hw) true).mp h).unnamed _ List.mem_cons_self
  have hnone : smallInstallation.catalogue.find? (·.name == []) = none := rfl
  rw [hnone] at hfind
  cases hfind

end Rack

end AmpRack

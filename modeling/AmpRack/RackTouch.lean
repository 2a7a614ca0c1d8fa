import AmpRack.Rack

/-!
# Operations that leave the order alone

Setting a slider, loading control values and loading a file change values only: `Touched` says that
every card keeps its copies of the index and every plugin its identity, its slot and which of its
controls have a value. Whether a slider can be set depends on nothing else. A file can only be handed
to a plugin whose `handle` has been set.
-/

namespace AmpRack

open VectorEdits TextScan JsonText

/-- The same object with other control values, another file type or, if it could be called, another
file. -/
structure Plugin.Kin (p q : Plugin) : Prop extends SameSlot p q where
  id : q.id = p.id
  uri : q.uri = p.uri
  handle : q.handle = p.handle
  lv2Name : q.lv2Name = p.lv2Name
  fileName : p.handle = none → q.loadedFileName = p.loadedFileName
  types : q.pluginControls.map (·.type) = p.pluginControls.map (·.type)
  values : q.pluginControls.map (·.defValue.isSome) = p.pluginControls.map (·.defValue.isSome)

namespace Plugin

theorem Kin.refl (p : Plugin) : Kin p p :=
  ⟨⟨rfl, rfl, rfl, rfl, rfl, rfl⟩, rfl, rfl, rfl, rfl, fun _ => rfl, rfl, rfl⟩

theorem Kin.trans {p q r : Plugin} (h : Kin p q) (h' : Kin q r) : Kin p r :=
  ⟨⟨h'.active.trans h.active, h'.inputPort.trans h.inputPort, h'.inputPort2.trans h.inputPort2,
    h'.outputPort.trans h.outputPort, h'.outputPort2.trans h.outputPort2, h'.inst.trans h.inst⟩,
    h'.id.trans h.id, h'.uri.trans h.uri, h'.handle.trans h.handle, h'.lv2Name.trans h.lv2Name,
    fun hp => (h'.fileName (h.handle.trans hp)).trans (h.fileName hp), h'.types.trans h.types,
    h'.values.trans h.values⟩

theorem Kin.length_eq {p q : Plugin} (h : Kin p q) :
    q.pluginControls.length = p.pluginControls.length := by
  have := congrArg List.length h.values
  rwa [List.length_map, List.length_map] at this

theorem kin_setDef {p : Plugin} {control : ℕ} {c : PluginControl}
    (h : p.pluginControls[control]? = some c) (hdef : c.defValue.isSome) (val : ℚ) :
    Kin p (p.setDef control val) := by
  refine ⟨⟨rfl, rfl, rfl, rfl, rfl, rfl⟩, rfl, rfl, rfl, rfl, fun _ => rfl,
    List.ext_getElem? fun k => ?_, List.ext_getElem? fun k => ?_⟩
  · simp only [setDef, List.getElem?_map, List.getElem?_modify]
    split_ifs <;> cases p.pluginControls[k]? <;> rfl
  · simp only [setDef, List.getElem?_map, List.getElem?_modify]
    by_cases hk : control = k
    · subst hk
      simp [h, hdef]
    · simp [hk]

theorem kin_setFile {p : Plugin} (h : p.handle.isSome = true) (filename : Text) (type : ℤ) :
    Kin p (p.setFile filename type) :=
  ⟨⟨rfl, rfl, rfl, rfl, rfl, rfl⟩, rfl, rfl, rfl, rfl, fun hp => (by simp [hp] at h), rfl, rfl⟩

theorem kin_declareFileType (p : Plugin) (type : Option ℤ) : Kin p (p.declareFileType type) := by
  cases type with
  | none => exact .refl p
  | some type => exact ⟨⟨rfl, rfl, rfl, rfl, rfl, rfl⟩, rfl, rfl, rfl, rfl, fun _ => rfl, rfl, rfl⟩

theorem handle_of_setBuffer {p : Plugin} (h : p.setBuffer = .ok ()) : p.handle.isSome = true := by
  unfold setBuffer at h
  split_ifs at h with hset
  exact hset.2

theorem handle_of_connectPort {p : Plugin} (h : p.connectPort = .ok ()) : p.handle.isSome = true := by
  unfold connectPort at h
  split_ifs at h with hset
  exact hset

theorem pluginControls_declareFileType (p : Plugin) (type : Option ℤ) :
    (p.declareFileType type).pluginControls = p.pluginControls := by
  cases type <;> rfl

end Plugin

open Plugin

theorem forall₂_modify {α : Type*} {R : α → α → Prop} (hrefl : ∀ a, R a a) {xs : List α} {i : ℕ}
    {f : α → α} (h : ∀ a, xs[i]? = some a → R a (f a)) : List.Forall₂ R xs (xs.modify i f) := by
  refine List.forall₂_iff_get.mpr ⟨(List.length_modify f xs i).symm, fun k hk hk' => ?_⟩
  simp only [List.get_eq_getElem, List.getElem_modify]
  split_ifs with hik
  · subst hik
    exact h _ (List.getElem?_eq_getElem hk)
  · exact hrefl _

namespace Engine

theorem Settled.of_kin {e : Engine} (hs : e.Settled) {ps : List Plugin}
    (h : List.Forall₂ Kin e.activePlugins ps) : Settled { e with activePlugins := ps } := by
  have hslot : List.Forall₂ SameSlot e.activePlugins ps := h.imp fun _ _ hk => hk.toSameSlot
  refine ⟨hs.mirrors.of_sameSlot hslot, hs.running, ?_⟩
  rw [Fits, ← (forall₂_switchedOn hslot).length_eq]
  exact hs.fits

/-- The chain is kin to the old one, all else is as it was. -/
structure Kept (e e' : Engine) : Prop where
  chain : List.Forall₂ Kin e.activePlugins e'.activePlugins
  nextId : e'.nextId = e.nextId
  settled : e.Settled → e'.Settled

theorem Kept.refl (e : Engine) : Kept e e :=
  ⟨List.forall₂_same.mpr fun p _ => Kin.refl p, rfl, id⟩

/-- A plugin that is changed is one of the chain. -/
theorem modifyPlugin_ok {e e' : Engine} {index : ℤ} {f : Plugin → Plugin}
    (h : e.modifyPlugin index f = .ok e') :
    ∃ k : ℕ, index = k ∧ k < e.activePlugins.length ∧
      e' = { e with activePlugins := e.activePlugins.modify k f } := by
  unfold modifyPlugin at h
  split at h
  · cases h
  · rename_i ps hps
    cases h
    obtain ⟨k, hk, hlt, rfl⟩ := modifyAt_eq_some hps
    exact ⟨k, hk, hlt, rfl⟩

theorem modifyPlugin_kept {e e' : Engine} {index : ℤ} {f : Plugin → Plugin}
    (hf : ∀ p, at? e.activePlugins index = some p → Kin p (f p))
    (h : e.modifyPlugin index f = .ok e') : Kept e e' := by
  obtain ⟨k, rfl, -, rfl⟩ := modifyPlugin_ok h
  have hkin : List.Forall₂ Kin e.activePlugins (e.activePlugins.modify k f) :=
    forall₂_modify Kin.refl fun p hp => hf p (by rw [at?_natCast]; exact hp)
  exact ⟨hkin, rfl, fun hs => hs.of_kin hkin⟩

/-- A change of one plugin while the bypass is on. -/
theorem modifyPlugin_bypass_kept {e e' : Engine} {index : ℤ} {f : Plugin → Plugin}
    (hf : ∀ p, at? e.activePlugins index = some p → Kin p (f p))
    (h : ((e.setBypass true).modifyPlugin index f).map (·.setBypass false) = .ok e') :
    Kept e e' := by
  obtain ⟨e₁, he₁, rfl⟩ := map_eq_ok h
  obtain ⟨k, rfl, -, rfl⟩ := modifyPlugin_ok he₁
  have hkin : List.Forall₂ Kin e.activePlugins (e.activePlugins.modify k f) :=
    forall₂_modify Kin.refl fun p hp => hf p (by rw [at?_natCast]; exact hp)
  refine ⟨hkin, rfl, fun hs => ⟨?_, rfl, (hs.of_kin hkin).fits⟩⟩
  exact (hs.of_kin hkin).mirrors.setBypass false

theorem modifyPlugin_bypass_of_lt {e : Engine} {i : ℕ} (h : i < e.activePlugins.length)
    (f : Plugin → Plugin) :
    ∃ e', ((e.setBypass true).modifyPlugin i f).map (·.setBypass false) = .ok e' := by
  have hm : (e.setBypass true).modifyPlugin i f =
      .ok { e.setBypass true with activePlugins := e.activePlugins.modify i f } := by
    simp only [modifyPlugin, modifyAt_natCast, setBypass, if_pos h]
  exact ⟨_, by rw [hm]; rfl⟩

/-- The file is stored in a plugin that could be called. -/
structure FileStored (e : Engine) (index : ℤ) (filename : Text) (type : ℤ) (e' : Engine) : Prop where
  handle : ∀ p, at? e.activePlugins index = some p → p.handle.isSome = true
  stored : ((e.setBypass true).modifyPlugin index (·.setFile filename type)).map
    (·.setBypass false) = .ok e'

theorem setFile_ok {e e' : Engine} {index type : ℤ} {connect : Plugin → Except Fault Unit}
    {filename : Text} (hconnect : ∀ {p}, connect p = .ok () → p.handle.isSome = true)
    (h : e.setFile index connect filename type = .ok e') : FileStored e index filename type e' := by
  unfold setFile at h
  split at h
  · cases h
  · rename_i p hp
    cases hp' : connect p with
    | error f =>
      rw [hp'] at h
      cases h
    | ok u =>
      rw [hp'] at h
      refine ⟨fun q hq => ?_, h⟩
      rw [hp, Option.some.injEq] at hq
      rw [← hq]
      exact hconnect hp'

/-- A file of type 0 that cannot be read is not set; any other is, with the type of its loader. -/
theorem setFile_cases {w : Installation} {e e' : Engine} {index filetype : ℤ} {filename : Text}
    (h : (if filetype = 0 then e.setPluginAudioFile w index filename
      else e.setPluginFile index filename) = .ok e') :
    (filetype = 0 ∧ w.readable filename = false ∧ e' = e) ∨
      ∃ type, (filetype = 0 ∧ w.readable filename = true ∧ type = 0 ∨ filetype ≠ 0 ∧ type = 1) ∧
        FileStored e index filename type e' := by
  split_ifs at h with htype
  · unfold setPluginAudioFile at h
    split_ifs at h with hread
    · exact .inr ⟨0, .inl ⟨htype, hread, rfl⟩, setFile_ok handle_of_setBuffer h⟩
    · cases h
      exact .inl ⟨htype, by simpa using hread, rfl⟩
  · exact .inr ⟨1, .inr ⟨htype, rfl⟩, setFile_ok handle_of_connectPort h⟩

/-- A plugin of the URI constructor has no `handle`, and then no file can be handed to it. -/
theorem setFile_ne_ok {e e' : Engine} {index type : ℤ} {connect : Plugin → Except Fault Unit}
    {filename : Text} {p : Plugin} (hconnect : ∀ {p}, connect p = .ok () → p.handle.isSome = true)
    (hp : at? e.activePlugins index = some p) (hhandle : p.handle = none) :
    e.setFile index connect filename type ≠ .ok e' := by
  intro h
  have hsome := (setFile_ok hconnect h).handle p hp
  rw [hhandle] at hsome
  cases hsome

end Engine

namespace Rack

/-- The order of cards and plugins and every copy of an index are as before. -/
structure Touched (r r' : Rack) : Prop where
  listBox : r'.listBox = r.listBox
  plugs : r'.plugs = r.plugs
  uiv : List.Forall₂ PluginUI.SameCard r.uiv r'.uiv
  engine : Engine.Kept r.engine r'.engine

theorem Touched.refl (r : Rack) : Touched r r :=
  ⟨rfl, rfl, List.forall₂_same.mpr fun ui _ => .refl ui, .refl r.engine⟩

theorem forall₂_trans {α : Type*} {R : α → α → Prop} (htrans : ∀ a b c, R a b → R b c → R a c)
    {xs ys zs : List α} (h : List.Forall₂ R xs ys) (h' : List.Forall₂ R ys zs) :
    List.Forall₂ R xs zs := by
  induction h generalizing zs with
  | nil => exact h'
  | cons hxy _ ih =>
    cases h' with
    | cons hyz h' => exact .cons (htrans _ _ _ hxy hyz) (ih h')

theorem Touched.trans {r r' r'' : Rack} (h : Touched r r') (h' : Touched r' r'') : Touched r r'' :=
  ⟨h'.listBox.trans h.listBox, h'.plugs.trans h.plugs,
    forall₂_trans (fun _ _ _ h h' => h.trans h') h.uiv h'.uiv,
    forall₂_trans (fun _ _ _ h h' => h.trans h') h.engine.chain h'.engine.chain,
    h'.engine.nextId.trans h.engine.nextId, fun hs => h'.engine.settled (h.engine.settled hs)⟩

theorem Touched.sameCard {r r' : Rack} (h : Touched r r') {card : ℕ} {ui : PluginUI}
    (hui : r.uiv[card]? = some ui) : ∃ ui', r'.uiv[card]? = some ui' ∧ ui.SameCard ui' := by
  obtain ⟨hlt, rfl⟩ := List.getElem?_eq_some_iff.mp hui
  have hlt' : card < r'.uiv.length := by rw [← h.uiv.length_eq]; exact hlt
  exact ⟨_, List.getElem?_eq_getElem hlt', h.uiv.get hlt hlt'⟩

theorem Touched.kin {r r' : Rack} (h : Touched r r') {k : ℕ} {p : Plugin}
    (hp : r.chain[k]? = some p) : ∃ p', r'.chain[k]? = some p' ∧ p.Kin p' := by
  obtain ⟨hlt, rfl⟩ := List.getElem?_eq_some_iff.mp hp
  have hlt' : k < r'.chain.length := by rw [chain, ← h.engine.chain.length_eq]; exact hlt
  exact ⟨_, List.getElem?_eq_getElem hlt', h.engine.chain.get hlt hlt'⟩

theorem Touched.owner {r r' : Rack} (h : Touched r r') : r'.owner = r.owner := by
  funext card
  cases hui : r.uiv[card]? with
  | none =>
    have hnone : r'.uiv[card]? = none := by
      rw [List.getElem?_eq_none_iff, ← h.uiv.length_eq, ← List.getElem?_eq_none_iff]
      exact hui
    rw [Rack.owner, Rack.owner, hui, hnone]
  | some ui =>
    obtain ⟨ui', hui', hsame⟩ := h.sameCard hui
    rw [Rack.owner, Rack.owner, hui, hui', Option.map_some, Option.map_some, hsame.plugin]

theorem Touched.map_eq {β : Type*} {f : Plugin → β} (hf : ∀ p q, Plugin.Kin p q → f q = f p)
    {r r' : Rack} (h : Touched r r') : r'.chain.map f = r.chain.map f := by
  have hall : List.Forall₂ (fun p q => f q = f p) r.chain r'.chain :=
    h.engine.chain.imp fun _ _ hk => hf _ _ hk
  generalize r.chain = ps at hall
  generalize r'.chain = qs at hall
  induction hall with
  | nil => rfl
  | cons hpq _ ih => rw [List.map_cons, List.map_cons, hpq, ih]

theorem Touched.ids {r r' : Rack} (h : Touched r r') :
    r'.chain.map (·.id) = r.chain.map (·.id) := h.map_eq fun _ _ hk => hk.id

theorem Touched.uris {r r' : Rack} (h : Touched r r') :
    r'.chain.map (·.uri) = r.chain.map (·.uri) := h.map_eq fun _ _ hk => hk.uri

theorem touched_setSlider (r : Rack) (card i : ℕ) (value : ℚ) :
    Touched r { r with uiv := r.uiv.modify card (·.setSlider i value) } :=
  ⟨rfl, rfl, forall₂_modify PluginUI.SameCard.refl fun ui _ => ui.sameCard_setSlider i value,
    .refl r.engine⟩

/-- The handler returns at once when there is no card, and else sets a value that is there. -/
theorem controlChanged_ok {realized : Bool} {r r' : Rack} {card control : ℕ} {val : ℚ}
    (h : r.controlChanged realized card control val = .ok r') :
    r.uiv[card]? = none ∧ r' = r ∨
      ∃ ui p c e, r.uiv[card]? = some ui ∧ at? r.chain (ui.getIndex realized) = some p ∧
        p.pluginControls[control]? = some c ∧ c.defValue.isSome = true ∧
        r.engine.modifyPlugin (ui.getIndex realized)
          (·.setDef control (BinaryFormat.binary32.round val)) = .ok e ∧
        r' = { r with engine := e } := by
  unfold controlChanged at h
  split at h
  · rename_i hui
    cases h
    exact .inl ⟨hui, rfl⟩
  · rename_i ui hui
    split at h
    · cases h
    · rename_i p hp
      split at h
      · cases h
      · rename_i c hc
        split at h
        · cases h
        · rename_i v hv
          obtain ⟨e, he, rfl⟩ := Engine.map_eq_ok h
          exact .inr ⟨ui, p, c, e, hui, hp, hc, by rw [hv]; rfl, he, rfl⟩

theorem controlChanged_touched {realized : Bool} {r r' : Rack} {card control : ℕ} {val : ℚ}
    (h : r.controlChanged realized card control val = .ok r') : Touched r r' := by
  obtain ⟨-, rfl⟩ | ⟨ui, p, c, e, -, hp, hc, hv, he, rfl⟩ := controlChanged_ok h
  · exact .refl _
  · refine ⟨rfl, rfl, List.forall₂_same.mpr fun ui _ => .refl ui,
      Engine.modifyPlugin_kept (fun q hq => ?_) he⟩
    have hqp : some q = some p := hq.symm.trans hp
    cases hqp
    exact kin_setDef hc hv _

theorem rangeSetValue_touched {realized : Bool} {r r' : Rack} {card i : ℕ} {f : Floating}
    (h : r.rangeSetValue realized card i f = .ok r') : Touched r r' := by
  unfold rangeSetValue at h
  split at h
  · cases h; exact .refl r
  · split_ifs at h
    · cases h; exact .refl r
    · exact (touched_setSlider r card i _).trans (controlChanged_touched h)

theorem touched_setFile {r : Rack} {index type : ℤ} {filename : Text} {e : Engine}
    (h : Engine.FileStored r.engine index filename type e) : Touched r { r with engine := e } :=
  ⟨rfl, rfl, List.forall₂_same.mpr fun ui _ => .refl ui,
    Engine.modifyPlugin_bypass_kept (fun p hp => kin_setFile (h.handle p hp) _ _) h.stored⟩

theorem loadFile_touched {w : Installation} {r r' : Rack} {index : ℤ} {file : Option (Text × ℤ)}
    (h : r.loadFile w index file = .ok r') : Touched r r' := by
  rcases file with _ | ⟨filename, filetype⟩
  · cases h; exact .refl r
  · obtain ⟨e, he, rfl⟩ := Engine.map_eq_ok h
    rcases Engine.setFile_cases he with ⟨-, -, rfl⟩ | ⟨type, -, hset⟩
    · exact .refl r
    · exact touched_setFile hset

end Rack

/-- The file of an entry that is passed over: there is none, or it is an audio file that cannot be
read. -/
def FileSkipped (w : Installation) (file : Option (Text × ℤ)) : Prop :=
  ∀ f ∈ file, f.2 = 0 ∧ w.readable (strip (dump (.str f.1))) = false

namespace Rack

theorem loadFile_of_skipped {w : Installation} {file : Option (Text × ℤ)} (h : FileSkipped w file)
    (r : Rack) (index : ℤ) : r.loadFile w index file = .ok r := by
  rcases file with _ | ⟨filename, filetype⟩
  · rfl
  · obtain ⟨htype, hread⟩ := h _ rfl
    simp only at htype hread
    simp only [loadFile, htype, if_true, Engine.setPluginAudioFile, hread, Bool.false_eq_true,
      if_false]
    rfl

/-- On a plugin of the URI constructor, no other file goes through. -/
theorem skipped_of_loadFile {w : Installation} {r r' : Rack} {index : ℤ} {p : Plugin}
    {file : Option (Text × ℤ)} (hp : at? r.chain index = some p) (hhandle : p.handle = none)
    (h : r.loadFile w index file = .ok r') : FileSkipped w file := by
  intro f hf
  rcases file with _ | ⟨filename, filetype⟩
  · cases hf
  · cases hf
    obtain ⟨e, he, -⟩ := Engine.map_eq_ok h
    rcases Engine.setFile_cases he with ⟨htype, hread, -⟩ | ⟨type, -, hstored⟩
    · exact ⟨htype, hread⟩
    · have hsome := hstored.handle p hp
      rw [hhandle] at hsome
      cases hsome

/-- Setting the slider leaves it where it is, or its control has a value to set. -/
def SliderOk (p : Plugin) (s : Slider) (f : Floating) : Prop :=
  s.settle f = s.value ∨ ∃ c, p.pluginControls[s.control]? = some c ∧ c.defValue.isSome

theorem SliderOk.of_kin {p q : Plugin} (h : p.Kin q) {s : Slider} {f : Floating} :
    SliderOk q s f ↔ SliderOk p s f := by
  have hk := congrArg (·[s.control]?) h.values
  simp only [List.getElem?_map] at hk
  apply or_congr Iff.rfl
  cases hp : p.pluginControls[s.control]? <;> cases hq : q.pluginControls[s.control]? <;>
    simp_all

theorem rangeSetValue_none {realized : Bool} {r : Rack} {card i : ℕ} {f : Floating} {ui : PluginUI}
    (hui : r.uiv[card]? = some ui) (hs : ui.sliders[i]? = none) :
    r.rangeSetValue realized card i f = .ok r := by
  simp only [rangeSetValue, hui, Option.bind_some, hs]

/-- A slider can be set exactly when it may stay or its control has a value. -/
theorem rangeSetValue_ok_iff {realized : Bool} {r : Rack} {card i k : ℕ} {f : Floating} {ui : PluginUI}
    {p : Plugin} {s : Slider} (hui : r.uiv[card]? = some ui) (hs : ui.sliders[i]? = some s)
    (hindex : ui.getIndex realized = k) (hp : r.chain[k]? = some p) :
    (∃ r', r.rangeSetValue realized card i f = .ok r') ↔ SliderOk p s f := by
  simp only [rangeSetValue, hui, Option.bind_some, hs]
  by_cases hstay : s.settle f = s.value
  · rw [if_pos hstay]
    exact ⟨fun _ => .inl hstay, fun _ => ⟨r, rfl⟩⟩
  · rw [if_neg hstay]
    have hui' : (r.uiv.modify card (·.setSlider i (s.settle f)))[card]? =
        some (ui.setSlider i (s.settle f)) := by
      simp [hui]
    have hindex' : (ui.setSlider i (s.settle f)).getIndex realized = k := hindex
    have hklt : k < r.engine.activePlugins.length := (List.getElem?_eq_some_iff.mp hp).1
    simp only [controlChanged, hui', hindex', at?_natCast]
    rw [show ({ r with uiv := r.uiv.modify card (·.setSlider i (s.settle f)) } : Rack).chain[k]? =
      some p from hp]
    constructor
    · rintro ⟨r', hr'⟩
      refine .inr ?_
      simp only at hr'
      cases hc : p.pluginControls[s.control]? with
      | none => rw [hc] at hr'; cases hr'
      | some c =>
        rw [hc] at hr'
        simp only at hr'
        cases hd : c.defValue with
        | none => rw [hd] at hr'; cases hr'
        | some v => exact ⟨c, rfl, by rw [hd]; rfl⟩
    · rintro (hstay' | ⟨c, hc, hd⟩)
      · exact absurd hstay' hstay
      · obtain ⟨v, hv⟩ := Option.isSome_iff_exists.mp hd
        simp only [hc, hv, Engine.modifyPlugin, modifyAt_natCast, if_pos hklt]
        exact ⟨_, rfl⟩

end Rack

end AmpRack

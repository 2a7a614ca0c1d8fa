import AmpRack.RackTouch

/-!
# The invariant of the rack

`Inv` says that the cards correspond to the chain, with plugin objects that are pairwise distinct;
`Aligned` adds that every card's copies of its index are its position. Adding keeps both.
-/

namespace AmpRack

open VectorEdits TextScan JsonText Plugin

namespace Rack

structure Inv (r : Rack) : Prop where
  settled : r.engine.Settled
  nodup : (r.chain.map (·.id)).Nodup
  fresh : ∀ p ∈ r.chain, p.id < r.engine.nextId
  corresponds : r.Corresponds
  plugs : ∀ card ∈ r.listBox, card ∈ r.plugs

theorem map_some_id (ps : List Plugin) :
    (ps.map fun p => some p.id) = (ps.map (·.id)).map some := by
  rw [List.map_map]
  rfl

namespace Inv

variable {r : Rack}

theorem length_eq (h : r.Inv) : r.listBox.length = r.chain.length := by
  have := congrArg List.length h.corresponds
  rwa [List.length_map, List.length_map] at this

/-- The card at a position is that of the plugin at that position. -/
theorem card_of_position (h : r.Inv) {k card : ℕ} {p : Plugin} (hc : r.listBox[k]? = some card)
    (hp : r.chain[k]? = some p) : ∃ ui, r.uiv[card]? = some ui ∧ ui.plugin = p.id := by
  have hk := congrArg (·[k]?) h.corresponds
  simp only [List.getElem?_map, hc, hp, Option.map_some, Option.some.injEq] at hk
  exact Option.map_eq_some_iff.mp hk

theorem exists_position (h : r.Inv) {card : ℕ} (hc : card ∈ r.listBox) :
    ∃ (k : ℕ) (p : Plugin), r.listBox[k]? = some card ∧ r.chain[k]? = some p := by
  obtain ⟨k, hk⟩ := List.mem_iff_getElem?.mp hc
  have hlt : k < r.chain.length := by
    rw [← h.length_eq]
    exact (List.getElem?_eq_some_iff.mp hk).1
  exact ⟨k, r.chain[k], hk, List.getElem?_eq_getElem hlt⟩

theorem exists_ui (h : r.Inv) {card : ℕ} (hc : card ∈ r.listBox) :
    ∃ ui, r.uiv[card]? = some ui := by
  obtain ⟨k, p, hk, hp⟩ := h.exists_position hc
  obtain ⟨ui, hui, -⟩ := h.card_of_position hk hp
  exact ⟨ui, hui⟩

theorem lt_length_uiv (h : r.Inv) {card : ℕ} (hc : card ∈ r.listBox) : card < r.uiv.length := by
  obtain ⟨ui, hui⟩ := h.exists_ui hc
  exact (List.getElem?_eq_some_iff.mp hui).1

theorem of_touched {r' : Rack} (h : r.Inv) (ht : Touched r r') : r'.Inv where
  settled := ht.engine.settled h.settled
  nodup := by rw [ht.ids]; exact h.nodup
  fresh := by
    intro p hp
    obtain ⟨k, hk⟩ := List.mem_iff_getElem?.mp hp
    have hids := congrArg (·[k]?) ht.ids
    simp only [List.getElem?_map, hk, Option.map_some] at hids
    obtain ⟨q, hq, hqp⟩ := Option.map_eq_some_iff.mp hids.symm
    rw [ht.engine.nextId, ← hqp]
    exact h.fresh q (List.mem_iff_getElem?.mpr ⟨k, hq⟩)
  corresponds := by
    rw [Corresponds, ht.listBox, ht.owner, h.corresponds, map_some_id, map_some_id, ht.ids]
  plugs := by
    rw [ht.listBox, ht.plugs]
    exact h.plugs

end Inv

/-- Every card knows its position, and its sliders are for controls of its plugin. -/
structure Aligned (r : Rack) : Prop extends Inv r where
  index : ∀ (k card : ℕ) (ui : PluginUI), r.listBox[k]? = some card → r.uiv[card]? = some ui →
    ui.index = k ∧ ui.indexP = k ∧ ui.cdIndex = k ∧ (ui.sliders ≠ [] → ui.widgetName = k + 48)
  controls : ∀ (k card : ℕ) (ui : PluginUI) (p : Plugin), r.listBox[k]? = some card →
    r.uiv[card]? = some ui → r.chain[k]? = some p →
    ∀ s ∈ ui.sliders, s.control < p.pluginControls.length

theorem Aligned.of_touched {r r' : Rack} (h : r.Aligned) (ht : Touched r r') : r'.Aligned where
  toInv := h.toInv.of_touched ht
  index := by
    intro k card ui hc hui
    rw [ht.listBox] at hc
    obtain ⟨ui₀, hui₀⟩ := h.exists_ui (List.mem_iff_getElem?.mpr ⟨k, hc⟩)
    obtain ⟨ui', hui', hsame⟩ := ht.sameCard hui₀
    rw [hui] at hui'
    cases hui'
    obtain ⟨h1, h2, h3, h4⟩ := h.index k card ui₀ hc hui₀
    refine ⟨hsame.index.trans h1, hsame.indexP.trans h2, hsame.cdIndex.trans h3, fun hs => ?_⟩
    refine hsame.widgetName.trans (h4 fun hnil => hs ?_)
    have hcontrols := hsame.controls
    rw [hnil, List.map_nil, List.map_eq_nil_iff] at hcontrols
    exact hcontrols
  controls := by
    intro k card ui p hc hui hp s hs
    rw [ht.listBox] at hc
    obtain ⟨ui₀, hui₀⟩ := h.exists_ui (List.mem_iff_getElem?.mpr ⟨k, hc⟩)
    obtain ⟨ui', hui', hsame⟩ := ht.sameCard hui₀
    rw [hui] at hui'
    cases hui'
    have hlt : k < r.chain.length := by
      rw [← h.length_eq]
      exact (List.getElem?_eq_some_iff.mp hc).1
    obtain ⟨p', hp', hkin⟩ := ht.kin (List.getElem?_eq_getElem hlt)
    rw [hp] at hp'
    cases hp'
    have hmem : s.control ∈ ui.sliders.map (·.control) := List.mem_map_of_mem hs
    rw [hsame.controls] at hmem
    obtain ⟨s₀, hs₀, hcontrol⟩ := List.mem_map.mp hmem
    rw [hkin.length_eq, ← hcontrol]
    exact h.controls k card ui₀ _ hc hui₀ (List.getElem?_eq_getElem hlt) s₀ hs₀

section Add

variable {w : Installation} {r : Rack} {requested : Text} {entry : CatalogueEntry}

theorem addPluginByName_unknown (h : lookup w requested = none) :
    r.addPluginByName w requested = .ok (r, none) := by
  simp only [addPluginByName, h]

/-- Only the count of objects tells that a plugin was tried. -/
theorem addPluginByName_failed (hs : r.engine.Settled) (h : lookup w requested = some entry)
    (hlilv : w.lilv entry.library = none) :
    r.addPluginByName w requested =
      .ok ({ r with engine := { r.engine with nextId := r.engine.nextId + 1 } }, none) := by
  simp only [addPluginByName, h, Engine.addPlugin_of_none hs hlilv]

theorem Inv.of_failed (h : r.Inv) :
    Inv { r with engine := { r.engine with nextId := r.engine.nextId + 1 } } :=
  ⟨⟨h.settled.mirrors, h.settled.running, h.settled.fits⟩, h.nodup,
    fun p hp => (h.fresh p hp).trans (Nat.lt_succ_self _), h.corresponds, h.plugs⟩

theorem Aligned.of_failed (h : r.Aligned) :
    Aligned { r with engine := { r.engine with nextId := r.engine.nextId + 1 } } :=
  ⟨h.toInv.of_failed, h.index, h.controls⟩

/-- A plugin `p` and its card stand at the end of every list. -/
structure Added (w : Installation) (r : Rack) (requested : Text) (entry : CatalogueEntry) (p : Plugin)
    (r' : Rack) : Prop where
  made : p = (Plugin.new w.toWorld r.engine.nextId entry.library).declareFileType entry.fileType
  chain : r'.chain = r.chain ++ [p]
  listBox : r'.listBox = r.listBox ++ [r.uiv.length]
  plugs : r'.plugs = r.plugs ++ [r.uiv.length]
  uiv : r'.uiv = r.uiv ++ [.new p r.chain.length entry.fileType (w.models requested)]
  nextId : r'.engine.nextId = r.engine.nextId + 1
  settled : r'.engine.Settled

namespace Added

variable {p : Plugin} {r' : Rack}

theorem kin (ha : Added w r requested entry p r') :
    (Plugin.new w.toWorld r.engine.nextId entry.library).Kin p := by
  rw [ha.made]
  exact kin_declareFileType _ _

theorem controls (ha : Added w r requested entry p r') :
    p.pluginControls = (Plugin.new w.toWorld r.engine.nextId entry.library).pluginControls := by
  rw [ha.made]
  exact pluginControls_declareFileType _ _

theorem handle (ha : Added w r requested entry p r') : p.handle = none :=
  ha.kin.handle.trans (Plugin.new_handle _ _ _)

end Added

theorem addPluginByName_added (h : lookup w requested = some entry)
    (hlilv : (w.lilv entry.library).isSome)
    (hroom : (switchedOn r.chain).length < MAX_PLUGINS) :
    ∃ r' p, r.addPluginByName w requested = .ok (r', some r.uiv.length) ∧ Added w r requested entry p r' := by
  obtain ⟨e, he, hb⟩ := Engine.addPlugin_of_some (e := r.engine) hlilv hroom
  let p₀ := Plugin.new w.toWorld r.engine.nextId entry.library
  let p := p₀.declareFileType entry.fileType
  have hkin : p₀.Kin p := kin_declareFileType p₀ entry.fileType
  have hchain : e.activePlugins = r.chain ++ [p₀] := hb.chain
  have hlen : e.activePlugins.length - 1 = r.chain.length := by
    rw [hchain, List.length_append, List.length_singleton, Nat.add_sub_cancel]
  have hps : e.activePlugins.modify (e.activePlugins.length - 1)
      (·.declareFileType entry.fileType) = r.chain ++ [p] := by
    rw [hlen, hchain]
    exact modify_append_cons r.chain [] p₀ _
  have hget : (r.chain ++ [p])[e.activePlugins.length - 1]? = some p := by
    rw [hlen]
    simp
  have hcast : ((e.activePlugins.length - 1 : ℕ) : ℤ) = r.chain.length := by rw [hlen]
  refine ⟨{ r with engine := { e with activePlugins := r.chain ++ [p] } }.appendCard
    (.new p r.chain.length entry.fileType (w.models requested)), p, ?_, rfl, rfl, rfl, rfl, rfl,
    hb.nextId, ?_⟩
  · simp only [addPluginByName, h, he, hps, hget, hcast]
  · apply hb.settled.of_kin
    rw [hchain]
    exact List.rel_append (List.forall₂_same.mpr fun q _ => Kin.refl q) (.cons hkin .nil)

theorem addPluginByName_room {s : Rack × Option ℕ} (h : lookup w requested = some entry)
    (hlilv : (w.lilv entry.library).isSome) (hs : r.addPluginByName w requested = .ok s) :
    (switchedOn r.chain).length < MAX_PLUGINS := by
  simp only [addPluginByName, h] at hs
  cases he : r.engine.addPlugin w.toWorld entry.library with
  | error f => rw [he] at hs; cases hs
  | ok e => exact Engine.addPlugin_room he hlilv

/-- Nothing is added when the name is unknown or lilv cannot load the plugin. -/
theorem addPluginByName_cases {s : Rack × Option ℕ} (hs : r.engine.Settled)
    (h : r.addPluginByName w requested = .ok s) :
    s = (r, none) ∨
      s = ({ r with engine := { r.engine with nextId := r.engine.nextId + 1 } }, none) ∨
      ∃ entry r' p, lookup w requested = some entry ∧ (w.lilv entry.library).isSome = true ∧
        (switchedOn r.chain).length < MAX_PLUGINS ∧ s = (r', some r.uiv.length) ∧
        Added w r requested entry p r' := by
  cases hfound : lookup w requested with
  | none =>
    rw [addPluginByName_unknown hfound] at h
    cases h
    exact .inl rfl
  | some entry =>
    cases hlilv : w.lilv entry.library with
    | none =>
      rw [addPluginByName_failed hs hfound hlilv] at h
      cases h
      exact .inr (.inl rfl)
    | some ports =>
      have hsome : (w.lilv entry.library).isSome = true := by rw [hlilv]; rfl
      have hroom := addPluginByName_room hfound hsome h
      obtain ⟨r', p, hr', ha⟩ := addPluginByName_added hfound hsome hroom
      rw [h, Except.ok.injEq] at hr'
      exact .inr (.inr ⟨entry, r', p, rfl, hsome, hroom, hr', ha⟩)

theorem Added.inv {p : Plugin} {r' : Rack} (ha : Added w r requested entry p r') (h : r.Inv) : r'.Inv where
  settled := ha.settled
  nodup := by
    rw [ha.chain, List.map_append, List.map_singleton, List.nodup_append]
    refine ⟨h.nodup, List.nodup_singleton _, ?_⟩
    intro i hi j hj hij
    obtain ⟨q, hq, rfl⟩ := List.mem_map.mp hi
    have hlt := h.fresh q hq
    rw [List.mem_singleton.mp hj, ha.kin.id, Plugin.new_id] at hij
    omega
  fresh := by
    rw [ha.chain, ha.nextId]
    intro q hq
    rcases List.mem_append.mp hq with hq | hq
    · exact (h.fresh q hq).trans (Nat.lt_succ_self _)
    · rw [List.mem_singleton.mp hq, ha.kin.id, Plugin.new_id]
      exact Nat.lt_succ_self _
  corresponds := by
    have hold : r.listBox.map r'.owner = r.listBox.map r.owner := by
      apply List.map_congr_left
      intro card hc
      rw [owner, owner, ha.uiv, List.getElem?_append_left (h.lt_length_uiv hc)]
    have hnew : r'.owner r.uiv.length = some p.id := by
      rw [owner, ha.uiv]
      simp [PluginUI.new]
    rw [Corresponds, ha.listBox, ha.chain, List.map_append, List.map_append, hold, h.corresponds,
      List.map_singleton, List.map_singleton, hnew]
  plugs := by
    rw [ha.listBox, ha.plugs]
    intro card hc
    rcases List.mem_append.mp hc with hc | hc
    · exact List.mem_append_left _ (h.plugs card hc)
    · exact List.mem_append_right _ hc

/-- The new card is aligned as long as one character holds its position. -/
theorem Added.aligned {p : Plugin} {r' : Rack} (ha : Added w r requested entry p r') (h : r.Aligned)
    (hname : r.chain.length < 80 ∨ p.sliders = []) : r'.Aligned where
  toInv := ha.inv h.toInv
  index := by
    intro k card ui hc hui
    rw [ha.listBox] at hc
    rcases Nat.lt_or_ge k r.listBox.length with hlt | hge
    · rw [List.getElem?_append_left hlt] at hc
      rw [ha.uiv, List.getElem?_append_left
        (h.lt_length_uiv (List.mem_iff_getElem?.mpr ⟨k, hc⟩))] at hui
      exact h.index k card ui hc hui
    · rw [List.getElem?_append_right hge] at hc
      obtain ⟨hklt, hcard⟩ := List.getElem?_eq_some_iff.mp hc
      rw [List.getElem_singleton] at hcard
      have hk : k = r.chain.length := by
        rw [← h.length_eq]
        simp only [List.length_singleton] at hklt
        omega
      rw [← hcard, ha.uiv] at hui
      simp only [List.getElem?_append_right le_rfl, Nat.sub_self, List.getElem?_cons_zero,
        Option.some.injEq] at hui
      subst hk
      rw [← hui]
      refine ⟨rfl, rfl, rfl, fun hs => ?_⟩
      exact signedChar_add_48 (Int.natCast_nonneg _) (by have := hname.resolve_right hs; omega)
  controls := by
    intro k card ui q hc hui hq s hs
    rw [ha.listBox] at hc
    rw [ha.chain] at hq
    rcases Nat.lt_or_ge k r.listBox.length with hlt | hge
    · rw [List.getElem?_append_left hlt] at hc
      rw [List.getElem?_append_left (by rw [← h.length_eq]; exact hlt)] at hq
      rw [ha.uiv, List.getElem?_append_left
        (h.lt_length_uiv (List.mem_iff_getElem?.mpr ⟨k, hc⟩))] at hui
      exact h.controls k card ui q hc hui hq s hs
    · rw [List.getElem?_append_right hge] at hc
      obtain ⟨hklt, hcard⟩ := List.getElem?_eq_some_iff.mp hc
      rw [List.getElem_singleton] at hcard
      have hk : k = r.chain.length := by
        rw [← h.length_eq]
        simp only [List.length_singleton] at hklt
        omega
      rw [← hcard, ha.uiv] at hui
      simp only [List.getElem?_append_right le_rfl, Nat.sub_self, List.getElem?_cons_zero,
        Option.some.injEq] at hui
      rw [hk] at hq
      simp only [List.getElem?_append_right le_rfl, Nat.sub_self, List.getElem?_cons_zero,
        Option.some.injEq] at hq
      rw [← hui] at hs
      rw [← hq]
      exact p.control_lt_of_mem_sliders hs

/-- `Q` holds of every card in the list box and the plugin at its position. -/
def EachCard (r : Rack) (Q : PluginUI → Plugin → Prop) : Prop :=
  ∀ (k card : ℕ) (ui : PluginUI) (p : Plugin), r.listBox[k]? = some card →
    r.uiv[card]? = some ui → r.chain[k]? = some p → Q ui p

/-- The new card is the last, and all others are as they were. -/
theorem Added.eachCard_iff {p : Plugin} {r' : Rack} {Q : PluginUI → Plugin → Prop}
    (ha : Added w r requested entry p r') (h : r.Inv) :
    r'.EachCard Q ↔
      r.EachCard Q ∧ Q (.new p r.chain.length entry.fileType (w.models requested)) p := by
  constructor
  · intro hall
    refine ⟨fun k card ui q hc hui hq => ?_, ?_⟩
    · apply hall k card
      · rw [ha.listBox, List.getElem?_append_left (List.getElem?_eq_some_iff.mp hc).1]
        exact hc
      · rw [ha.uiv, List.getElem?_append_left (List.getElem?_eq_some_iff.mp hui).1]
        exact hui
      · rw [ha.chain, List.getElem?_append_left (List.getElem?_eq_some_iff.mp hq).1]
        exact hq
    · apply hall r.chain.length r.uiv.length
      · rw [ha.listBox, ← h.length_eq]
        simp
      · rw [ha.uiv]
        simp
      · rw [ha.chain]
        simp
  · rintro ⟨hold, hnew⟩ k card ui q hc hui hq
    rw [ha.listBox] at hc
    rw [ha.chain] at hq
    rcases Nat.lt_or_ge k r.chain.length with hlt | hge
    · rw [List.getElem?_append_left (by rw [h.length_eq]; exact hlt)] at hc
      rw [List.getElem?_append_left hlt] at hq
      rw [ha.uiv, List.getElem?_append_left
        (h.lt_length_uiv (List.mem_iff_getElem?.mpr ⟨k, hc⟩))] at hui
      exact hold k card ui q hc hui hq
    · have hk : k = r.chain.length := by
        have := (List.getElem?_eq_some_iff.mp hq).1
        simp only [List.length_append, List.length_singleton] at this
        omega
      subst hk
      rw [← h.length_eq] at hc
      simp only [List.getElem?_concat_length, Option.some.injEq] at hc hq
      rw [← hc, ha.uiv, List.getElem?_concat_length, Option.some.injEq] at hui
      rw [← hui, ← hq]
      exact hnew

/-- What does not depend on the values of a card and its plugin holds on as they change. -/
theorem Touched.eachCard_iff {r' : Rack} {Q : PluginUI → Plugin → Prop} (ht : Touched r r')
    (h : r.Inv) (hQ : ∀ (k : ℕ) ui ui' p p', r.chain[k]? = some p → r'.chain[k]? = some p' →
      ui.SameCard ui' → p.Kin p' → (Q ui' p' ↔ Q ui p)) : r'.EachCard Q ↔ r.EachCard Q := by
  constructor
  · intro hall k card ui p hc hui hp
    obtain ⟨ui', hui', hsame⟩ := ht.sameCard hui
    obtain ⟨p', hp', hkin⟩ := ht.kin hp
    exact (hQ k ui ui' p p' hp hp' hsame hkin).mp
      (hall k card ui' p' (by rw [ht.listBox]; exact hc) hui' hp')
  · intro hall k card ui' p' hc hui' hp'
    rw [ht.listBox] at hc
    obtain ⟨ui, hui⟩ := h.exists_ui (List.mem_iff_getElem?.mpr ⟨k, hc⟩)
    obtain ⟨ui₁, hui₁, hsame⟩ := ht.sameCard hui
    rw [hui', Option.some.injEq] at hui₁
    have hlt : k < r.chain.length := by
      rw [← h.length_eq]
      exact (List.getElem?_eq_some_iff.mp hc).1
    obtain ⟨p₁, hp₁, hkin⟩ := ht.kin (List.getElem?_eq_getElem hlt)
    rw [hp', Option.some.injEq] at hp₁
    subst hui₁ hp₁
    exact (hQ k ui ui' _ p' (List.getElem?_eq_getElem hlt) hp' hsame hkin).mpr
      (hall k card ui _ hc hui (List.getElem?_eq_getElem hlt))

end Add

end Rack

end AmpRack

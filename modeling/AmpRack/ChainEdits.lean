import AmpRack.Engine
import AmpRack.GuardedRun

/-!
# Edits of the plugin chain

Every edit changes the vector `activePlugins` and rebuilds the arrays. `edit` is that common tail;
`edit_eq_ok` says when it succeeds and what it leaves. Each operation of the engine is an instance,
under its own index arithmetic and its own use of the bypass switch.
-/

namespace AmpRack

open VectorEdits

namespace Engine

def buildPluginChain (e : Engine) : Except Fault Engine :=
  (e.processor.build e.activePlugins).map fun pr => { e with processor := pr }

def setBypass (e : Engine) (b : Bool) : Engine :=
  { e with processor := { e.processor with bypass := b } }

/-- An edit of the vector, an index outside it being a fault, and the build after it. -/
def edit (e : Engine) : Option (List Plugin) → Except Fault Engine
  | none => .error .outOfRange
  | some ps => { e with activePlugins := ps }.buildPluginChain

/-- `new Plugin` always makes an object; one that lilv cannot instantiate is dropped. -/
def addPlugin (w : World) (e : Engine) (uri : Text) : Except Fault (Engine × Bool) :=
  let plugin := Plugin.new w e.nextId uri
  let e := { e with nextId := e.nextId + 1 }.setBypass true
  if plugin.uri.isSome then
    (e.edit (some (e.activePlugins ++ [plugin]))).map fun e => (e.setBypass false, true)
  else .ok (e.setBypass false, false)

/-- The comparison is made in `size_t`, where a negative `p` is no index either. -/
def moveActivePluginDown (e : Engine) (p : ℤ) : Except Fault (Engine × ℤ) :=
  if p = e.activePlugins.length then .ok (e, p)
  else (e.edit (rotate e.activePlugins p (p + 1) (p + 2))).map fun e => (e, p + 1)

def moveActivePluginUp (e : Engine) (p : ℤ) : Except Fault (Engine × ℤ) :=
  if p = 0 then .ok (e, p)
  else ((e.setBypass true).edit (rotate e.activePlugins (p - 1) p (p + 1))).map
    fun e => (e.setBypass false, p - 1)

/-- The engine's part of the Delete callback. -/
def erasePlugin (e : Engine) (i : ℤ) : Except Fault Engine := e.edit (eraseAt e.activePlugins i)

/-- The engine's part of the on/off callback. -/
def setActive (e : Engine) (i : ℤ) (value : Bool) : Except Fault Engine :=
  e.edit (modifyAt e.activePlugins i fun p => { p with active := value })

/-- The engine's part of `Rack::clear`. -/
def clear (e : Engine) : Except Fault Engine := e.edit (some [])

/-- The chain `ps` is in place, with the arrays and the switches as an edit of `e` leaves them. -/
structure Edited (e : Engine) (ps : List Plugin) (e' : Engine) : Prop where
  chain : e'.activePlugins = ps
  mirrors : e'.processor.Mirrors ps
  bypass : e'.processor.bypass = e.processor.bypass
  recording : e'.processor.recording = e.processor.recording
  nextId : e'.nextId = e.nextId

def Fits (ps : List Plugin) : Prop := (switchedOn ps).length ≤ MAX_PLUGINS

instance (ps : List Plugin) : Decidable (Fits ps) := inferInstanceAs (Decidable (_ ≤ _))

theorem edit_some {e : Engine} {ps : List Plugin} (h : Fits ps) :
    ∃ e', e.edit (some ps) = .ok e' ∧ e.Edited ps e' := by
  obtain ⟨pr, hpr, hb⟩ := e.processor.build_ok h
  refine ⟨{ e with activePlugins := ps, processor := pr }, ?_,
    rfl, hb.mirrors, hb.bypass, hb.recording, rfl⟩
  simp only [edit, buildPluginChain, hpr]
  rfl

theorem edit_eq_ok {e e' : Engine} {ps? : Option (List Plugin)} (h : e.edit ps? = .ok e') :
    ∃ ps, ps? = some ps ∧ Fits ps ∧ e.Edited ps e' := by
  cases ps? with
  | none => cases h
  | some ps =>
    by_cases hfit : Fits ps
    · obtain ⟨e₁, he₁, hed⟩ := edit_some (e := e) hfit
      rw [h] at he₁
      cases he₁
      exact ⟨ps, rfl, hfit, hed⟩
    · simp only [edit, buildPluginChain, e.processor.build_overflow (not_le.mp hfit)] at h
      cases h

/-- The state of an engine between two operations of the user. -/
structure Settled (e : Engine) : Prop where
  mirrors : e.processor.Mirrors e.activePlugins
  running : e.processor.bypass = false
  fits : Fits e.activePlugins

theorem settled_empty : Settled {} :=
  ⟨Processor.mirrors_nil rfl, rfl, Nat.zero_le _⟩

/-- The chain is `ps` and the engine is settled; switches and the object count are those of `e`. -/
structure Became (e : Engine) (ps : List Plugin) (e' : Engine) : Prop where
  chain : e'.activePlugins = ps
  settled : Settled e'
  recording : e'.processor.recording = e.processor.recording
  nextId : e'.nextId = e.nextId

theorem Became.refl {e : Engine} (hs : Settled e) : e.Became e.activePlugins e := ⟨rfl, hs, rfl, rfl⟩

theorem Edited.became {e e' : Engine} {ps : List Plugin} (h : e.Edited ps e') (hfit : Fits ps)
    (hs : Settled e) : e.Became ps e' :=
  ⟨h.chain, ⟨by rw [h.chain]; exact h.mirrors, h.bypass.trans hs.running, by rw [h.chain]; exact hfit⟩,
    h.recording, h.nextId⟩

/-- An edit made between switching the bypass on and off. -/
theorem Edited.became_setBypass {e e' : Engine} {ps : List Plugin} (hfit : Fits ps)
    (h : (e.setBypass true).Edited ps e') : e.Became ps (e'.setBypass false) := by
  refine ⟨h.chain, ⟨?_, rfl, ?_⟩, h.recording, h.nextId⟩
  · change Processor.Mirrors _ e'.activePlugins
    rw [h.chain]
    exact h.mirrors.setBypass false
  · change Fits e'.activePlugins
    rw [h.chain]
    exact hfit

theorem fits_of_perm {ps qs : List Plugin} (h : ps.Perm qs) (hfit : Fits qs) : Fits ps := by
  unfold Fits at *
  rwa [switchedOn, (h.filter _).length_eq]

theorem fits_of_sublist {ps qs : List Plugin} (h : ps.Sublist qs) (hfit : Fits qs) : Fits ps :=
  (h.filter _).length_le.trans hfit

theorem fits_concat {ps : List Plugin} {p : Plugin} (h : p.active = true) :
    Fits (ps ++ [p]) ↔ (switchedOn ps).length < MAX_PLUGINS := by
  simp only [Fits, switchedOn_append, switchedOn_cons_of_active h, switchedOn_nil,
    List.length_append, List.length_singleton]
  omega

theorem map_eq_ok {α β : Type*} {x : Except Fault α} {f : α → β} {b : β}
    (h : x.map f = .ok b) : ∃ a, x = .ok a ∧ f a = b := by
  cases x with
  | error e => cases h
  | ok a => exact ⟨a, rfl, by injection h⟩

theorem ok_ne_error {α : Type*} {a : α} {f : Fault} : (.ok a : Except Fault α) ≠ .error f := by
  intro h
  cases h

theorem map_ne_error_iff {α β : Type*} {x : Except Fault α} {g : α → β} {f : Fault} :
    x.map g ≠ .error f ↔ x ≠ .error f := by
  cases x with
  | error f' => exact ⟨fun h he => h (by cases he; rfl), fun h he => h (by cases he; rfl)⟩
  | ok a => exact iff_of_true ok_ne_error ok_ne_error

section Operations

variable {w : World} {e e' : Engine} {uri : Text} {b : Bool} {p q : ℤ}

theorem addPlugin_of_none (hs : Settled e) (h : w.lilv uri = none) :
    e.addPlugin w uri = .ok ({ e with nextId := e.nextId + 1 }, false) := by
  have hb : ({ e.processor with bypass := false } : Processor) = e.processor := by
    conv_rhs => rw [show e.processor = { e.processor with bypass := e.processor.bypass } from rfl,
      hs.running]
  have huri : (Plugin.new w e.nextId uri).uri.isSome = false := by
    rw [Plugin.new_uri_isSome, h]
    rfl
  simp only [addPlugin, huri, Bool.false_eq_true, if_false, setBypass, hb]

theorem addPlugin_of_some (h : (w.lilv uri).isSome)
    (hroom : (switchedOn e.activePlugins).length < MAX_PLUGINS) :
    ∃ e', e.addPlugin w uri = .ok (e', true) ∧
      { e with nextId := e.nextId + 1 }.Became
        (e.activePlugins ++ [Plugin.new w e.nextId uri]) e' := by
  have hfit := (fits_concat (Plugin.new_active w e.nextId uri)).mpr hroom
  obtain ⟨e', he', hed⟩ :=
    edit_some (e := { e with nextId := e.nextId + 1 }.setBypass true) hfit
  rw [← Plugin.new_uri_isSome w e.nextId] at h
  refine ⟨e'.setBypass false, ?_, hed.became_setBypass hfit⟩
  simp only [addPlugin, h, if_true]
  exact congrArg (Except.map _) he'

theorem addPlugin_room (h : e.addPlugin w uri = .ok (e', b)) (huri : (w.lilv uri).isSome) :
    (switchedOn e.activePlugins).length < MAX_PLUGINS := by
  rw [← Plugin.new_uri_isSome w e.nextId] at huri
  simp only [addPlugin, huri, if_true] at h
  obtain ⟨e₁, he₁, -⟩ := map_eq_ok h
  obtain ⟨ps, hps, hfit, -⟩ := edit_eq_ok he₁
  cases hps
  exact (fits_concat (Plugin.new_active w e.nextId uri)).mp hfit

theorem moveActivePluginDown_of_lt (hs : Settled e) {i : ℕ} (h : i + 1 < e.activePlugins.length) :
    ∃ e', e.moveActivePluginDown i = .ok (e', i + 1) ∧ e.Became (exchange e.activePlugins i) e' := by
  have hfit := fits_of_perm (exchange_perm e.activePlugins h) hs.fits
  obtain ⟨e', he', hed⟩ := edit_some (e := e) hfit
  refine ⟨e', ?_, hed.became hfit hs⟩
  rw [moveActivePluginDown, if_neg (by omega), rotate_eq_exchange _ h, he']
  rfl

theorem moveActivePluginDown_eq_ok (h : e.moveActivePluginDown p = .ok (e', q)) :
    p = e.activePlugins.length ∨ ∃ i : ℕ, p = i ∧ i + 1 < e.activePlugins.length := by
  unfold moveActivePluginDown at h
  split_ifs at h with hp
  · exact .inl hp
  · obtain ⟨e₁, he₁, -⟩ := map_eq_ok h
    obtain ⟨ps, hps, -, -⟩ := edit_eq_ok he₁
    obtain ⟨i, hi, hlt, -⟩ := rotate_eq_some rfl rfl hps
    exact .inr ⟨i, hi, hlt⟩

theorem moveActivePluginUp_of_lt (hs : Settled e) {i : ℕ} (h : i + 1 < e.activePlugins.length) :
    ∃ e', e.moveActivePluginUp (i + 1) = .ok (e', i) ∧ e.Became (exchange e.activePlugins i) e' := by
  have hfit := fits_of_perm (exchange_perm e.activePlugins h) hs.fits
  obtain ⟨e', he', hed⟩ := edit_some (e := e.setBypass true) hfit
  refine ⟨e'.setBypass false, ?_, hed.became_setBypass hfit⟩
  have hr : rotate e.activePlugins (i + 1 - 1) (i + 1) (i + 1 + 1) =
      some (exchange e.activePlugins i) := by
    rw [← rotate_eq_exchange _ h]
    congr 1
    omega
  rw [moveActivePluginUp, if_neg (by omega), hr, he']
  simp [Except.map]

theorem moveActivePluginUp_eq_ok (h : e.moveActivePluginUp p = .ok (e', q)) :
    p = 0 ∨ ∃ i : ℕ, p = i + 1 ∧ i + 1 < e.activePlugins.length := by
  unfold moveActivePluginUp at h
  split_ifs at h with hp
  · exact .inl hp
  · obtain ⟨e₁, he₁, -⟩ := map_eq_ok h
    obtain ⟨ps, hps, -, -⟩ := edit_eq_ok he₁
    obtain ⟨i, hi, hlt, -⟩ := rotate_eq_some (by omega) (by omega) hps
    exact .inr ⟨i, by omega, hlt⟩

theorem erasePlugin_of_lt (hs : Settled e) {i : ℕ} (h : i < e.activePlugins.length) :
    ∃ e', e.erasePlugin i = .ok e' ∧ e.Became (e.activePlugins.eraseIdx i) e' := by
  have hfit := fits_of_sublist (List.eraseIdx_sublist e.activePlugins i) hs.fits
  obtain ⟨e', he', hed⟩ := edit_some (e := e) hfit
  refine ⟨e', ?_, hed.became hfit hs⟩
  rw [erasePlugin, eraseAt_natCast, if_pos h, he']

theorem erasePlugin_eq_ok (h : e.erasePlugin p = .ok e') :
    ∃ i : ℕ, p = i ∧ i < e.activePlugins.length := by
  obtain ⟨ps, hps, -, -⟩ := edit_eq_ok h
  obtain ⟨i, hi, hlt, -⟩ := eraseAt_eq_some hps
  exact ⟨i, hi, hlt⟩

/-- The chain with the switch of one plugin set. -/
def switch (ps : List Plugin) (i : ℕ) (value : Bool) : List Plugin :=
  ps.modify i fun p => { p with active := value }

theorem setActive_of_lt (hs : Settled e) {i : ℕ} (h : i < e.activePlugins.length) {value : Bool}
    (hfit : Fits (switch e.activePlugins i value)) :
    ∃ e', e.setActive i value = .ok e' ∧ e.Became (switch e.activePlugins i value) e' := by
  obtain ⟨e', he', hed⟩ := edit_some (e := e) hfit
  refine ⟨e', ?_, hed.became hfit hs⟩
  rw [setActive, modifyAt_natCast, if_pos h]
  exact he'

theorem setActive_eq_ok {value : Bool} (h : e.setActive p value = .ok e') :
    ∃ i : ℕ, p = i ∧ i < e.activePlugins.length ∧ Fits (switch e.activePlugins i value) := by
  obtain ⟨ps, hps, hfit, -⟩ := edit_eq_ok h
  obtain ⟨i, hi, hlt, rfl⟩ := modifyAt_eq_some hps
  exact ⟨i, hi, hlt, hfit⟩

theorem clear_ok (hs : Settled e) : ∃ e', e.clear = .ok e' ∧ e.Became [] e' := by
  have hfit : Fits [] := Nat.zero_le _
  obtain ⟨e', he', hed⟩ := edit_some (e := e) hfit
  exact ⟨e', he', hed.became hfit hs⟩

end Operations

end Engine

end AmpRack

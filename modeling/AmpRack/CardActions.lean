import AmpRack.ReadyCards

/-!
# What the widgets of a card act on

Every callback of a card finds its plugin through one of the card's copies of the index:
`CardAction.index` is that copy, `Rack.act` the callback. `ActionsOwn` says that in a state every
action of every card in the rack goes through, and reads and changes the plugin of the card and no
other. Moves renew some of the copies only, and a deletion none, so `ActionOk` leaves little room.
-/

namespace AmpRack

open VectorEdits BoxOrder GuardedRun Engine Plugin

/-- `slide` is `control_changed`, `openFile` the answer to a file dialog and `selectModel` a choice
in the drop down list of models. -/
inductive CardAction
  | slide (realized : Bool) (slider : ℕ) (value : ℚ)
  | switch (value : Bool)
  | delete
  | openFile (filename : Text)
  | selectModel (path : Text)
  deriving DecidableEq

/-- The file type that `on_response` finds behind `pType`: it takes a title for that of an atom
port. -/
def PluginUI.responseType (titled : Bool) (ui : PluginUI) : ℤ :=
  if titled then FILE_ATOM else ui.pType

/-- The index into `activePlugins` that the callback uses, if the card has the widget. Every dialog
has a title, and so its answer goes to `set_atom_port`. -/
def CardAction.index (ui : PluginUI) : CardAction → Option ℤ
  | slide realized slider _ =>
    if slider < ui.sliders.length then some (ui.getIndex realized) else none
  | switch _ => if ui.sliders = [] then none else some ui.cdIndex
  | delete => some ui.cdIndex
  | openFile _ => some ui.index
  | selectModel path => if ui.hasFileChooser ∧ path ∈ ui.models then some ui.index else none

namespace Rack

/-- `set_atom_port` is given the first character of the title. -/
def onResponse (w : Installation) (r : Rack) (card : ℕ) (titled : Bool) (filename : Text) :
    Except Fault Rack :=
  match r.uiv[card]? with
  | none => .ok r
  | some ui =>
    (if ui.responseType titled = FILE_AUDIO then r.engine.setPluginAudioFile w ui.indexP filename
    else if ui.responseType titled = FILE_JSON then r.engine.setPluginFile ui.index filename
    else if titled then r.engine.setAtomPort ui.index
    else .error .nullTitle).map fun engine => { r with
      uiv := r.uiv.modify card fun ui => { ui with pType := ui.responseType titled }
      engine := engine }

def selectModel (w : Installation) (r : Rack) (card : ℕ) (path : Text) : Except Fault Rack :=
  match r.uiv[card]? with
  | none => .ok r
  | some ui =>
    match at? r.chain ui.index with
    | none => .error .outOfRange
    | some plugin =>
      (if plugin.loadedFileType ≠ 0 then r.engine.setPluginFile ui.index path
      else r.engine.setPluginAudioFile w ui.index path).map fun engine => { r with engine := engine }

/-- `ui_file_chooser` makes its dialog with a title. -/
def act (w : Installation) (r : Rack) (card : ℕ) : CardAction → Except Fault Rack
  | .slide realized slider value =>
    match r.uiv[card]?.bind (·.sliders[slider]?) with
    | none => .ok r
    | some s => r.controlChanged realized card s.control value
  | .switch value => r.toggle card value
  | .delete => r.delete card
  | .openFile filename => r.onResponse w card true filename
  | .selectModel path => r.selectModel w card path

/-- The plugins other than the object `id`. -/
def others (id : ℕ) (ps : List Plugin) : List Plugin := ps.filter (·.id ≠ id)

/-- With `ps` in the chain, there is a slot for every plugin that the switch of its card turns on. -/
def SwitchesFit (r : Rack) (ps : List Plugin) : Prop :=
  ∀ card ∈ r.listBox, ∀ ui (i : ℕ), r.uiv[card]? = some ui → ui.sliders ≠ [] → ui.cdIndex = i →
    Fits (switch ps i true)

section Frame

variable {id k : ℕ} {p q : Plugin} {ps : List Plugin}

end Frame

section Hits

variable {w : Installation} {r : Rack} {card k : ℕ} {ui : PluginUI} {p : Plugin} {a : CardAction}

end Hits

section Room

variable {ps qs : List Plugin} {i : ℕ}

/-- Only the switches decide how many slots are taken. -/
theorem fits_congr (h : ps.map (·.active) = qs.map (·.active)) : Fits ps ↔ Fits qs := by
  have hcount (ps : List Plugin) : (switchedOn ps).length = (ps.map (·.active)).countP id := by
    rw [List.countP_map, switchedOn, List.countP_eq_length_filter]
    rfl
  rw [Fits, Fits, hcount, hcount, h]

theorem map_active_switch (ps : List Plugin) (i : ℕ) (value : Bool) :
    (switch ps i value).map (·.active) = (ps.map (·.active)).modify i fun _ => value := by
  have hset (p : Plugin) : ({ p with active := value } : Plugin).active =
      (fun _ => value) p.active := rfl
  exact map_modify hset ps i

/-- Switching a plugin on that is on already changes nothing. -/
theorem fits_switch_of_active {p : Plugin} (hp : ps[i]? = some p) (hactive : p.active = true) :
    Fits (switch ps i true) ↔ Fits ps := by
  apply fits_congr
  obtain ⟨l, r, rfl, rfl⟩ := exists_append_of_getElem? hp
  rw [switch, modify_append_cons, List.map_append, List.map_append, List.map_cons, List.map_cons,
    hactive]

theorem SwitchesFit.congr {r : Rack} (h : ps.map (·.active) = qs.map (·.active)) :
    r.SwitchesFit ps ↔ r.SwitchesFit qs := by
  refine forall_congr' fun card => forall_congr' fun _ => forall_congr' fun ui =>
    forall_congr' fun i => forall_congr' fun _ => forall_congr' fun _ => forall_congr' fun _ => ?_
  apply fits_congr
  rw [map_active_switch, map_active_switch, h]

end Room

section Aligned

variable {w : Installation} {r r' : Rack} {card : ℕ} {ui : PluginUI}

theorem Aligned.getIndex (h : r.Aligned) {k i : ℕ} {s : Slider} (hk : r.listBox[k]? = some card)
    (hui : r.uiv[card]? = some ui) (hs : ui.sliders[i]? = some s) (realized : Bool) :
    ui.getIndex realized = k := by
  obtain ⟨h1, -, -, h4⟩ := h.index k card ui hk hui
  have hne : ui.sliders ≠ [] := List.ne_nil_of_mem (List.mem_of_getElem? hs)
  cases realized
  · exact h1
  · simp only [PluginUI.getIndex, h4 hne]
    simp

/-- Every action of every card goes through and hits its own plugin. -/
structure Owned (w : Installation) (r : Rack) : Prop extends Aligned r where
  written : Written w r
  ready : r.EachCard (CardReady w)
  switches : r.SwitchesFit r.chain

/-- A plugin is made with its switch on. -/
theorem Added.active {requested : Text} {entry : CatalogueEntry} {p : Plugin}
    (ha : Added w r requested entry p r') : p.active = true :=
  ha.kin.active.trans (Plugin.new_active _ _ _)

theorem Added.switchesFit_iff {requested : Text} {entry : CatalogueEntry} {p : Plugin}
    (ha : Added w r requested entry p r') :
    r.SwitchesFit (r.chain ++ [Plugin.new w.toWorld r.engine.nextId entry.library]) ↔
      r.SwitchesFit r'.chain := by
  apply SwitchesFit.congr
  rw [ha.chain]
  simp [ha.active]

theorem Owned.of_added {requested : Text} {entry : CatalogueEntry} {p : Plugin} (h : Owned w r)
    (hsome : (w.lilv entry.library).isSome) (ha : Added w r requested entry p r')
    (hname : r.chain.length < 80 ∨
      (Plugin.new w.toWorld r.engine.nextId entry.library).sliders = [])
    (husable : Usable w r.engine.nextId requested entry)
    (hswitches : r.SwitchesFit
      (r.chain ++ [Plugin.new w.toWorld r.engine.nextId entry.library])) : Owned w r' where
  toAligned := by
    apply ha.aligned h.toAligned
    rwa [Plugin.sliders, ha.controls]
  written := h.written.of_added hsome ha
  ready := (ha.eachCard_iff h.toInv).mpr ⟨h.ready, ha.cardReady_iff.mpr husable⟩
  switches := by
    rw [ha.switchesFit_iff] at hswitches
    intro card hmem ui i hui hne hi
    rw [ha.uiv] at hui
    rw [ha.listBox] at hmem
    rcases List.mem_append.mp hmem with hmem | hmem
    · rw [List.getElem?_append_left (h.lt_length_uiv hmem)] at hui
      exact hswitches card hmem ui i hui hne hi
    · rw [List.mem_singleton.mp hmem, List.getElem?_concat_length, Option.some.injEq] at hui
      have hlen : r.chain.length = i := by
        rw [← hui] at hi
        exact Nat.cast_inj.mp hi
      have hp : r'.chain[r.chain.length]? = some p := by rw [ha.chain]; simp
      rw [← hlen, fits_switch_of_active hp ha.active]
      exact ha.settled.fits

end Aligned

section Own

variable {w : Installation} {r r' : Rack} {card k : ℕ} {box : List ℕ} {ps : List Plugin}

end Own

end Rack

end AmpRack

import AmpRack.BoxOrder
import AmpRack.ChainEdits
import AmpRack.JsonText
import AmpRack.PluginUI

/-!
# The rack

The order of the cards is kept by the list box, by `plugs` and by `uiv`, and the chain has its own.
A card is named by its place in `uiv`, from which nothing is ever removed. `Rack.step` runs one
operation of the user; an operation of a card that is no longer in the list box does nothing, as its
buttons are gone.
-/

namespace AmpRack

open VectorEdits BoxOrder TextScan JsonText

/-- An entry of `lv2_plugins.json`, in the order of the keys; `fileType` is present when the entry
has a `file`. -/
structure CatalogueEntry where
  name : Text
  library : Text
  fileType : Option ℤ := none

/-- `readable` are the files `snd_read` can open, and `models` the paths of what the directory of
models of a plugin name holds. -/
structure Installation extends World where
  catalogue : List CatalogueEntry := []
  readable : Text → Bool := fun _ => false
  models : Text → List Text := fun _ => []

/-- One entry of `controls` in a preset, with its `filename` and `filetype` if it has them. -/
structure PresetEntry where
  name : Text
  controls : Text
  file : Option (Text × ℤ) := none

/-- `entries` are in the order of the keys. -/
structure Preset where
  name : Text
  desc : Text := []
  entries : List PresetEntry := []

namespace Plugin

/-- `* pluginControls . at (control) -> def = val`. -/
def setDef (p : Plugin) (control : ℕ) (val : ℚ) : Plugin :=
  { p with pluginControls := p.pluginControls.modify control fun c => { c with defValue := some val } }

/-- A plugin whose type is not `LV2` is called through `descriptor`. The buffer is outside the model. -/
def setBuffer (p : Plugin) : Except Fault Unit :=
  if p.descriptor.isSome ∧ p.handle.isSome then .ok () else .error .uninitialised

/-- `lv2Descriptor -> connect_port (handle, ..)`; the constructor sets `lv2Descriptor`. -/
def connectPort (p : Plugin) : Except Fault Unit :=
  if p.handle.isSome then .ok () else .error .uninitialised

def setFile (p : Plugin) (filename : Text) (type : ℤ) : Plugin :=
  { p with loadedFileName := filename, loadedFileType := type }

/-- The type that the catalogue declares, if it declares one. -/
def declareFileType (p : Plugin) : Option ℤ → Plugin
  | none => p
  | some type => { p with loadedFileType := type }

end Plugin

namespace Engine

/-- Change the plugin `activePlugins -> at (index)`. -/
def modifyPlugin (e : Engine) (index : ℤ) (f : Plugin → Plugin) : Except Fault Engine :=
  match modifyAt e.activePlugins index f with
  | none => .error .outOfRange
  | some ps => .ok { e with activePlugins := ps }

/-- Hand a file to the plugin at the index by `connect`, and store its name and type. -/
def setFile (e : Engine) (index : ℤ) (connect : Plugin → Except Fault Unit) (filename : Text)
    (type : ℤ) : Except Fault Engine :=
  match at? e.activePlugins index with
  | none => .error .outOfRange
  | some p => (connect p).bind fun _ =>
      ((e.setBypass true).modifyPlugin index (·.setFile filename type)).map (·.setBypass false)

/-- The copy of the file is made by `loadModel`. -/
def setPluginAudioFile (w : Installation) (e : Engine) (index : ℤ) (filename : Text) :
    Except Fault Engine :=
  if w.readable filename then e.setFile index Plugin.setBuffer filename 0 else .ok e

def setPluginFile (e : Engine) (index : ℤ) (filename : Text) : Except Fault Engine :=
  e.setFile index Plugin.connectPort filename 1

/-- A plugin of the URI constructor has no `filePort`, so `setAtomPortValue` returns at once. -/
def setAtomPort (e : Engine) (index : ℤ) : Except Fault Engine :=
  ((e.setBypass true).modifyPlugin index fun p => { p with loadedFileType := 2 }).map
    (·.setBypass false)

end Engine

structure Rack where
  engine : Engine := {}
  listBox : List ℕ := []
  plugs : List ℕ := []
  uiv : List PluginUI := []

namespace Rack

def chain (r : Rack) : List Plugin := r.engine.activePlugins

def setIndex (r : Rack) (card : ℕ) (index : ℤ) : Rack :=
  { r with uiv := r.uiv.modify card fun ui => { ui with widgetName := signedChar (index + 48) } }

/-- The first entry of the catalogue whose name, dumped and stripped of its quotes, is `requested`. -/
def lookup (w : Installation) (requested : Text) : Option CatalogueEntry :=
  w.catalogue.find? fun entry => strip (dump (.str entry.name)) == requested

/-- The new card stands at the end of every list. -/
def appendCard (r : Rack) (ui : PluginUI) : Rack :=
  { r with
    listBox := r.listBox ++ [r.uiv.length]
    plugs := r.plugs ++ [r.uiv.length]
    uiv := r.uiv ++ [ui] }

/-- The card added, if the plugin could be loaded. `ladspaJson` is empty. -/
def addPluginByName (w : Installation) (r : Rack) (requested : Text) :
    Except Fault (Rack × Option ℕ) :=
  match lookup w requested with
  | none => .ok (r, none)
  | some entry =>
    match r.engine.addPlugin w.toWorld entry.library with
    | .error f => .error f
    | .ok (engine, false) => .ok ({ r with engine := engine }, none)
    | .ok (engine, true) =>
      let index := engine.activePlugins.length - 1
      let ps := engine.activePlugins.modify index (·.declareFileType entry.fileType)
      match ps[index]? with
      | none => .error .outOfRange
      | some plugin =>
        .ok ({ r with engine := { engine with activePlugins := ps } }.appendCard
          (.new plugin index entry.fileType (w.models requested)), some r.uiv.length)

def moveDown (r : Rack) (card : ℕ) : Except Fault Rack :=
  match r.uiv[card]? with
  | none => .ok r
  | some ui =>
    -- a negative index is larger than any size once it is compared in `size_t`
    if ui.index < 0 ∨ (r.chain.length : ℤ) ≤ ui.index then .ok r
    else
      let upper := nextSibling card r.listBox
      match r.engine.moveActivePluginDown ui.index with
      | .error f => .error f
      | .ok (engine, _) =>
        let r := { r with
          listBox := reorderChildAfter r.listBox card upper
          engine := engine }.setIndex card (ui.index + 1)
        let r := upper.elim r fun upper => r.setIndex upper ui.index
        match modifyAt r.uiv (ui.index + 1) fun ui => { ui with index := ui.index - 1 } with
        | none => .error .outOfRange
        | some uiv =>
          .ok { r with uiv := uiv.modify card fun ui => { ui with index := ui.index + 1 } }

def moveUp (r : Rack) (card : ℕ) : Except Fault Rack :=
  match r.uiv[card]? with
  | none => .ok r
  | some ui =>
    if ui.index = 0 then .ok r
    else
      let upper := prevSibling card r.listBox
      match r.engine.moveActivePluginUp ui.index with
      | .error f => .error f
      | .ok (engine, _) =>
        let r := { r with
          -- without a sibling in front there is no child to reorder
          listBox := upper.elim r.listBox fun upper => reorderChildAfter r.listBox upper (some card)
          engine := engine }.setIndex card (ui.index - 1)
        let r := upper.elim r fun upper => r.setIndex upper ui.index
        match modifyAt r.uiv (ui.index + 1) fun ui => { ui with index := ui.index + 1 } with
        | none => .error .outOfRange
        | some uiv =>
          .ok { r with uiv := uiv.modify card fun ui => { ui with index := ui.index - 1 } }

/-- The Delete callback, `callback`. -/
def delete (r : Rack) (card : ℕ) : Except Fault Rack :=
  match r.uiv[card]? with
  | none => .ok r
  | some ui => (r.engine.erasePlugin ui.cdIndex).map fun engine =>
      { r with listBox := r.listBox.erase card, engine := engine }

/-- The on/off callback `bypass` is connected once for every slider. -/
def toggle (r : Rack) (card : ℕ) (value : Bool) : Except Fault Rack :=
  match r.uiv[card]? with
  | none => .ok r
  | some ui =>
    if ui.sliders = [] then .ok r
    else (r.engine.setActive ui.cdIndex value).map fun engine => { r with engine := engine }

def clear (r : Rack) : Except Fault Rack :=
  r.engine.clear.map fun engine =>
    { r with listBox := r.listBox.filter (· ∉ r.plugs), plugs := [], engine := engine }

/-- `control_changed` for the slider of a control of the card: `float val` takes the value of the
adjustment. -/
def controlChanged (realized : Bool) (r : Rack) (card control : ℕ) (val : ℚ) : Except Fault Rack :=
  match r.uiv[card]? with
  | none => .ok r
  | some ui =>
    match at? r.chain (ui.getIndex realized) with
    | none => .error .outOfRange
    | some plugin =>
      match plugin.pluginControls[control]? with
      | none => .error .outOfRange
      | some c =>
        match c.defValue with
        | none => .error .nullDef
        | some _ => (r.engine.modifyPlugin (ui.getIndex realized)
            (·.setDef control (BinaryFormat.binary32.round val))).map
              fun engine => { r with engine := engine }

/-- `gtk_range_set_value` on slider `i` of the card. -/
def rangeSetValue (realized : Bool) (r : Rack) (card i : ℕ) (f : Floating) : Except Fault Rack :=
  match r.uiv[card]?.bind (·.sliders[i]?) with
  | none => .ok r
  | some s =>
    if s.settle f = s.value then .ok r
    else
      { r with uiv := r.uiv.modify card (·.setSlider i (s.settle f)) }.controlChanged realized card
        s.control (s.settle f)

/-- `PluginUI::load_preset`: a value for each slider, as far as there are both. -/
def loadControls (realized : Bool) (r : Rack) (card : ℕ) (controls : Text) : Except Fault Rack :=
  ((getlines ';' controls).map readFloat).zipIdx.foldlM
    (fun r v => r.rangeSetValue realized card v.2 v.1) r

def loadFile (w : Installation) (r : Rack) (index : ℤ) : Option (Text × ℤ) → Except Fault Rack
  | none => .ok r
  | some (filename, filetype) =>
    (if filetype = 0 then
      r.engine.setPluginAudioFile w index (strip (dump (.str filename)))
    else r.engine.setPluginFile index (strip (dump (.str filename)))).map
      fun engine => { r with engine := engine }

/-- One turn of the loop of `Rack::load_preset`, with the count of entries that loaded. -/
def loadEntry (w : Installation) (realized : Bool) (s : Rack × ℕ) (entry : PresetEntry) :
    Except Fault (Rack × ℕ) := do
  match ← s.1.addPluginByName w (strip (dump (.str entry.name))) with
  | (r, none) => return (r, s.2)
  | (r, some card) =>
    let r ← r.loadControls realized card (strip (dump (.str entry.controls)))
    let r ← r.loadFile w s.2 entry.file
    return (r, s.2 + 1)

/-- `realized` says whether the window is on the screen, which `PluginUI::get_index` asks. -/
def loadPreset (w : Installation) (realized : Bool) (r : Rack) (p : Preset) :
    Except Fault Rack := do
  let r ← r.clear
  let s ← p.entries.foldlM (loadEntry w realized) (r, 0)
  return s.1

inductive Op
  | addPluginByName (requested : Text)
  | delete (card : ℕ)
  | moveUp (card : ℕ)
  | moveDown (card : ℕ)
  | toggle (card : ℕ) (value : Bool)
  | clear
  | loadPreset (realized : Bool) (p : Preset)

def step (w : Installation) (r : Rack) : Op → Except Fault Rack
  | .addPluginByName requested => (r.addPluginByName w requested).map Prod.fst
  | .delete card => if card ∈ r.listBox then r.delete card else .ok r
  | .moveUp card => if card ∈ r.listBox then r.moveUp card else .ok r
  | .moveDown card => if card ∈ r.listBox then r.moveDown card else .ok r
  | .toggle card value => if card ∈ r.listBox then r.toggle card value else .ok r
  | .clear => r.clear
  | .loadPreset realized p => r.loadPreset w realized p

/-- The plugin object a card was created for. -/
def owner (r : Rack) (card : ℕ) : Option ℕ := r.uiv[card]?.map (·.plugin)

/-- The `k`-th card was created for the `k`-th plugin, and there are as many of each. -/
def Corresponds (r : Rack) : Prop := r.listBox.map r.owner = r.chain.map fun p => some p.id

instance (r : Rack) : Decidable r.Corresponds := inferInstanceAs (Decidable (_ = _))

end Rack

end AmpRack

import AmpRack.Plugin
import AmpRack.VectorEdits
import AmpRack.FloatText
import Mathlib.Data.List.Forall2

/-!
# The card of a plugin

A card keeps the position of its plugin in several copies: `index`, `*index_p`, the `index` of the
callback data of its buttons and sliders, and the first character of its widget name. It has a
slider for every control whose type is not `ATOM`, which therefore includes the LV2 atom ports.

A slider is a `GtkRange`: setting it clamps the value to its bounds and announces it if it changed.
The value of a slider is a `double`, so it need not be a `float`.
-/

namespace AmpRack

open TextScan

structure Slider where
  control : ℕ
  value : ℚ
  min : ℚ
  max : ℚ
  deriving DecidableEq

/-- `gtk_adjustment_set_value` with a page of size zero. -/
def Slider.clamp (s : Slider) (v : ℚ) : ℚ :=
  if Max.max s.min s.max < v then Max.max s.min s.max
  else if v < s.min then s.min
  else v

/-- `gtk_range_set_value` takes the minimum of the value and the fill level, which is the largest
`double`; `nan` is not smaller than that, so it goes to the upper end. -/
def Slider.settle (s : Slider) : Floating → ℚ
  | .number v => s.clamp v
  | .infinite true => s.min
  | .infinite false => Max.max s.min s.max
  | .nan => Max.max s.min s.max

/-- `gtk_adjustment_new` clamps the value it is given. -/
def Slider.new (control : ℕ) (c : PluginControl) : Slider :=
  let s : Slider := ⟨control, c.val, c.min, c.max⟩
  { s with value := s.clamp c.val }

def FILE_AUDIO : ℤ := 0

def FILE_JSON : ℤ := 1

def FILE_ATOM : ℤ := 2

/-- `plugin` is the object the card was created for, `cdIndex` the index of its callback data and
`widgetName` the first byte of its name as a `char`. A card with a file chooser offers the files that
were in the directory of models when it was made. -/
structure PluginUI where
  plugin : ℕ
  index : ℤ
  indexP : ℤ
  cdIndex : ℤ
  widgetName : ℤ
  hasFileChooser : Bool := false
  pType : ℤ := FILE_AUDIO
  models : List Text := []
  sliders : List Slider := []
  deriving DecidableEq

/-- The value of a byte as a signed `char`. -/
def signedChar (i : ℤ) : ℤ := (i + 128) % 256 - 128

theorem signedChar_add_48 {i : ℤ} (h0 : 0 ≤ i) (h : i < 80) : signedChar (i + 48) = i + 48 := by
  unfold signedChar
  omega

def sliderOf (c : PluginControl) (i : ℕ) : Option Slider :=
  if c.type = .atom then none else some (.new i c)

def Plugin.sliders (p : Plugin) : List Slider :=
  p.pluginControls.zipIdx.filterMap fun c => sliderOf c.1 c.2

theorem Plugin.control_lt_of_mem_sliders {p : Plugin} {s : Slider} (h : s ∈ p.sliders) :
    s.control < p.pluginControls.length := by
  obtain ⟨⟨c, i⟩, hc, hs⟩ := List.mem_filterMap.mp h
  have hi := List.snd_lt_of_mem_zipIdx hc
  simp only [sliderOf] at hs
  split_ifs at hs
  cases hs
  exact hi

namespace PluginUI

def new (p : Plugin) (index : ℤ) (fileType : Option ℤ) (models : List Text := []) : PluginUI where
  plugin := p.id
  index := index
  indexP := index
  cdIndex := index
  widgetName := signedChar (index + 48)
  hasFileChooser := fileType.isSome
  pType := fileType.getD FILE_AUDIO
  models := models
  sliders := p.sliders

def getIndex (realized : Bool) (ui : PluginUI) : ℤ :=
  if !realized then ui.index else ui.widgetName - 48

def setSlider (ui : PluginUI) (i : ℕ) (value : ℚ) : PluginUI :=
  { ui with sliders := ui.sliders.modify i fun s => { s with value := value } }

/-- All but the values of the sliders and the file type. -/
structure SameCard (ui ui' : PluginUI) : Prop where
  plugin : ui'.plugin = ui.plugin
  index : ui'.index = ui.index
  indexP : ui'.indexP = ui.indexP
  cdIndex : ui'.cdIndex = ui.cdIndex
  widgetName : ui'.widgetName = ui.widgetName
  hasFileChooser : ui'.hasFileChooser = ui.hasFileChooser
  models : ui'.models = ui.models
  controls : ui'.sliders.map (·.control) = ui.sliders.map (·.control)

theorem SameCard.refl (ui : PluginUI) : SameCard ui ui :=
  ⟨rfl, rfl, rfl, rfl, rfl, rfl, rfl, rfl⟩

theorem SameCard.trans {ui ui' ui'' : PluginUI} (h : SameCard ui ui') (h' : SameCard ui' ui'') :
    SameCard ui ui'' :=
  ⟨h'.plugin.trans h.plugin, h'.index.trans h.index, h'.indexP.trans h.indexP,
    h'.cdIndex.trans h.cdIndex, h'.widgetName.trans h.widgetName,
    h'.hasFileChooser.trans h.hasFileChooser, h'.models.trans h.models, h'.controls.trans h.controls⟩

theorem sameCard_setSlider (ui : PluginUI) (i : ℕ) (value : ℚ) :
    SameCard ui (ui.setSlider i value) := by
  refine ⟨rfl, rfl, rfl, rfl, rfl, rfl, rfl, List.ext_getElem? fun k => ?_⟩
  simp only [setSlider, List.getElem?_map, List.getElem?_modify]
  split_ifs <;> cases ui.sliders[k]? <;> rfl

end PluginUI

end AmpRack

import AmpRack.PresetIdentity

/-!
# Cards whose callbacks go through

A slider of an atom port has no value to set, and a model of the list is handed to a plugin whose
`handle` was never set. A card is ready when it has no such slider and offers no such model, and
whether it is ready is settled when it is made.
-/

namespace AmpRack

open VectorEdits GuardedRun TextScan JsonText Engine Plugin

/-- An audio file that cannot be read is passed over. -/
structure CardReady (w : Installation) (ui : PluginUI) (p : Plugin) : Prop where
  valued : ∀ s ∈ ui.sliders, ∃ c, p.pluginControls[s.control]? = some c ∧ c.defValue.isSome = true
  quiet : ui.hasFileChooser = true → ∀ path ∈ ui.models,
    p.loadedFileType = FILE_AUDIO ∧ w.readable path = false

/-- The card of the plugin that the request loads is ready. -/
structure Usable (w : Installation) (id : ℕ) (requested : Text) (entry : CatalogueEntry) :
    Prop where
  valued : ∀ s ∈ (Plugin.new w.toWorld id entry.library).sliders, ∃ c,
    (Plugin.new w.toWorld id entry.library).pluginControls[s.control]? = some c ∧
      c.defValue.isSome = true
  quiet : ∀ type ∈ entry.fileType, ∀ path ∈ w.models requested,
    type = FILE_AUDIO ∧ w.readable path = false

namespace Rack

/-- The file and its type, for every plugin of the chain. -/
def files (r : Rack) : List (Text × ℤ) := r.chain.map fun p => (p.loadedFileName, p.loadedFileType)

section Files

variable {realized : Bool} {r r' : Rack} {card : ℕ}

theorem files_controlChanged {control : ℕ} {val : ℚ}
    (h : r.controlChanged realized card control val = .ok r') : r'.files = r.files := by
  obtain ⟨-, rfl⟩ | ⟨ui, p, c, e, -, -, -, -, he, rfl⟩ := controlChanged_ok h
  · rfl
  · obtain ⟨i, -, -, rfl⟩ := modifyPlugin_ok he
    exact map_modify_of_eq (f := (·.setDef control (BinaryFormat.binary32.round val)))
      (g := fun p => (p.loadedFileName, p.loadedFileType)) (fun _ => rfl) r.chain i

theorem files_rangeSetValue {i : ℕ} {f : Floating}
    (h : r.rangeSetValue realized card i f = .ok r') : r'.files = r.files := by
  unfold rangeSetValue at h
  split at h
  · cases h
    rfl
  · split_ifs at h
    · cases h
      rfl
    · have hfiles := files_controlChanged h
      exact hfiles

theorem files_loadControls {controls : Text} (h : r.loadControls realized card controls = .ok r') :
    r'.files = r.files := by
  unfold loadControls at h
  exact inv_of_run (fun (r₁ : Rack) _ _ (hr₁ : r₁.files = r.files) hr =>
    (files_rangeSetValue hr).trans hr₁) rfl h

end Files

section Ready

variable {w : Installation} {realized : Bool} {r r' : Rack} {requested : Text}
  {found : CatalogueEntry} {p : Plugin}

theorem Added.cardReady_iff (ha : Added w r requested found p r') :
    CardReady w (.new p r.chain.length found.fileType (w.models requested)) p ↔
      Usable w r.engine.nextId requested found := by
  have hsliders : p.sliders = (Plugin.new w.toWorld r.engine.nextId found.library).sliders := by
    rw [Plugin.sliders, Plugin.sliders, ha.controls]
  have htype {type : ℤ} (ht : found.fileType = some type) : p.loadedFileType = type := by
    rw [ha.made, ht]
    rfl
  constructor
  · rintro ⟨hvalued, hquiet⟩
    simp only [PluginUI.new, hsliders, ha.controls] at hvalued hquiet
    refine ⟨hvalued, fun type ht path hpath => ?_⟩
    rw [← htype ht]
    exact hquiet (by rw [ht]; rfl) path hpath
  · rintro ⟨hvalued, hquiet⟩
    refine ⟨?_, fun hchooser path hpath => ?_⟩
    · simp only [PluginUI.new, hsliders, ha.controls]
      exact hvalued
    · obtain ⟨type, ht⟩ := Option.isSome_iff_exists.mp hchooser
      rw [htype ht]
      exact hquiet type ht path hpath

end Ready

end Rack

end AmpRack

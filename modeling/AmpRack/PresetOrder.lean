import AmpRack.PresetIdentity

/-!
# The order in which a preset is loaded

`getPreset` numbers its entries in decimal and the loader meets them in the order of the keys as
texts, where `10` comes in front of `2`. The entries are loaded in the order in which they were saved
as long as there are at most ten of them.
-/

namespace AmpRack

open GuardedRun JsonText

/-- What `getPreset` writes under `controls` is a numbered list. -/
theorem Rack.Written.getPreset_numbered {w : Installation} {r : Rack} (h : r.Written w)
    (hne : r.chain ≠ []) : ∃ js : List Json, js.length = r.chain.length ∧
      r.engine.getPreset = .ok (.obj [("controls".toList, .obj (numbered js))]) := by
  refine ⟨(r.chain.map savedEntry).map PresetEntry.toJson, ?_, h.getPreset hne⟩
  rw [List.length_map, List.length_map]

section Entries

variable {js : List Json} {entries : List PresetEntry} {j : Json} {p : Preset}

/-- The loader reads the values of `controls` in the order of the members. -/
theorem entries_of_ofJson {members : Members}
    (hget : j.get? "controls".toList = some (.obj members)) (h : Preset.ofJson j = some p) :
    (members.map (·.2)).mapM PresetEntry.ofJson = some p.entries := by
  simp only [Preset.ofJson, hget] at h
  obtain ⟨entries, hentries, rfl⟩ := Option.map_eq_some_iff.mp h
  rw [List.mapM_map]
  exact hentries

theorem entries_of_le (hlen : js.length ≤ 10)
    (hget : j.get? "controls".toList = some (.obj (numbered js))) (h : Preset.ofJson j = some p) :
    js.mapM PresetEntry.ofJson = some p.entries := by
  have hentries := entries_of_ofJson hget h
  rwa [map_numbered_of_le hlen] at hentries

end Entries

namespace Rack

/-- The loader meets the preset of the numbered list `js` in the order of its numbers, and from any
state that is reached it rebuilds a chain in the order of `js`, if the load goes through. -/
structure KeepsOrder (w : Installation) (realized : Bool) (js : List Json) : Prop where
  visits : NumericOrder (numbered js)
  rebuilds : ∀ (ops : List Op) (r : Rack) (j : Json) (p : Preset),
    run (step w) {} ops = .ok r → j.get? "controls".toList = some (.obj (numbered js)) →
      Preset.ofJson j = some p → LoadOk w r.engine.nextId MAX_PLUGINS p.entries →
        ∃ entries r', js.mapM PresetEntry.ofJson = some entries ∧
          r.loadPreset w realized p = .ok r' ∧
          r'.chain.map (·.uri) = (loadedUris w entries).map some

/-- A preset is loaded in the order of its numbers exactly when it has at most ten entries. -/
theorem keepsOrder_iff (w : Installation) (realized : Bool) (js : List Json) :
    KeepsOrder w realized js ↔ js.length ≤ 10 := by
  constructor
  · exact fun h => numericOrder_numbered_iff.mp h.visits
  · intro hlen
    refine ⟨numericOrder_numbered_iff.mpr hlen, fun ops r j p hr hget hp hload => ?_⟩
    have hw := run_written hr
    obtain ⟨r', hr', -, huris⟩ := loadPreset_of_loadOk realized hw.settled hw.plugs hload
    exact ⟨p.entries, r', entries_of_le hlen hget hp, hr', huris⟩

/-- Ten plugins, one of them switched off, and an eleventh. -/
def elevenPlugins : List Op :=
  List.replicate 10 (.addPluginByName "Gain".toList) ++
    [.toggle 0 false, .addPluginByName "Gain".toList]

/-- The preset of eleven plugins is met out of order: its third entry is that of the last plugin. -/
theorem eleven_plugins_out_of_order :
    ∃ r js, run (step smallInstallation) {} elevenPlugins = .ok r ∧
      r.engine.getPreset = .ok (.obj [("controls".toList, .obj (numbered js))]) ∧
      ¬ KeepsOrder smallInstallation true js := by
  have hr : run (step smallInstallation) {} elevenPlugins = .ok _ := rfl
  obtain ⟨js, hlen, hjson⟩ := (run_written hr).getPreset_numbered (List.cons_ne_nil _ _)
  refine ⟨_, js, hr, hjson, fun h => ?_⟩
  have hle := numericOrder_numbered_iff.mp h.visits
  rw [hlen] at hle
  exact absurd hle (by decide)

end Rack

end AmpRack

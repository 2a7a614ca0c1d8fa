import AmpRack.CardActions

/-!
# The file of a plugin in a preset

A file is chosen on a card in a dialog or from the list of models, and one of three loaders sets it.
Two of them call the plugin through pointers that the URI constructor never sets, and the third,
which every dialog calls, does not store the name. So no plugin ever has a file, and no preset
records one.
-/

namespace AmpRack

open VectorEdits GuardedRun TextScan JsonText Engine Plugin

/-- Every dialog has a title, which `on_response` takes for the control of an atom port. -/
inductive FileChoice
  | dialog
  | model

inductive Loader
  | setPluginAudioFile
  | setPluginFile
  | setAtomPort
  deriving DecidableEq

namespace Loader

def load (w : Installation) (e : Engine) (index : ℤ) (filename : Text) :
    Loader → Except Fault Engine
  | setPluginAudioFile => e.setPluginAudioFile w index filename
  | setPluginFile => e.setPluginFile index filename
  | setAtomPort => e.setAtomPort index

/-- Only an audio file has to be read. -/
def Accepts (w : Installation) (filename : Text) (loader : Loader) : Prop :=
  loader = setPluginAudioFile → w.readable filename = true

instance (w : Installation) (filename : Text) (loader : Loader) :
    Decidable (loader.Accepts w filename) := inferInstanceAs (Decidable (_ → _))

end Loader

def FileChoice.action (filename : Text) : FileChoice → CardAction
  | dialog => .openFile filename
  | model => .selectModel filename

/-- All that a user does: the operations of the rack and of the cards in it. -/
inductive UserOp
  | edit (op : Rack.Op)
  | act (card : ℕ) (a : CardAction)

namespace Engine

variable {w : Installation} {e e' : Engine} {index : ℤ} {filename : Text}

/-- The plugin gets the type of an atom port. -/
theorem setAtomPort_ok (h : e.setAtomPort index = .ok e') :
    ∃ k : ℕ, index = k ∧ k < e.activePlugins.length ∧ Kept e e' ∧
      e'.activePlugins = e.activePlugins.modify k fun p => { p with loadedFileType := 2 } := by
  have hkin (p : Plugin) : Kin p { p with loadedFileType := 2 } :=
    ⟨⟨rfl, rfl, rfl, rfl, rfl, rfl⟩, rfl, rfl, rfl, rfl, fun _ => rfl, rfl, rfl⟩
  have hkept : Kept e e' := modifyPlugin_bypass_kept (fun p _ => hkin p) h
  obtain ⟨e₁, he₁, rfl⟩ := map_eq_ok h
  obtain ⟨k, hk, hlt, rfl⟩ := modifyPlugin_ok he₁
  exact ⟨k, hk, hlt, hkept, rfl⟩

/-- No file goes to a chain of plugins without `handle`, wherever the index is. -/
theorem setFile_ne_ok_of_handles {connect : Plugin → Except Fault Unit} {type : ℤ}
    (hconnect : ∀ {p}, connect p = .ok () → p.handle.isSome = true)
    (hhandle : ∀ p ∈ e.activePlugins, p.handle = none) :
    e.setFile index connect filename type ≠ .ok e' := by
  intro h
  cases hp : at? e.activePlugins index with
  | none =>
    rw [setFile, hp] at h
    cases h
  | some p =>
    obtain ⟨k, -, hk⟩ := at?_eq_some hp
    exact setFile_ne_ok hconnect hp (hhandle p (List.mem_of_getElem? hk)) h

theorem setPluginFile_ne_ok (hhandle : ∀ p ∈ e.activePlugins, p.handle = none) :
    e.setPluginFile index filename ≠ .ok e' :=
  setFile_ne_ok_of_handles handle_of_connectPort hhandle

theorem setPluginAudioFile_eq_ok (hhandle : ∀ p ∈ e.activePlugins, p.handle = none)
    (h : e.setPluginAudioFile w index filename = .ok e') :
    w.readable filename = false ∧ e' = e := by
  unfold setPluginAudioFile at h
  split_ifs at h with hread
  · exact absurd h (setFile_ne_ok_of_handles handle_of_setBuffer hhandle)
  · cases h
    exact ⟨by simpa using hread, rfl⟩

end Engine

namespace Rack

def userStep (w : Installation) (r : Rack) : UserOp → Except Fault Rack
  | .edit op => step w r op
  | .act card a => if card ∈ r.listBox then r.act w card a else .ok r

/-- The plugin at `k` has the file that was chosen, the preset records it, and loading the preset
gives it back. -/
structure FileKept (w : Installation) (realized : Bool) (r : Rack) (card k : ℕ) (file : Text × ℤ)
    (choice : FileChoice) (chosen : Rack) : Prop where
  isChosen : r.act w card (choice.action file.1) = .ok chosen
  has : chosen.files[k]? = some file
  records : ∃ json entry, chosen.engine.getPreset = .ok json ∧
    (json.get? "controls".toList).bind (·.get? (Nat.toDigits 10 k)) = some entry.toJson ∧
      PresetEntry.file entry = some file
  restores : ∃ json preset restored, chosen.engine.getPreset = .ok json ∧
    Preset.ofJson json = some preset ∧ chosen.loadPreset w realized preset = .ok restored ∧
      restored.files[k]? = some file

section Choose

variable {w : Installation} {r r' chosen : Rack} {card k : ℕ} {choice : FileChoice} {f : Text}

/-- A choice that goes through changes the file type of one plugin at most. -/
structure Chosen (r chosen : Rack) : Prop extends Touched r chosen where
  chain : chosen.chain = r.chain ∨
    ∃ k, chosen.chain = r.chain.modify k fun p => { p with loadedFileType := 2 }

theorem Chosen.refl (r : Rack) : Chosen r r := ⟨.refl r, .inl rfl⟩

theorem chosen_of_act (choice : FileChoice) (hhandle : ∀ p ∈ r.chain, p.handle = none)
    (h : r.act w card (choice.action f) = .ok chosen) : Chosen r chosen := by
  cases choice with
  | dialog =>
    simp only [FileChoice.action, act, onResponse] at h
    split at h
    · cases h
      exact .refl r
    · rename_i ui hui
      obtain ⟨e, he, rfl⟩ := map_eq_ok h
      obtain ⟨k, -, -, hkept, hchain⟩ := setAtomPort_ok he
      refine ⟨⟨rfl, rfl, ?_, hkept⟩, .inr ⟨k, hchain⟩⟩
      exact forall₂_modify PluginUI.SameCard.refl fun _ _ => ⟨rfl, rfl, rfl, rfl, rfl, rfl, rfl, rfl⟩
  | model =>
    simp only [FileChoice.action, act, selectModel] at h
    split at h
    · cases h
      exact .refl r
    · split at h
      · cases h
      · obtain ⟨e, he, rfl⟩ := map_eq_ok h
        split_ifs at he
        · exact absurd he (setPluginFile_ne_ok hhandle)
        · obtain ⟨-, rfl⟩ := setPluginAudioFile_eq_ok hhandle he
          exact .refl r

theorem files_of_chosen (h : Chosen r chosen) :
    chosen.files = r.files ∨ ∃ k, chosen.files = r.files.modify k fun x => (x.1, 2) := by
  rcases h.chain with hchain | ⟨k, hchain⟩
  · rw [files, files, hchain]
    exact .inl rfl
  · rw [files, files, hchain]
    have hfile (p : Plugin) : (({ p with loadedFileType := 2 } : Plugin).loadedFileName,
        ({ p with loadedFileType := 2 } : Plugin).loadedFileType) =
          (fun x : Text × ℤ => (x.1, (2 : ℤ))) (p.loadedFileName, p.loadedFileType) := rfl
    exact .inr ⟨k, map_modify hfile r.chain k⟩

/-- No plugin that is reached has a file, and its entry has none. -/
theorem Written.no_record (h : Written w r) {file : Text × ℤ} (hfile : r.files[k]? = some file) :
    ¬ ∃ json entry, r.engine.getPreset = .ok json ∧
      (json.get? "controls".toList).bind (·.get? (Nat.toDigits 10 k)) = some entry.toJson ∧
        PresetEntry.file entry = some file := by
  rintro ⟨json, entry, hjson, hentry, hentryFile⟩
  obtain ⟨p, hp, -⟩ : ∃ p, r.chain[k]? = some p ∧
      (p.loadedFileName, p.loadedFileType) = file := by
    rwa [files, List.getElem?_map, Option.map_eq_some_iff] at hfile
  have hmem := List.mem_of_getElem? hp
  have hslot : (Json.obj (PresetEntry.slots (r.chain.map savedEntry))).get? (Nat.toDigits 10 k) =
      some (savedEntry p).toJson := by
    apply get?_slots
    rw [List.getElem?_map, hp, Option.map_some]
  rw [h.getPreset (List.ne_nil_of_mem hmem), Except.ok.injEq] at hjson
  subst hjson
  have hsame : (savedEntry p).toJson = entry.toJson := Option.some.inj (hslot.symm.trans hentry)
  have heq : savedEntry p = entry := by
    have hof := congrArg PresetEntry.ofJson hsame
    rwa [PresetEntry.ofJson_toJson, PresetEntry.ofJson_toJson, Option.some.injEq] at hof
  rw [← heq, (h.made p hmem).bare.2] at hentryFile
  cases hentryFile

theorem Written.handles (h : Written w r) : ∀ p ∈ r.chain, p.handle = none :=
  fun p hp => (h.made p hp).handle

theorem act_written (h : Written w r) (a : CardAction) (hr' : r.act w card a = .ok r') :
    Written w r' := by
  cases a with
  | slide realized slider value =>
    simp only [act] at hr'
    split at hr'
    · cases hr'
      exact h
    · exact h.of_touched (controlChanged_touched hr')
  | switch value => exact toggle_written h hr'
  | delete => exact delete_written h hr'
  | openFile filename =>
    exact h.of_touched (chosen_of_act .dialog h.handles hr').toTouched
  | selectModel path =>
    exact h.of_touched (chosen_of_act .model h.handles hr').toTouched

theorem userStep_written {op : UserOp} (h : Written w r) (hr' : userStep w r op = .ok r') :
    Written w r' := by
  cases op with
  | edit op => exact step_written h hr'
  | act card a =>
    simp only [userStep] at hr'
    split_ifs at hr'
    · exact act_written h a hr'
    · cases hr'
      exact h

end Choose

/-- In whatever state a file is chosen, on whatever card, it is not kept. -/
theorem not_fileKept (w : Installation) (ops : List UserOp) (realized : Bool) (r : Rack)
    (h : run (userStep w) {} ops = .ok r) (card k : ℕ) (file : Text × ℤ) (choice : FileChoice) :
    ¬ ∃ chosen, FileKept w realized r card k file choice chosen := by
  rintro ⟨chosen, hkept⟩
  have hw : Written w r := inv_of_run (fun _ _ _ h hr' => userStep_written h hr') written_empty h
  exact (act_written hw _ hkept.isChosen).no_record hkept.has hkept.records

/-- One plugin whose files are JSON. -/
def ampInstallation : Installation where
  lilv uri := if uri = "urn:amp".toList then some [] else none
  indeterminate _ _ := ⟨.float, 0, 1, 0⟩
  catalogue := [⟨"Amp".toList, "urn:amp".toList, some FILE_JSON⟩]

theorem not_fileKept_after_add :
    ∃ r, run (userStep ampInstallation) {} [.edit (.addPluginByName "Amp".toList)] = .ok r ∧
      ¬ ∃ chosen,
        FileKept ampInstallation true r 0 0 ("/a".toList, FILE_JSON) .model chosen :=
  ⟨_, rfl, not_fileKept ampInstallation [.edit (.addPluginByName "Amp".toList)] true _ rfl 0 0
    ("/a".toList, FILE_JSON) .model⟩

/-- The dialog stores the type of an atom port and no name, and a choice in the list of models calls
the plugin through its `handle`. -/
theorem dialog_loses_path :
    ∃ r chosen, run (userStep ampInstallation) {} [.edit (.addPluginByName "Amp".toList)] = .ok r ∧
      r.act ampInstallation 0 (.openFile "/a".toList) = .ok chosen ∧
      r.files = [([], FILE_JSON)] ∧ chosen.files = [([], FILE_ATOM)] ∧
      r.act ampInstallation 0 (.selectModel "/a".toList) = .error .uninitialised ∧
      ¬ ∃ chosen,
        FileKept ampInstallation true r 0 0 ("/a".toList, FILE_JSON) .dialog chosen := by
  refine ⟨_, _, rfl, rfl, rfl, rfl, rfl, ?_⟩
  rintro ⟨chosen, hkept⟩
  have hchosen := hkept.isChosen
  cases hchosen
  exact absurd hkept.has (by decide)

end Rack

end AmpRack

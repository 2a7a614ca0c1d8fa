import AmpRack.PresetLoader

/-!
# The file types of the plugins are numbers of an `int`

A plugin gets its file type from the constructor, from the catalogue or from the loader of an atom
port. Whatever is edited and loaded, all of them stay in the range of an `int`, so the presets that
are saved can be read again.
-/

namespace AmpRack

open VectorEdits BoxOrder GuardedRun JsonText Engine

def IsInt (type : ℤ) : Prop := -2 ^ 31 ≤ type ∧ type < 2 ^ 31

namespace Rack

/-- What a catalogue that was read from a file has. -/
def IntTypes (w : Installation) : Prop := ∀ entry ∈ w.catalogue, ∀ type ∈ entry.fileType, IsInt type

/-- The racks that are reached, with the types of their files. -/
structure Typed (w : Installation) (r : Rack) : Prop extends Written w r where
  types : ∀ x ∈ r.files, IsInt x.2

variable {w : Installation} {r r' : Rack} {card : ℕ}

theorem typed_empty : Typed w {} := ⟨written_empty, fun _ hx => (by cases hx)⟩

section Edits

theorem mem_files {x : Text × ℤ} :
    x ∈ r.files ↔ ∃ p ∈ r.chain, (p.loadedFileName, p.loadedFileType) = x := List.mem_map

/-- An edit that keeps some of the plugins, in whatever order. -/
theorem Typed.of_chain (h : Typed w r) (hw : Written w r') (hchain : ∀ p ∈ r'.chain, p ∈ r.chain) :
    Typed w r' := by
  refine ⟨hw, fun x hx => ?_⟩
  obtain ⟨p, hp, rfl⟩ := mem_files.mp hx
  exact h.types _ (mem_files.mpr ⟨p, hchain p hp, rfl⟩)

theorem Typed.of_files (h : Typed w r) (hw : Written w r') (hfiles : r'.files = r.files) :
    Typed w r' := ⟨hw, by rw [hfiles]; exact h.types⟩

/-- The file of one plugin is set. -/
theorem Typed.of_modify (h : Typed w r) (hw : Written w r') {k : ℕ} {g : Text × ℤ → Text × ℤ}
    (hfiles : r'.files = r.files.modify k g) (hg : ∀ x, IsInt x.2 → IsInt (g x).2) : Typed w r' := by
  refine ⟨hw, fun x hx => ?_⟩
  rw [hfiles] at hx
  obtain ⟨i, hi⟩ := List.mem_iff_getElem?.mp hx
  rw [List.getElem?_modify] at hi
  obtain ⟨y, hy, rfl⟩ := Option.map_eq_some_iff.mp hi
  have hint := h.types y (List.mem_of_getElem? hy)
  split_ifs
  · exact hg y hint
  · exact hint

theorem moveDown_typed (h : Typed w r) (hmem : card ∈ r.listBox) (hr' : r.moveDown card = .ok r') :
    Typed w r' := by
  refine h.of_chain (moveDown_written h.toWritten hmem hr') fun p hp => ?_
  rcases moveDown_cases hr' with rfl | ⟨i, e, q, hlt, he, rfl, -, -⟩
  · exact hp
  · rcases moveActivePluginDown_eq_ok he with hend | ⟨k, rfl, hk⟩
    · have hend' : i = r.chain.length := hend
      omega
    · obtain ⟨e, he', hb⟩ := moveActivePluginDown_of_lt h.settled hk
      rw [he] at he'
      cases he'
      rw [chain, hb.chain] at hp
      exact (exchange_perm r.chain hk).mem_iff.mp hp

theorem moveUp_typed (h : Typed w r) (hr' : r.moveUp card = .ok r') : Typed w r' := by
  refine h.of_chain (moveUp_written h.toWritten hr') fun p hp => ?_
  rcases moveUp_cases hr' with rfl | ⟨i, e, q, hne, he, rfl, -, -⟩
  · exact hp
  · rcases moveActivePluginUp_eq_ok he with hzero | ⟨k, rfl, hk⟩
    · exact absurd hzero hne
    · obtain ⟨e, he', hb⟩ := moveActivePluginUp_of_lt h.settled hk
      rw [he] at he'
      cases he'
      rw [chain, hb.chain] at hp
      exact (exchange_perm r.chain hk).mem_iff.mp hp

theorem delete_typed (h : Typed w r) (hr' : r.delete card = .ok r') : Typed w r' := by
  refine h.of_chain (delete_written h.toWritten hr') fun p hp => ?_
  unfold delete at hr'
  split at hr'
  · cases hr'
    exact hp
  · obtain ⟨e, he, rfl⟩ := map_eq_ok hr'
    obtain ⟨i, hi, hlt⟩ := erasePlugin_eq_ok he
    obtain ⟨e', he', hb⟩ := erasePlugin_of_lt h.settled hlt
    rw [hi, he'] at he
    cases he
    rw [chain, hb.chain] at hp
    exact List.mem_of_mem_eraseIdx hp

theorem toggle_typed {value : Bool} (h : Typed w r) (hr' : r.toggle card value = .ok r') :
    Typed w r' := by
  have hw := toggle_written h.toWritten hr'
  unfold toggle at hr'
  split at hr'
  · cases hr'
    exact h
  · split_ifs at hr'
    · cases hr'
      exact h
    · obtain ⟨e, he, rfl⟩ := map_eq_ok hr'
      obtain ⟨i, hi, hlt, hfit⟩ := setActive_eq_ok he
      obtain ⟨e', he', hb⟩ := setActive_of_lt h.settled hlt hfit
      rw [hi, he'] at he
      cases he
      apply h.of_files hw
      rw [files, chain, hb.chain]
      exact map_modify_of_eq (f := fun p : Plugin => { p with active := value }) (fun _ => rfl) _ i

theorem clear_typed (h : Typed w r) (hr' : r.clear = .ok r') : Typed w r' := by
  refine h.of_chain (clear_written h.toWritten hr') fun p hp => ?_
  obtain ⟨r₀, hr₀, -, -, hnil⟩ := clear_loading h.settled h.plugs
  rw [hr', Except.ok.injEq] at hr₀
  rw [hr₀, hnil] at hp
  cases hp

/-- A plugin that is added comes to the end, with the type of its entry. -/
theorem chain_addPluginByName {requested : Text} {entry : CatalogueEntry}
    (hfound : lookup w requested = some entry) (hlilv : (w.lilv entry.library).isSome)
    (h : r.addPluginByName w requested = .ok (r', some card)) : r'.chain = r.chain ++
      [(Plugin.new w.toWorld r.engine.nextId entry.library).declareFileType entry.fileType] := by
  obtain ⟨e, he, hb⟩ := addPlugin_of_some (e := r.engine) hlilv
    (addPluginByName_room hfound hlilv h)
  have hchain : e.activePlugins =
      r.chain ++ [Plugin.new w.toWorld r.engine.nextId entry.library] := hb.chain
  have hlen : e.activePlugins.length - 1 = r.chain.length := by
    rw [hchain, List.length_append, List.length_singleton, Nat.add_sub_cancel]
  have hps : e.activePlugins.modify (e.activePlugins.length - 1)
      (·.declareFileType entry.fileType) = r.chain ++
        [(Plugin.new w.toWorld r.engine.nextId entry.library).declareFileType entry.fileType] := by
    rw [hlen, hchain]
    exact modify_append_cons r.chain [] _ _
  simp only [addPluginByName, hfound, he, hps] at h
  split at h
  · cases h
  · cases h
    rfl

theorem isInt_neg_one : IsInt (-1) := ⟨by decide, by decide⟩

theorem isInt_new (hw : IntTypes w) {entry : CatalogueEntry} (hentry : entry ∈ w.catalogue)
    (hlilv : (w.lilv entry.library).isSome) (id : ℕ) : IsInt
      ((Plugin.new w.toWorld id entry.library).declareFileType entry.fileType).loadedFileType := by
  obtain ⟨ports, hports⟩ := Option.isSome_iff_exists.mp hlilv
  cases htype : entry.fileType with
  | none =>
    have hnew := (Plugin.new_of_some hports id).loadedFileType
    rw [Plugin.declareFileType, hnew]
    exact isInt_neg_one
  | some type => exact hw entry hentry type htype

theorem addPluginByName_typed {requested : Text} {card? : Option ℕ} (hw : IntTypes w)
    (h : Typed w r) (hr' : r.addPluginByName w requested = .ok (r', card?)) : Typed w r' := by
  have hwritten := addPluginByName_written h.toWritten hr'
  rcases addPluginByName_cases h.settled hr' with heq | heq | ⟨entry, r₁, p, hfound, hsome, -, heq, -⟩
  · cases heq
    exact h
  · cases heq
    exact h.of_files hwritten rfl
  · cases heq
    refine ⟨hwritten, fun x hx => ?_⟩
    rw [files, chain_addPluginByName hfound hsome hr', List.map_append] at hx
    rcases List.mem_append.mp hx with hx | hx
    · exact h.types x hx
    · rw [List.mem_singleton.mp hx]
      exact isInt_new hw (List.mem_of_find?_eq_some hfound) hsome _

end Edits

section Loads

variable {realized : Bool}

/-- A file that is loaded with an entry is one that is passed over. -/
theorem loadFile_typed {index : ℤ} {file : Option (Text × ℤ)} (h : Typed w r)
    (hr' : r.loadFile w index file = .ok r') : Typed w r' := by
  rcases file with _ | ⟨filename, filetype⟩
  · cases hr'
    exact h
  · obtain ⟨e, he, rfl⟩ := map_eq_ok hr'
    split_ifs at he
    · obtain ⟨-, rfl⟩ := setPluginAudioFile_eq_ok h.handles he
      exact h
    · exact absurd he (setPluginFile_ne_ok h.handles)

theorem loadMemberFile_typed {k : ℕ} {p : Json} (h : Typed w r)
    (hr' : r.loadMemberFile w k p = .ok r') : Typed w r' := by
  rw [(loadMemberFile_eq_ok h.handles hr').2]
  exact h

theorem loadControls_typed {values : Text} (h : Typed w r)
    (hr' : r.loadControls realized card values = .ok r') : Typed w r' :=
  h.of_files (h.toWritten.of_touched (foldlM_rangeSetValue_touched _ hr'))
    (files_loadControls hr')

theorem loadEntry_typed {s s' : Rack × ℕ} {entry : PresetEntry} (hw : IntTypes w)
    (h : Typed w s.1) (hs : loadEntry w realized s entry = .ok s') : Typed w s'.1 := by
  obtain ⟨r₁, card?, hadd, hs⟩ := loadEntry_ok hs
  have hadded := addPluginByName_typed hw h hadd
  rcases hs with ⟨-, rfl⟩ | ⟨card, r₂, r₃, -, hload, hfile, rfl⟩
  · exact hadded
  · exact loadFile_typed (loadControls_typed hadded hload) hfile

theorem loadElement_typed {s s' : Rack × ℕ} {p : Json} (hw : IntTypes w) (h : Typed w s.1)
    (hs : loadElement w realized s p = .ok s') : Typed w s'.1 := by
  obtain ⟨name, p₁, r₁, card?, -, hadd, hturn⟩ := loadElement_ok hs
  have hadded := addPluginByName_typed hw h hadd
  rcases hturn with ⟨-, rfl⟩ | ⟨card, controls, p₂, r₂, r₃, -, -, hr₂, hr₃, rfl⟩
  · exact hadded
  · exact loadMemberFile_typed (loadControls_typed hadded hr₂) hr₃

theorem step_typed {op : Op} (hw : IntTypes w) (h : Typed w r) (hr' : step w r op = .ok r') :
    Typed w r' := by
  cases op with
  | addPluginByName requested =>
    obtain ⟨s, hs, rfl⟩ := map_eq_ok hr'
    exact addPluginByName_typed hw h hs
  | delete card =>
    simp only [step] at hr'
    split_ifs at hr'
    · exact delete_typed h hr'
    · cases hr'
      exact h
  | moveUp card =>
    simp only [step] at hr'
    split_ifs at hr'
    · exact moveUp_typed h hr'
    · cases hr'
      exact h
  | moveDown card =>
    simp only [step] at hr'
    split_ifs at hr' with hmem
    · exact moveDown_typed h hmem hr'
    · cases hr'
      exact h
  | toggle card value =>
    simp only [step] at hr'
    split_ifs at hr'
    · exact toggle_typed h hr'
    · cases hr'
      exact h
  | clear => exact clear_typed h hr'
  | loadPreset realized p =>
    obtain ⟨r₀, s, hclear, hload, rfl⟩ := loadPreset_ok hr'
    exact inv_of_run (fun (_ : Rack × ℕ) _ _ ht hone => loadEntry_typed hw ht hone)
      (clear_typed h hclear) hload

end Loads

section Cards

theorem isInt_two : IsInt 2 := ⟨by decide, by decide⟩

theorem Typed.of_chosen (h : Typed w r) (hw : Written w r') (hc : Chosen r r') : Typed w r' := by
  rcases files_of_chosen hc with hfiles | ⟨k, hfiles⟩
  · exact h.of_files hw hfiles
  · exact h.of_modify hw hfiles fun _ _ => isInt_two

theorem act_typed (h : Typed w r) (a : CardAction) (hr' : r.act w card a = .ok r') :
    Typed w r' := by
  have hwritten := act_written h.toWritten a hr'
  cases a with
  | slide realized slider value =>
    simp only [act] at hr'
    split at hr'
    · cases hr'
      exact h
    · exact h.of_files hwritten (files_controlChanged hr')
  | switch value => exact toggle_typed h hr'
  | delete => exact delete_typed h hr'
  | openFile filename => exact h.of_chosen hwritten (chosen_of_act .dialog h.handles hr')
  | selectModel path => exact h.of_chosen hwritten (chosen_of_act .model h.handles hr')

theorem userStep_typed {op : UserOp} (hw : IntTypes w) (h : Typed w r)
    (hr' : userStep w r op = .ok r') : Typed w r' := by
  cases op with
  | edit op => exact step_typed hw h hr'
  | act card a =>
    simp only [userStep] at hr'
    split_ifs at hr'
    · exact act_typed h a hr'
    · cases hr'
      exact h

end Cards

end Rack

namespace RackWindow

variable {w : Installation} {realized : Bool} {s s' : RackWindow}

theorem loadPreset_typed {j : Json} (hw : Rack.IntTypes w) (h : Rack.Typed w s.rack)
    (hs : s.loadPreset w realized j = .ok s') : Rack.Typed w s'.rack := by
  obtain ⟨name, j', plugins, j'', r₀, t, -, -, hclear, ht, rfl⟩ := loadPreset_ok hs
  exact inv_of_run (fun (_ : Rack × ℕ) _ _ ht hone => Rack.loadElement_typed hw ht hone)
    (Rack.clear_typed h hclear) ht

theorem step_typed {op : Op} (hw : Rack.IntTypes w) (h : Rack.Typed w s.rack)
    (hs : step w s op = .ok s') : Rack.Typed w s'.rack := by
  cases op with
  | user op =>
    obtain ⟨r, hr, rfl⟩ := Engine.map_eq_ok (mapError_eq_ok hs)
    exact Rack.userStep_typed hw h hr
  | loadPreset realized j => exact loadPreset_typed hw h hs

end RackWindow

end AmpRack

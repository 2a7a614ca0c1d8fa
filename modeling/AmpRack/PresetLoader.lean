import AmpRack.PortLoaders
import AmpRack.PresetFiles
import AmpRack.PresetTabs

/-!
# Loading a preset as it is read

`Rack::load_preset` walks through a JSON value, in which anything can be missing or of another type.
A plugin that cannot be loaded leaves nothing behind but the count of objects, so the count of the
loop is where the next plugin comes to stand. The file of an entry would be set there, but the loader
calls the plugin through pointers that were never set.
-/

namespace AmpRack

open VectorEdits GuardedRun TextScan JsonText Engine

/-- What a load is ended by. -/
inductive LoadStop
  | fault (f : Fault)
  | thrown (t : Thrown)

/-- `j [key]`, and the value that has the member then; `nameMember` for any key. -/
def memberOf (key : Text) : Json → Except LoadStop (Json × Json)
  | .null => .ok (.null, .obj [(key, .null)])
  | .obj ms =>
    match (Json.obj ms).get? key with
    | some v => .ok (v, .obj ms)
    | none => .ok (.null, .obj (JsonText.insert key .null ms))
  | _ => .error (.thrown .typeError)

/-- A conversion to `int` that keeps the low 32 bits of an integer. -/
def getInt (j : Json) : Option ℤ := j.toInt.map fun n => n.bmod (2 ^ 32)

/-- The rack with the text of its label `current_patch`. -/
structure RackWindow where
  rack : Rack := {}
  currentPatch : Text := []

namespace Rack

/-- The file of an entry that has one. -/
def loadMemberFile (w : Installation) (r : Rack) (index : ℤ) (p : Json) : Except LoadStop Rack :=
  match p.get? "filename".toList with
  | none => .ok r
  | some filename =>
    match (p.get? "filetype".toList).bind getInt with
    | none => .error (.thrown .typeError)
    | some filetype =>
      ((if filetype = 0 then r.engine.setPluginAudioFile w index (strip (dump filename))
        else r.engine.setPluginFile index (strip (dump filename))).map
          fun engine => { r with engine := engine }).mapError .fault

/-- One turn of the loop of `Rack::load_preset`, with `index`. -/
def loadElement (w : Installation) (realized : Bool) (s : Rack × ℕ) (p : Json) :
    Except LoadStop (Rack × ℕ) := do
  let (name, p) ← memberOf "name".toList p
  match ← (s.1.addPluginByName w (strip (dump name))).mapError .fault with
  | (r, none) => return (r, s.2)
  | (r, some card) =>
    let (controls, p) ← memberOf "controls".toList p
    let r ← (r.loadControls realized card (strip (dump controls))).mapError .fault
    let r ← r.loadMemberFile w s.2 p
    return (r, s.2 + 1)

end Rack

namespace RackWindow

/-- `Rack::load_preset (json)`. -/
def loadPreset (w : Installation) (realized : Bool) (s : RackWindow) (j : Json) :
    Except LoadStop RackWindow := do
  let (name, j) ← memberOf "name".toList j
  let (plugins, _) ← memberOf "controls".toList j
  let r ← s.rack.clear.mapError .fault
  let t ← (elements plugins).foldlM (Rack.loadElement w realized) (r, 0)
  return { rack := t.1, currentPatch := dump name }

inductive Op
  | user (op : UserOp)
  | loadPreset (realized : Bool) (j : Json)

def step (w : Installation) (s : RackWindow) : Op → Except LoadStop RackWindow
  | .user op => ((s.rack.userStep w op).map fun r => { s with rack := r }).mapError .fault
  | .loadPreset realized j => s.loadPreset w realized j

end RackWindow

theorem mapError_eq_ok {ε ε' α : Type*} {f : ε → ε'} {x : Except ε α} {a : α}
    (h : x.mapError f = .ok a) : x = .ok a := by
  cases x with
  | error e => cases h
  | ok b =>
    cases h
    rfl

theorem mapError_bind {ε ε' α β : Type*} (f : ε → ε') (x : Except ε α) (g : α → Except ε β) :
    (x.bind g).mapError f = (x.mapError f).bind fun a => (g a).mapError f := by
  cases x with
  | error e => rfl
  | ok a => rfl

theorem memberOf_of_get? {key : Text} {j v : Json} (h : j.get? key = some v) :
    memberOf key j = .ok (v, j) := by
  cases j with
  | obj ms =>
    simp only [memberOf, h]
  | _ => cases h

/-- Asking for a member leaves the others as they are. -/
theorem get?_of_memberOf {key key' : Text} {j j' v : Json} (hne : key' ≠ key)
    (h : memberOf key j = .ok (v, j')) : j'.get? key' = j.get? key' := by
  cases j with
  | null =>
    cases h
    apply get?_of_notMem
    exact fun hk => hne (List.mem_singleton.mp hk)
  | obj ms =>
    simp only [memberOf] at h
    cases hget : (Json.obj ms).get? key with
    | some u =>
      rw [hget] at h
      cases h
      rfl
    | none =>
      rw [hget] at h
      cases h
      exact get?_insert_of_ne hne .null ms
  | _ => cases h

namespace Rack

/-- The file that an entry has, with its type. -/
def memberFile (p : Json) : Option (Text × ℤ) :=
  (p.get? "filename".toList).bind fun filename =>
    ((p.get? "filetype".toList).bind getInt).map fun filetype => (strip (dump filename), filetype)

/-- Nothing is loaded for the entry: it has no file, or an audio file that cannot be read. -/
def MemberSkipped (w : Installation) (p : Json) : Prop :=
  p.get? "filename".toList = none ∨
    ∃ f, memberFile p = some f ∧ f.2 = 0 ∧ w.readable f.1 = false

section Turn

variable {w : Installation} {realized : Bool} {s s' : Rack × ℕ} {p : Json}

/-- To a rack of plugins without `handle`, a file is only loaded if it is passed over. -/
theorem loadMemberFile_eq_ok {r r' : Rack} {index : ℤ} (hhandle : ∀ q ∈ r.chain, q.handle = none)
    (h : r.loadMemberFile w index p = .ok r') : MemberSkipped w p ∧ r' = r := by
  unfold loadMemberFile at h
  cases hname : p.get? "filename".toList with
  | none =>
    rw [hname] at h
    cases h
    exact ⟨.inl hname, rfl⟩
  | some filename =>
    cases htype : (p.get? "filetype".toList).bind getInt with
    | none =>
      rw [hname, htype] at h
      cases h
    | some filetype =>
      rw [hname, htype] at h
      obtain ⟨e, he, rfl⟩ := Engine.map_eq_ok (mapError_eq_ok h)
      split_ifs at he with hzero
      · obtain ⟨hread, rfl⟩ := setPluginAudioFile_eq_ok hhandle he
        refine ⟨.inr ⟨(strip (dump filename), filetype), ?_, hzero, hread⟩, rfl⟩
        rw [memberFile, hname, Option.bind_some, htype]
        rfl
      · exact absurd he (setPluginFile_ne_ok hhandle)

/-- A turn that is finished has added nothing, or a plugin with its controls and its file. -/
theorem loadElement_ok (h : loadElement w realized s p = .ok s') :
    ∃ name p₁ r₁ card?, memberOf "name".toList p = .ok (name, p₁) ∧
      s.1.addPluginByName w (strip (dump name)) = .ok (r₁, card?) ∧
      (card? = none ∧ s' = (r₁, s.2) ∨
        ∃ card controls p₂ r₂ r₃, card? = some card ∧
          memberOf "controls".toList p₁ = .ok (controls, p₂) ∧
          r₁.loadControls realized card (strip (dump controls)) = .ok r₂ ∧
          r₂.loadMemberFile w s.2 p₂ = .ok r₃ ∧ s' = (r₃, s.2 + 1)) := by
  rw [loadElement] at h
  obtain ⟨⟨name, p₁⟩, hname, h⟩ := exists_of_bind_ok h
  obtain ⟨⟨r₁, card?⟩, hadd, h⟩ := exists_of_bind_ok h
  refine ⟨name, p₁, r₁, card?, hname, mapError_eq_ok hadd, ?_⟩
  cases card? with
  | none =>
    cases h
    exact .inl ⟨rfl, rfl⟩
  | some card =>
    obtain ⟨⟨controls, p₂⟩, hcontrols, h⟩ := exists_of_bind_ok h
    obtain ⟨r₂, hr₂, h⟩ := exists_of_bind_ok h
    obtain ⟨r₃, hr₃, h⟩ := exists_of_bind_ok h
    cases h
    exact .inr ⟨card, controls, p₂, r₂, r₃, rfl, hcontrols, mapError_eq_ok hr₂, hr₃, rfl⟩

theorem loadElement_written (h : Written w s.1) (hs : loadElement w realized s p = .ok s') :
    Written w s'.1 := by
  obtain ⟨name, p₁, r₁, card?, -, hadd, hturn⟩ := loadElement_ok hs
  have hw := addPluginByName_written h hadd
  rcases hturn with ⟨-, rfl⟩ | ⟨card, controls, p₂, r₂, r₃, -, -, hr₂, hr₃, rfl⟩
  · exact hw
  · have hw₂ := hw.of_touched (foldlM_rangeSetValue_touched _ hr₂)
    rw [(loadMemberFile_eq_ok hw₂.handles hr₃).2]
    exact hw₂

end Turn

section Loop

variable {w : Installation} {realized : Bool} {s : Rack × ℕ} {p : Json} {ps : List Json}

end Loop

section Entries

variable {w : Installation} {realized : Bool} {p : Json} {entry : PresetEntry}

/-- What an entry was written with. -/
theorem members_of_ofJson (h : PresetEntry.ofJson p = some entry) :
    p.get? "name".toList = some (.str entry.name) ∧
      p.get? "controls".toList = some (.str entry.controls) ∧
      match entry.file with
      | none => p.get? "filename".toList = none
      | some (filename, filetype) => p.get? "filename".toList = some (.str filename) ∧
          p.get? "filetype".toList = some (.int filetype) := by
  unfold PresetEntry.ofJson at h
  split at h
  · rename_i name controls hname hcontrols
    split at h
    · rename_i hfilename
      cases h
      exact ⟨hname, hcontrols, hfilename⟩
    · rename_i filename filetype hfilename hfiletype
      cases h
      exact ⟨hname, hcontrols, hfilename, hfiletype⟩
    · cases h
  · cases h

theorem loadMemberFile_eq (hentry : PresetEntry.ofJson p = some entry)
    (hint : ∀ f ∈ entry.file, -2 ^ 31 ≤ f.2 ∧ f.2 < 2 ^ 31) (r : Rack) (index : ℤ) :
    r.loadMemberFile w index p = (r.loadFile w index entry.file).mapError .fault := by
  obtain ⟨-, -, hfile⟩ := members_of_ofJson hentry
  cases hef : entry.file with
  | none =>
    rw [hef] at hfile
    simp only [loadMemberFile, hfile]
    rfl
  | some f =>
    obtain ⟨filename, filetype⟩ := f
    rw [hef] at hfile
    obtain ⟨hfilename, hfiletype⟩ := hfile
    obtain ⟨hlow, hhigh⟩ := hint (filename, filetype) hef
    have htype : getInt (.int filetype) = some filetype := by
      rw [getInt, Json.toInt, Option.map_some, Int.bmod_eq_of_le (by omega) (by omega)]
    simp only [loadMemberFile, hfilename, hfiletype, Option.bind_some, htype]
    rfl

/-- A turn for an entry as `getPreset` writes it is the turn for the entry. -/
theorem loadElement_eq (hentry : PresetEntry.ofJson p = some entry)
    (hint : ∀ f ∈ entry.file, -2 ^ 31 ≤ f.2 ∧ f.2 < 2 ^ 31) (s : Rack × ℕ) :
    loadElement w realized s p = (loadEntry w realized s entry).mapError .fault := by
  obtain ⟨hname, hcontrols, -⟩ := members_of_ofJson hentry
  have hfile (r₂ : Rack) : (r₂.loadMemberFile w s.2 p).bind
      (fun r₃ => (.ok (r₃, s.2 + 1) : Except LoadStop (Rack × ℕ))) =
        ((r₂.loadFile w s.2 entry.file).bind fun r₃ => .ok (r₃, s.2 + 1)).mapError .fault := by
    rw [loadMemberFile_eq hentry hint, mapError_bind]
    rfl
  have hadded (r₁ : Rack) (card : ℕ) : ((r₁.loadControls realized card
      (strip (dump (.str entry.controls)))).mapError LoadStop.fault).bind
        (fun r₂ => (r₂.loadMemberFile w s.2 p).bind fun r₃ => .ok (r₃, s.2 + 1)) =
      ((r₁.loadControls realized card (strip (dump (.str entry.controls)))).bind fun r₂ =>
        (r₂.loadFile w s.2 entry.file).bind fun r₃ => .ok (r₃, s.2 + 1)).mapError .fault := by
    rw [mapError_bind]
    exact congrArg _ (funext hfile)
  rw [loadElement, memberOf_of_get? hname, loadEntry]
  refine Eq.trans ?_ (mapError_bind LoadStop.fault _ _).symm
  change (Except.mapError LoadStop.fault
    (s.1.addPluginByName w (strip (dump (.str entry.name))))).bind _ = _
  refine congrArg (Except.bind _) (funext fun t => ?_)
  obtain ⟨r₁, card?⟩ := t
  cases card? with
  | none => rfl
  | some card =>
    refine Eq.trans ?_ (hadded r₁ card)
    rw [memberOf_of_get? hcontrols]
    rfl

theorem foldlM_loadElement_eq {ps : List Json} {entries : List PresetEntry}
    (h : ps.mapM PresetEntry.ofJson = some entries)
    (hint : ∀ entry ∈ entries, ∀ f ∈ entry.file, -2 ^ 31 ≤ f.2 ∧ f.2 < 2 ^ 31) (s : Rack × ℕ) :
    ps.foldlM (loadElement w realized) s =
      (entries.foldlM (loadEntry w realized) s).mapError .fault := by
  induction ps generalizing entries s with
  | nil =>
    cases h
    rfl
  | cons p ps ih =>
    rw [List.mapM_cons] at h
    obtain ⟨entry, hentry, h⟩ := Option.bind_eq_some_iff.mp h
    obtain ⟨rest, hrest, h⟩ := Option.bind_eq_some_iff.mp h
    cases h
    obtain ⟨hone, hall⟩ := List.forall_mem_cons.mp hint
    rw [List.foldlM_cons, List.foldlM_cons, loadElement_eq hentry hone]
    cases loadEntry w realized s entry with
    | error f => rfl
    | ok t => exact ih hrest hall t

theorem loadPreset_of_clear {r r₀ : Rack} {q : Preset} (h : r.clear = .ok r₀) :
    r.loadPreset w realized q =
      (q.entries.foldlM (loadEntry w realized) (r₀, 0)).map Prod.fst := by
  rw [loadPreset, h]
  change (q.entries.foldlM (loadEntry w realized) (r₀, 0)).bind _ = _
  cases q.entries.foldlM (loadEntry w realized) (r₀, 0) with
  | error f => rfl
  | ok t => rfl

end Entries

end Rack

namespace RackWindow

variable {w : Installation} {realized : Bool} {s s' : RackWindow}

/-- The name of the label, and the loop that the members come to. -/
theorem loadPreset_ok {j : Json} (h : s.loadPreset w realized j = .ok s') :
    ∃ name j' plugins j'' r₀ t, memberOf "name".toList j = .ok (name, j') ∧
      memberOf "controls".toList j' = .ok (plugins, j'') ∧ s.rack.clear = .ok r₀ ∧
      (elements plugins).foldlM (Rack.loadElement w realized) (r₀, 0) = .ok t ∧
      s' = { rack := t.1, currentPatch := dump name } := by
  rw [loadPreset] at h
  obtain ⟨⟨name, j'⟩, hname, h⟩ := exists_of_bind_ok h
  obtain ⟨⟨plugins, j''⟩, hplugins, h⟩ := exists_of_bind_ok h
  obtain ⟨r₀, hr₀, h⟩ := exists_of_bind_ok h
  obtain ⟨t, ht, h⟩ := exists_of_bind_ok h
  cases h
  exact ⟨name, j', plugins, j'', r₀, t, hname, hplugins, mapError_eq_ok hr₀, ht, rfl⟩

/-- A preset that the loader reads without an exception is loaded as its entries are. -/
theorem loadPreset_eq {j : Json} {p : Preset} (h : Preset.ofJson j = some p)
    (hint : ∀ entry ∈ p.entries, ∀ f ∈ entry.file, -2 ^ 31 ≤ f.2 ∧ f.2 < 2 ^ 31) :
    ∃ name j', memberOf "name".toList j = .ok (name, j') ∧ s.loadPreset w realized j =
      ((s.rack.loadPreset w realized p).map fun r =>
        { rack := r, currentPatch := dump name }).mapError .fault := by
  unfold Preset.ofJson at h
  split at h
  · rename_i members hcontrols
    obtain ⟨entries, hentries, rfl⟩ := Option.map_eq_some_iff.mp h
    have hmap : (members.map (·.2)).mapM PresetEntry.ofJson = some entries := by
      rw [List.mapM_map]
      exact hentries
    obtain ⟨⟨name, j'⟩, hname⟩ : ∃ m, memberOf "name".toList j = .ok m := by
      cases j with
      | obj ms =>
        simp only [memberOf]
        cases (Json.obj ms).get? "name".toList with
        | none => exact ⟨_, rfl⟩
        | some v => exact ⟨_, rfl⟩
      | _ => cases hcontrols
    have hcontrols' := (get?_of_memberOf (by decide) hname).trans hcontrols
    refine ⟨name, j', hname, ?_⟩
    rw [loadPreset, hname]
    change (memberOf "controls".toList j' >>= _) = _
    rw [memberOf_of_get? hcontrols']
    cases hclear : s.rack.clear with
    | error f =>
      rw [Rack.loadPreset, hclear]
      rfl
    | ok r₀ =>
      rw [Rack.loadPreset_of_clear hclear]
      change ((members.map (·.2)).foldlM (Rack.loadElement w realized) (r₀, 0)).bind _ = _
      rw [Rack.foldlM_loadElement_eq hmap hint]
      cases entries.foldlM (Rack.loadEntry w realized) (r₀, 0) with
      | error f => rfl
      | ok t => rfl
  · cases h

theorem step_written {op : Op} (h : Rack.Written w s.rack) (hs : step w s op = .ok s') :
    Rack.Written w s'.rack := by
  cases op with
  | user op =>
    obtain ⟨r, hr, rfl⟩ := Engine.map_eq_ok (mapError_eq_ok hs)
    exact Rack.userStep_written h hr
  | loadPreset realized j =>
    obtain ⟨name, j', plugins, j'', r₀, t, -, -, hclear, ht, rfl⟩ := loadPreset_ok hs
    exact inv_of_run (fun (_ : Rack × ℕ) _ _ hw hone => Rack.loadElement_written hw hone)
      (Rack.clear_written h hclear) ht

theorem run_written {ops : List Op} (h : run (step w) {} ops = .ok s) : Rack.Written w s.rack :=
  inv_of_run (fun _ _ _ hw hs => step_written hw hs) Rack.written_empty h

/-- The second entry of the catalogue cannot be instantiated. -/
def partlyInstalled : Installation where
  lilv uri := if uri = "urn:amp".toList then some [] else none
  indeterminate _ _ := ⟨.float, 0, 1, 0⟩
  catalogue := [⟨"Amp".toList, "urn:amp".toList, some FILE_JSON⟩,
    ⟨"Cab".toList, "urn:cab".toList, none⟩]

def bareEntry (name : String) : PresetEntry where
  name := name.toList
  controls := []

end RackWindow

end AmpRack

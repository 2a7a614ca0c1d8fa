import AmpRack.MachineInts
import AmpRack.PresetTabs

/-!
# Stepping through the presets

The two arrows and the footswitch walk through the vector of the tab on the screen. The four tabs
share one counter: `next_preset` holds it against the size of the vector, `prev_preset` only against
zero.
-/

namespace AmpRack

open JsonText GuardedRun MachineInts

/-- What can go wrong in a step: `at` throws, the counter overflows, or a vector is full. -/
inductive StepFault
  | outOfRange
  | signedOverflow
  | lengthError
  deriving DecidableEq

/-- `max_size` of a vector whose elements take 16 bytes. -/
def maxSize : ℕ := 2 ^ 59 - 1

/-- A negative index is larger than any vector. -/
theorem maxSize_lt_sizeOfInt {n : ℤ} (h : n < 0) (h₀ : -2 ^ 31 ≤ n) : maxSize < sizeOfInt n := by
  rw [sizeOfInt_of_neg h h₀, maxSize]
  omega

structure PresetVector where
  toList : List Json
  length_le : toList.length ≤ maxSize

namespace PresetVector

def size (v : PresetVector) : ℕ := v.toList.length

def atIndex (v : PresetVector) (n : ℕ) : Except StepFault Json :=
  match v.toList[n]? with
  | some j => .ok j
  | none => .error .outOfRange

def pushBack (v : PresetVector) (j : Json) : Except StepFault PresetVector :=
  if h : v.toList.length < maxSize then .ok ⟨v.toList ++ [j], by rw [List.length_append]; exact h⟩
  else .error .lengthError

variable {v v' : PresetVector} {n : ℕ} {j : Json}

theorem size_le (v : PresetVector) : v.size ≤ maxSize := v.length_le

theorem atIndex_of_lt (h : n < v.size) : ∃ j, v.atIndex n = .ok j := by
  refine ⟨v.toList[n], ?_⟩
  rw [atIndex, List.getElem?_eq_getElem h]

theorem atIndex_of_le (h : v.size ≤ n) : v.atIndex n = .error .outOfRange := by
  rw [atIndex, List.getElem?_eq_none h]

theorem pushBack_ok (h : v.pushBack j = .ok v') : v'.toList = v.toList ++ [j] := by
  unfold pushBack at h
  split_ifs at h
  cases h
  rfl

theorem pushBack_error {e : StepFault} (h : v.pushBack j = .error e) : e = .lengthError := by
  unfold pushBack at h
  split_ifs at h
  cases h
  rfl

theorem pushBack_of_lt (h : v.toList.length < maxSize) : ∃ v', v.pushBack j = .ok v' :=
  ⟨_, dif_pos h⟩

end PresetVector

/-- `which` is the page that the notebook shows, `loaded` the preset that was last put into the
rack. -/
structure PresetSteps where
  listOfPresets : Tab → PresetVector
  which : Tab
  patch : ℤ := 0
  loaded : Option Json := none

/-- A vector grows by what `add_preset` puts at its end. -/
inductive StepOp
  | next
  | prev
  | switchPage (w : Tab)
  | addPreset (w : Tab) (j : Json)

namespace PresetSteps

def nextPreset (s : PresetSteps) : Except StepFault PresetSteps :=
  let presets := s.listOfPresets s.which
  if presets.size = 0 then .ok s
  else if s.patch + 1 < 2 ^ 31 then
    let patch := if presets.size - 1 < sizeOfInt (s.patch + 1) then 0 else s.patch + 1
    (presets.atIndex (sizeOfInt patch)).map fun j => { s with patch := patch, loaded := some j }
  else .error .signedOverflow

def prevPreset (s : PresetSteps) : Except StepFault PresetSteps :=
  let presets := s.listOfPresets s.which
  if presets.size = 0 then .ok s
  else if -2 ^ 31 ≤ s.patch - 1 then
    let patch := if s.patch - 1 < 0 then intOfSize (presets.size - 1) else s.patch - 1
    (presets.atIndex (sizeOfInt patch)).map fun j => { s with patch := patch, loaded := some j }
  else .error .signedOverflow

def step (s : PresetSteps) : StepOp → Except StepFault PresetSteps
  | .next => s.nextPreset
  | .prev => s.prevPreset
  | .switchPage w => .ok { s with which := w }
  | .addPreset w j => ((s.listOfPresets w).pushBack j).map fun v =>
      { s with listOfPresets := Function.update s.listOfPresets w v }

/-- The counter is never negative between the steps. -/
structure CounterOk (s : PresetSteps) : Prop where
  nonneg : 0 ≤ s.patch
  lt : s.patch < 2 ^ 31

/-- Stepping down asks that the counter is not past the end of this tab's vector, and stepping
around that the last index is an `int`; stepping up only that the counter can grow. -/
def StepOk (s : PresetSteps) : StepOp → Prop
  | .next => (s.listOfPresets s.which).size = 0 ∨ s.patch + 1 < 2 ^ 31
  | .prev => (s.listOfPresets s.which).size = 0 ∨
      s.patch ≤ (s.listOfPresets s.which).size ∧
        (s.patch = 0 → ((s.listOfPresets s.which).size - 1) % 2 ^ 32 < 2 ^ 31)
  | .switchPage _ => True
  | .addPreset _ _ => True

variable {s s' : PresetSteps} {op : StepOp}

theorem counterOk_of_atIndex {patch : ℤ} (h₀ : 0 ≤ patch) (hlt : patch < 2 ^ 31)
    (hsize : patch < (s.listOfPresets s.which).size) :
    ∃ s', ((s.listOfPresets s.which).atIndex (sizeOfInt patch)).map
      (fun j => { s with patch := patch, loaded := some j }) = .ok s' ∧ CounterOk s' := by
  rw [sizeOfInt_of_nonneg h₀ hlt]
  obtain ⟨j, hj⟩ := PresetVector.atIndex_of_lt (v := s.listOfPresets s.which) (n := patch.toNat)
    (by omega)
  rw [hj]
  exact ⟨_, rfl, h₀, hlt⟩

theorem next_ok (h : CounterOk s) (hok : StepOk s .next) :
    ∃ s', s.nextPreset = .ok s' ∧ CounterOk s' := by
  unfold nextPreset
  by_cases hempty : (s.listOfPresets s.which).size = 0
  · exact ⟨s, if_pos hempty, h⟩
  · have hlt : s.patch + 1 < 2 ^ 31 := hok.resolve_left hempty
    have hnonneg := h.nonneg
    simp only [if_neg hempty, if_pos hlt]
    rw [sizeOfInt_of_nonneg (by omega) hlt]
    by_cases hlast : (s.listOfPresets s.which).size - 1 < (s.patch + 1).toNat
    · rw [if_pos hlast]
      exact counterOk_of_atIndex le_rfl (by norm_num) (by omega)
    · rw [if_neg hlast]
      exact counterOk_of_atIndex (by omega) hlt (by omega)

theorem prev_ok (h : CounterOk s) (hok : StepOk s .prev) :
    ∃ s', s.prevPreset = .ok s' ∧ CounterOk s' := by
  unfold prevPreset
  by_cases hempty : (s.listOfPresets s.which).size = 0
  · exact ⟨s, if_pos hempty, h⟩
  · obtain ⟨hle, hwrap⟩ := hok.resolve_left hempty
    have hnonneg := h.nonneg
    have hlt := h.lt
    have hmin : -2 ^ 31 ≤ s.patch - 1 := by omega
    simp only [if_neg hempty, if_pos hmin]
    by_cases hzero : s.patch = 0
    · have hlast := hwrap hzero
      rw [if_pos (by omega), intOfSize_of_lt hlast]
      exact counterOk_of_atIndex (by omega) (by omega) (by omega)
    · rw [if_neg (by omega)]
      exact counterOk_of_atIndex (by omega) (by omega) (by omega)

theorem next_bad (hok : ¬ StepOk s .next) :
    s.nextPreset = .error .signedOverflow := by
  obtain ⟨hempty, hlt⟩ := not_or.mp hok
  simp only [nextPreset, if_neg hempty, if_neg hlt]

/-- The index that `prev_preset` comes to when it must not is past the end of the vector: it is
either too large an `int` or a negative one. -/
theorem prev_bad (h : CounterOk s) (hok : ¬ StepOk s .prev) :
    s.prevPreset = .error .outOfRange := by
  obtain ⟨hempty, hbad⟩ := not_or.mp hok
  have hnonneg := h.nonneg
  have hlt := h.lt
  have hmin : -2 ^ 31 ≤ s.patch - 1 := by omega
  have hpast {patch : ℤ} (hsize : (s.listOfPresets s.which).size ≤ sizeOfInt patch) :
      ((s.listOfPresets s.which).atIndex (sizeOfInt patch)).map
        (fun j => { s with patch := patch, loaded := some j }) = .error .outOfRange := by
    rw [PresetVector.atIndex_of_le hsize]
    rfl
  simp only [prevPreset, if_neg hempty, if_pos hmin]
  by_cases hzero : s.patch = 0
  · have hlast : 2 ^ 31 ≤ ((s.listOfPresets s.which).size - 1) % 2 ^ 32 := by
      by_contra hfits
      exact hbad ⟨by omega, fun _ => by omega⟩
    obtain ⟨hlow, hneg⟩ := intOfSize_of_le hlast
    rw [if_pos (by omega)]
    exact hpast (((s.listOfPresets s.which).size_le.trans_lt (maxSize_lt_sizeOfInt hneg hlow)).le)
  · have hlong : (s.listOfPresets s.which).size < s.patch := by
      by_contra hle
      exact hbad ⟨by omega, fun hz => absurd hz hzero⟩
    rw [if_neg (by omega)]
    apply hpast
    rw [sizeOfInt_of_nonneg (by omega) (by omega)]
    omega

theorem addPreset_cases (w : Tab) (j : Json) :
    (∃ v, ((s.listOfPresets w).pushBack j) = .ok v ∧
      s.step (.addPreset w j) = .ok { s with
        listOfPresets := Function.update s.listOfPresets w v }) ∨
      s.step (.addPreset w j) = .error .lengthError := by
  cases hpush : (s.listOfPresets w).pushBack j with
  | ok v =>
    refine .inl ⟨v, rfl, ?_⟩
    rw [step, hpush]
    rfl
  | error e =>
    right
    rw [step, hpush, PresetVector.pushBack_error hpush]
    rfl

/-- A guarded step keeps the counter; it can only end for want of room in a vector. -/
theorem step_ok (h : CounterOk s) (hok : StepOk s op) :
    (∀ e, s.step op = .error e → ¬ e ≠ .lengthError) ∧
      ∀ s', s.step op = .ok s' → CounterOk s' := by
  have hgoes {s' : PresetSteps} (hs : s.step op = .ok s') (h' : CounterOk s') :
      (∀ e, s.step op = .error e → ¬ e ≠ .lengthError) ∧
        ∀ s', s.step op = .ok s' → CounterOk s' := by
    rw [hs]
    refine ⟨fun e he => (by cases he), fun t ht => ?_⟩
    cases ht
    exact h'
  cases op with
  | next =>
    obtain ⟨s', hs, h'⟩ := next_ok h hok
    exact hgoes hs h'
  | prev =>
    obtain ⟨s', hs, h'⟩ := prev_ok h hok
    exact hgoes hs h'
  | switchPage w => exact hgoes rfl ⟨h.nonneg, h.lt⟩
  | addPreset w j =>
    rcases addPreset_cases (s := s) w j with ⟨v, -, hs⟩ | hs
    · exact hgoes hs ⟨h.nonneg, h.lt⟩
    · rw [hs]
      refine ⟨fun e he => ?_, fun t ht => (by cases ht)⟩
      cases he
      exact fun hne => hne rfl

theorem stepOk_of_step (h : CounterOk s)
    (hgoes : ∀ e, s.step op = .error e → ¬ e ≠ .lengthError) : StepOk s op := by
  by_contra hok
  cases op with
  | next => exact hgoes _ (next_bad hok) (by decide)
  | prev => exact hgoes _ (prev_bad h hok) (by decide)
  | switchPage w => exact hok trivial
  | addPreset w j => exact hok trivial

/-- In every run that starts with the counter of a new rack, `at` is always in range exactly when no
step down meets a counter that a longer tab has left past the end of this one, and no vector has
outgrown an `int`. -/
theorem inRange_iff_stepOk (listOfPresets : Tab → PresetVector) (which : Tab) (ops : List StepOp) :
    Safe step (fun e => e ≠ .lengthError) (fun _ => True)
        { listOfPresets := listOfPresets, which := which } ops ↔
      Admits step StepOk { listOfPresets := listOfPresets, which := which } ops :=
  safe_iff_admits (fun _ _ => trivial) (fun _ _ => step_ok)
    (fun _ _ h hgoes _ => stepOk_of_step h hgoes) ⟨le_rfl, by norm_num⟩

/-- Three presets come with the program and one is the user's: two steps up, the other tab, and a
step down. -/
theorem step_down_in_shorter_tab : ∃ listOfPresets : Tab → PresetVector,
    ¬ Safe step (fun e => e ≠ .lengthError) (fun _ => True)
        { listOfPresets := listOfPresets, which := .factory }
        [.next, .next, .switchPage .user, .prev] := by
  let one : PresetVector := ⟨[.null], by decide⟩
  let three : PresetVector := ⟨[.null, .null, .null], by decide⟩
  refine ⟨fun w => if w = .factory then three else one, fun hsafe => ?_⟩
  exact (hsafe _ (List.prefix_refl _)).2 .outOfRange rfl (by decide)

end PresetSteps

section Tabs

/-- Presets put at the ends of the vectors, one after the other. -/
def grow (lists : Tab → List Json) (added : List (Tab × Json)) : Tab → List Json :=
  added.foldl (fun lists a => Function.update lists a.1 (lists a.1 ++ [a.2])) lists

variable {lists : Tab → List Json} {added : List (Tab × Json)}

theorem grow_map (lists : Tab → List Json) (w : Tab) (js : List Json) :
    grow lists (js.map fun j => (w, j)) = Function.update lists w (lists w ++ js) := by
  induction js generalizing lists with
  | nil => rw [List.append_nil, Function.update_eq_self]; rfl
  | cons j js ih =>
    rw [List.map_cons, grow, List.foldl_cons, ← grow, ih]
    simp

theorem length_le_grow (lists : Tab → List Json) (added : List (Tab × Json)) (w : Tab) :
    (lists w).length ≤ (grow lists added w).length := by
  induction added generalizing lists with
  | nil => exact le_rfl
  | cons a added ih =>
    rw [grow, List.foldl_cons, ← grow]
    refine le_trans ?_ (ih _)
    by_cases hw : w = a.1
    · rw [hw, Function.update_self, List.length_append]
      exact Nat.le_add_right _ _
    · rw [Function.update_of_ne hw]

namespace PresetTabs

variable {entry : Folder → Text → Option (Folder × Text)} {s s' : PresetTabs}

theorem grow_of_libraryLoad (h : s.libraryLoad = .ok s') (hl : s.listOfPresets = lists) :
    ∃ added, s'.listOfPresets = grow lists added := by
  have hp := addPresetMulti_pushed (s := { s with rows := Function.update s.rows .library [] }) h
  rw [hp.listOfPresets, hl, ← grow_map]
  exact ⟨_, rfl⟩

theorem grow_of_setValue {v : ℚ} (h : s.setValue v = .ok s') (hl : s.listOfPresets = lists) :
    ∃ added, s'.listOfPresets = grow lists added := by
  rcases setValue_ok h with ⟨-, rfl⟩ | ⟨-, h⟩
  · exact ⟨[], hl⟩
  · exact grow_of_libraryLoad h hl

theorem grow_of_import {presets : List Json}
    (h : presets.foldlM (importPreset entry) s = .ok s') :
    ∃ added, s'.listOfPresets = grow s.listOfPresets added := by
  induction presets generalizing s with
  | nil =>
    cases h
    exact ⟨[], rfl⟩
  | cons preset presets ih =>
    rw [List.foldlM_cons] at h
    obtain ⟨s₁, hturn, hrest⟩ := exists_of_bind_ok h
    obtain ⟨added, hadded⟩ := ih hrest
    obtain ⟨name, preset', -, -, rfl⟩ := importPreset_ok hturn
    exact ⟨(.user, preset') :: added, hadded⟩

/-- Whatever happens in the tabs, presets are only put at the ends of the vectors. -/
theorem grow_of_step {op : TabOp} (h : step entry s op = .ok s') :
    ∃ added, s'.listOfPresets = grow s.listOfPresets added := by
  cases op with
  | save name saved elsewhere =>
    obtain ⟨j, -, -, rfl⟩ := save_ok h
    exact ⟨[(.user, j)], rfl⟩
  | importPresets j => exact grow_of_import h
  | delete row elsewhere =>
    rcases delete_ok h with ⟨-, rfl⟩ | ⟨-, -, name, rfl⟩
    · exact ⟨[], rfl⟩
    · exact ⟨[], rfl⟩
  | heart w row active =>
    rcases heart_ok h with ⟨-, rfl⟩ | ⟨j, name, -, -, ⟨-, rfl⟩ | ⟨-, rfl⟩⟩
    · exact ⟨[], rfl⟩
    · exact ⟨[(.heart, withDesc j)], rfl⟩
    · exact ⟨[], rfl⟩
  | refresh downloaded => exact grow_of_libraryLoad h rfl
  | spin v => exact grow_of_setValue h rfl
  | next => exact grow_of_setValue h rfl
  | prev => exact grow_of_setValue h rfl

end PresetTabs

namespace PresetSteps

theorem run_addPreset {s : PresetSteps} (hlists : ∀ w, (s.listOfPresets w).toList = lists w)
    (hroom : ∀ w, (grow lists added w).length ≤ maxSize) :
    ∃ s', run step s (added.map fun a => .addPreset a.1 a.2) = .ok s' ∧
      (∀ w, (s'.listOfPresets w).toList = grow lists added w) ∧
        s'.which = s.which ∧ s'.patch = s.patch := by
  induction added generalizing s lists with
  | nil => exact ⟨s, rfl, hlists, rfl, rfl⟩
  | cons a added ih =>
    obtain ⟨w, j⟩ := a
    have hlt : (s.listOfPresets w).toList.length < maxSize := by
      have hgrown := length_le_grow (Function.update lists w (lists w ++ [j])) added w
      rw [Function.update_self, List.length_append, List.length_singleton] at hgrown
      rw [hlists]
      exact Nat.lt_of_lt_of_le (Nat.lt_succ_self _) (hgrown.trans (hroom w))
    obtain ⟨v, hv⟩ := PresetVector.pushBack_of_lt (j := j) hlt
    have hstep : s.step (.addPreset w j) = .ok { s with
        listOfPresets := Function.update s.listOfPresets w v } := by
      rw [step, hv]
      rfl
    have hlists' (w' : Tab) : (Function.update s.listOfPresets w v w').toList =
        Function.update lists w (lists w ++ [j]) w' := by
      by_cases hw : w' = w
      · rw [hw, Function.update_self, Function.update_self, PresetVector.pushBack_ok hv, hlists]
      · rw [Function.update_of_ne hw, Function.update_of_ne hw, hlists]
    obtain ⟨s', hrun, hrest⟩ := ih (s := { s with
        listOfPresets := Function.update s.listOfPresets w v }) hlists' hroom
    exact ⟨s', (run_cons_ok hstep _).trans hrun, hrest⟩

/-- What an operation on the tabs does to the vectors is a run of this machine that leaves the
counter and the page alone. -/
theorem run_of_tabs {entry : Folder → Text → Option (Folder × Text)} {t t' : PresetTabs}
    {op : TabOp} {s : PresetSteps} (h : PresetTabs.step entry t op = .ok t')
    (hlists : ∀ w, (s.listOfPresets w).toList = t.listOfPresets w)
    (hroom : ∀ w, (t'.listOfPresets w).length ≤ maxSize) :
    ∃ (added : List (Tab × Json)) (s' : PresetSteps),
      run step s (added.map fun a => .addPreset a.1 a.2) = .ok s' ∧
      (∀ w, (s'.listOfPresets w).toList = t'.listOfPresets w) ∧
        s'.which = s.which ∧ s'.patch = s.patch := by
  obtain ⟨added, hadded⟩ := PresetTabs.grow_of_step h
  rw [hadded] at hroom ⊢
  exact ⟨added, run_addPreset hlists hroom⟩

end PresetSteps

end Tabs

end AmpRack

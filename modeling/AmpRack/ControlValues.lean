import AmpRack.Preset
import Mathlib.Data.List.Perm.Subperm

/-!
# The control values of a preset

`getPreset` writes a value for every control that is no atom port, a card has a slider for every
control that is not `ATOM`, and the loader gives the values to the sliders in turn. The values reach
their own controls exactly when no LV2 atom port stands in front of a control that is written.
-/

namespace AmpRack

open TextScan JsonText

/-- The calls of `gtk_range_set_value` that loading the text makes, in order, with the numbers before
they are stored in a `float`. -/
def PluginUI.loadPreset (ui : PluginUI) (controls : Text) : List (Slider × ℚ) :=
  ui.sliders.zip ((getlines ';' controls).map atof)

def PluginControl.isLv2Atom (c : PluginControl) : Bool := c.isAtom && !(c.type = .atom)

/-- The controls that `getPreset` writes, with their values; the first of `cs` has the index `n`. -/
def savedControls (cs : List PluginControl) (n : ℕ) : List (ℕ × ℚ) :=
  (cs.zipIdx n).filterMap fun c => if c.1.isAtom then none else c.1.defValue.map (c.2, ·)

def slidersFrom (cs : List PluginControl) (n : ℕ) : List Slider :=
  (cs.zipIdx n).filterMap fun c => sliderOf c.1 c.2

/-- Every control that is written has a value. -/
def Valued (cs : List PluginControl) : Prop := ∀ c ∈ cs, c.isAtom = false → c.defValue.isSome

def AtomPortsLast (cs : List PluginControl) : Prop :=
  cs.Pairwise fun c d => c.isLv2Atom → d.isAtom

section Load

theorem map_snd_zip_eq_take {α β : Type*} (xs : List α) (ys : List β) :
    (xs.zip ys).map (·.2) = ys.take xs.length := by
  induction xs generalizing ys with
  | nil => rfl
  | cons x xs ih =>
    cases ys with
    | nil => rfl
    | cons y ys => exact congrArg (y :: ·) (ih ys)

namespace Rack

variable {realized : Bool} {card : ℕ}

/-- Values without a slider are not looked at. -/
theorem foldlM_rangeSetValue_take (values : List Floating) (n : ℕ) {r : Rack} {ui : PluginUI}
    (hui : r.uiv[card]? = some ui) :
    (values.zipIdx n).foldlM (fun r v => rangeSetValue realized r card v.2 v.1) r =
      ((values.take (ui.sliders.length - n)).zipIdx n).foldlM
        (fun r v => rangeSetValue realized r card v.2 v.1) r := by
  induction values generalizing n r ui with
  | nil => rw [List.take_nil]
  | cons v values ih =>
    rcases Nat.lt_or_ge n ui.sliders.length with hn | hn
    · obtain ⟨m, hm⟩ : ∃ m, ui.sliders.length - n = m + 1 := ⟨ui.sliders.length - n - 1, by omega⟩
      rw [hm, List.take_succ_cons, List.zipIdx_cons, List.zipIdx_cons, List.foldlM_cons,
        List.foldlM_cons]
      cases hr : r.rangeSetValue realized card n v with
      | error f => rfl
      | ok r₁ =>
        obtain ⟨ui₁, hui₁, hsame, -⟩ := rangeSetValue_card hui hr
        have hlen : ui₁.sliders.length = ui.sliders.length := by
          have := congrArg List.length hsame.controls
          rwa [List.length_map, List.length_map] at this
        have hrest := ih (n + 1) hui₁
        rw [hlen, show ui.sliders.length - (n + 1) = m by omega] at hrest
        exact hrest
    · rw [Nat.sub_eq_zero_of_le hn, List.take_zero, List.zipIdx_cons, List.foldlM_cons,
        rangeSetValue_none hui (List.getElem?_eq_none hn)]
      have hrest := ih (n + 1) hui
      rw [Nat.sub_eq_zero_of_le (Nat.le_succ_of_le hn), List.take_zero] at hrest
      exact hrest

/-- The rack loads a text of decimal numbers through the calls of the card. -/
theorem loadControls_eq {r : Rack} {ui : PluginUI} (hui : r.uiv[card]? = some ui) {controls : Text}
    (hdecimal : ∀ line ∈ getlines ';' controls, Decimal line) :
    r.loadControls realized card controls =
      (((ui.loadPreset controls).map fun call => (Floating.number call.2).toFloat).zipIdx).foldlM
        (fun r v => rangeSetValue realized r card v.2 v.1) r := by
  have hread : (getlines ';' controls).map readFloat =
      ((getlines ';' controls).map atof).map fun v => (Floating.number v).toFloat := by
    rw [List.map_map]
    exact List.map_congr_left fun line hline => readFloat_of_decimal (hdecimal line hline)
  have htake : (ui.loadPreset controls).map (fun call => (Floating.number call.2).toFloat) =
      ((getlines ';' controls).map readFloat).take ui.sliders.length := by
    have hsnd := congrArg (List.map fun v => (Floating.number v).toFloat)
      (map_snd_zip_eq_take ui.sliders ((getlines ';' controls).map atof))
    rw [List.map_map, List.map_take] at hsnd
    rw [hread, ← hsnd]
    rfl
  rw [htake, loadControls, foldlM_rangeSetValue_take _ 0 hui, Nat.sub_zero]

end Rack

end Load

section Save

theorem foldlM_controlText {cs : List PluginControl} (h : Valued cs) (n : ℕ) (text : Text) :
    cs.foldlM (fun controls c =>
      if c.isAtom then (.ok controls : Except Fault Text)
      else
        match c.defValue with
        | none => .error .nullDef
        | some v => .ok (controls ++ fixed 6 v ++ [';'])) text =
      .ok (text ++ (savedControls cs n).flatMap fun c => fixed 6 c.2 ++ [';']) := by
  induction cs generalizing n text with
  | nil =>
    rw [savedControls, List.zipIdx_nil, List.filterMap_nil, List.flatMap_nil, List.append_nil]
    rfl
  | cons c cs ih =>
    have hrest : Valued cs := fun d hd => h d (List.mem_cons_of_mem c hd)
    rw [List.foldlM_cons, savedControls, List.zipIdx_cons]
    cases hc : c.isAtom with
    | true =>
      rw [List.filterMap_cons_none (by simp [hc])]
      exact ih hrest (n + 1) text
    | false =>
      obtain ⟨v, hv⟩ := Option.isSome_iff_exists.mp (h c List.mem_cons_self hc)
      rw [List.filterMap_cons_some (b := (n, v)) (by simp [hc, hv]), List.flatMap_cons]
      simp only [hv]
      apply (ih hrest (n + 1) _).trans
      simp [savedControls]

theorem controlText_eq {p : Plugin} (h : Valued p.pluginControls) :
    p.controlText = .ok ((savedControls p.pluginControls 0).flatMap fun c => fixed 6 c.2 ++ [';']) :=
  foldlM_controlText h 0 []

theorem escapeChar_of_isDigit {c : Char} (h : c.isDigit = true) : escapeChar c = [c] := by
  have hne (d : Char) (hd : d.isDigit = false) : c ≠ d := by
    rintro rfl
    rw [h] at hd
    cases hd
  have hrange : 0x20 ≤ c.toNat := by
    simp only [Char.isDigit, Bool.and_eq_true, decide_eq_true_eq, ge_iff_le, UInt32.le_iff_toNat_le] at h
    have h48 : 48 ≤ c.toNat := h.1
    omega
  apply escapeChar_eq
  simp only [needsNoEscape, Bool.and_eq_true, bne_iff_ne, decide_eq_true_eq]
  exact ⟨⟨hne '"' (by decide), hne '\\' (by decide)⟩, hrange⟩

theorem escapeChar_of_mem_fixed {d : ℕ} {q : ℚ} : ∀ c ∈ fixed d q, escapeChar c = [c] := by
  intro c hc
  rcases mem_fixed hc with rfl | rfl | hc
  · rfl
  · rfl
  · exact escapeChar_of_isDigit hc

theorem getlines_saved (saved : List (ℕ × ℚ)) :
    getlines ';' (saved.flatMap fun c => fixed 6 c.2 ++ [';']) = saved.map fun c => fixed 6 c.2 := by
  have hlines : saved.flatMap (fun c => fixed 6 c.2 ++ [';']) =
      (saved.map fun c => fixed 6 c.2).flatMap (· ++ [';']) := by
    rw [List.flatMap_map]
  rw [hlines, getlines_flatMap]
  intro w hw
  obtain ⟨c, -, rfl⟩ := List.mem_map.mp hw
  exact delim_not_mem_fixed c.2

/-- Reading the control text gives the values, rounded as they were written. -/
theorem values_of_controlText (saved : List (ℕ × ℚ)) :
    (getlines ';' (strip (dump (.str (saved.flatMap fun c => fixed 6 c.2 ++ [';']))))).map atof =
      saved.map fun c => roundTo 6 c.2 := by
  have hplain : escape (saved.flatMap fun c => fixed 6 c.2 ++ [';']) =
      saved.flatMap fun c => fixed 6 c.2 ++ [';'] := by
    apply escape_of_forall
    intro c hc
    obtain ⟨s, -, hc⟩ := List.mem_flatMap.mp hc
    rcases List.mem_append.mp hc with hc | hc
    · exact escapeChar_of_mem_fixed c hc
    · rw [List.mem_singleton.mp hc]
      rfl
  rw [strip_dump_str, hplain, getlines_saved, List.map_map]
  exact List.map_congr_left fun c _ => atof_fixed (by decide) c.2

/-- The text that a plugin was saved with is loaded through the calls of the card. -/
theorem Rack.loadControls_controlText {realized : Bool} {card : ℕ} {r : Rack} {ui : PluginUI}
    (hui : r.uiv[card]? = some ui) {p : Plugin} (hp : Valued p.pluginControls) {controls : Text}
    (hcontrols : p.controlText = .ok controls) :
    r.loadControls realized card controls =
      (((ui.loadPreset controls).map fun call => (Floating.number call.2).toFloat).zipIdx).foldlM
        (fun r v => rangeSetValue realized r card v.2 v.1) r := by
  rw [controlText_eq hp, Except.ok.injEq] at hcontrols
  subst hcontrols
  apply Rack.loadControls_eq hui
  intro line hline
  rw [getlines_saved] at hline
  obtain ⟨c, -, rfl⟩ := List.mem_map.mp hline
  exact decimal_fixed c.2

end Save

section Match

variable {cs : List PluginControl} {n : ℕ}

/-- The calls set every saved control to its value, and no slider of a control without a value. -/
structure SetsSaved (cs : List PluginControl) (n : ℕ) (calls : List (Slider × ℚ)) : Prop where
  all : ∀ c ∈ savedControls cs n, ∃ call ∈ calls, call.1.control = c.1 ∧ call.2 = roundTo 6 c.2
  only : ∀ call ∈ calls, ∃ c, (c, call.1.control) ∈ cs.zipIdx n ∧ c.defValue.isSome

def callsFrom (cs : List PluginControl) (n : ℕ) : List (Slider × ℚ) :=
  (slidersFrom cs n).zip ((savedControls cs n).map fun c => roundTo 6 c.2)

section Cons

variable {c : PluginControl}

theorem savedControls_cons_skip (hc : c.isAtom = true) :
    savedControls (c :: cs) n = savedControls cs (n + 1) := by
  rw [savedControls, List.zipIdx_cons, List.filterMap_cons_none (by simp [hc])]
  rfl

theorem savedControls_cons {v : ℚ} (hc : c.isAtom = false) (hv : c.defValue = some v) :
    savedControls (c :: cs) n = (n, v) :: savedControls cs (n + 1) := by
  rw [savedControls, List.zipIdx_cons, List.filterMap_cons_some (b := (n, v)) (by simp [hc, hv])]
  rfl

theorem slidersFrom_cons_skip (hc : c.type = .atom) :
    slidersFrom (c :: cs) n = slidersFrom cs (n + 1) := by
  rw [slidersFrom, List.zipIdx_cons, List.filterMap_cons_none (by simp [sliderOf, hc])]
  rfl

theorem slidersFrom_cons (hc : c.type ≠ .atom) :
    slidersFrom (c :: cs) n = .new n c :: slidersFrom cs (n + 1) := by
  rw [slidersFrom, List.zipIdx_cons,
    List.filterMap_cons_some (b := .new n c) (by simp [sliderOf, hc])]
  rfl

end Cons

theorem type_ne_atom {c : PluginControl} (h : c.isAtom = false) : c.type ≠ .atom := by
  intro hc
  simp [PluginControl.isAtom, hc] at h

theorem le_of_mem_savedControls {c : ℕ × ℚ} (h : c ∈ savedControls cs n) : n ≤ c.1 := by
  obtain ⟨⟨d, i⟩, hd, hc⟩ := List.mem_filterMap.mp h
  have hi := (List.mem_zipIdx hd).1
  split_ifs at hc
  obtain ⟨v, -, rfl⟩ := Option.map_eq_some_iff.mp hc
  exact hi

theorem le_of_mem_slidersFrom {s : Slider} (h : s ∈ slidersFrom cs n) : n ≤ s.control := by
  obtain ⟨⟨d, i⟩, hd, hs⟩ := List.mem_filterMap.mp h
  have hi := (List.mem_zipIdx hd).1
  simp only [sliderOf] at hs
  split_ifs at hs
  cases hs
  exact hi

theorem le_of_mem_callsFrom {call : Slider × ℚ} (h : call ∈ callsFrom cs n) : n ≤ call.1.control :=
  le_of_mem_slidersFrom (List.of_mem_zip h).1

theorem Valued.of_cons {c : PluginControl} (h : Valued (c :: cs)) : Valued cs :=
  fun d hd => h d (List.mem_cons_of_mem c hd)

theorem nodup_savedControls (h : Valued cs) (n : ℕ) : ((savedControls cs n).map (·.1)).Nodup := by
  induction cs generalizing n with
  | nil => exact List.nodup_nil
  | cons c cs ih =>
    cases hc : c.isAtom with
    | true =>
      rw [savedControls_cons_skip hc]
      exact ih h.of_cons (n + 1)
    | false =>
      obtain ⟨v, hv⟩ := Option.isSome_iff_exists.mp (h c List.mem_cons_self hc)
      rw [savedControls_cons hc hv, List.map_cons, List.nodup_cons]
      refine ⟨fun hn => ?_, ih h.of_cons (n + 1)⟩
      obtain ⟨c', hc', hcn⟩ := List.mem_map.mp hn
      have := le_of_mem_savedControls hc'
      omega

theorem isAtom_of_savedControls_nil (h : Valued cs) (hnil : savedControls cs n = []) :
    ∀ c ∈ cs, c.isAtom = true := by
  induction cs generalizing n with
  | nil => exact fun c hc => (by cases hc)
  | cons c cs ih =>
    cases hc : c.isAtom with
    | true =>
      rw [savedControls_cons_skip hc] at hnil
      exact List.forall_mem_cons.mpr ⟨hc, ih h.of_cons hnil⟩
    | false =>
      obtain ⟨v, hv⟩ := Option.isSome_iff_exists.mp (h c List.mem_cons_self hc)
      rw [savedControls_cons hc hv] at hnil
      cases hnil

theorem savedControls_of_isAtom (h : ∀ c ∈ cs, c.isAtom = true) (n : ℕ) :
    savedControls cs n = [] := by
  induction cs generalizing n with
  | nil => rfl
  | cons c cs ih =>
    obtain ⟨hc, hcs⟩ := List.forall_mem_cons.mp h
    rw [savedControls_cons_skip hc, ih hcs]

/-- With one slider in front that is not meant, some saved control goes without its value. -/
theorem savedControls_nil_of_shifted (h : Valued cs) {s : Slider} (hs : s.control < n)
    (hall : ∀ c ∈ savedControls cs n, ∃ call ∈ (s :: slidersFrom cs n).zip
      ((savedControls cs n).map fun c => roundTo 6 c.2), call.1.control = c.1) :
    savedControls cs n = [] := by
  cases hsaved : savedControls cs n with
  | nil => rfl
  | cons e es =>
    rw [hsaved] at hall
    have hsub : ((e :: es).map (·.1)) ⊆
        ((slidersFrom cs n).zip (es.map fun c => roundTo 6 c.2)).map (·.1.control) := by
      intro k hk
      obtain ⟨c, hc, rfl⟩ := List.mem_map.mp hk
      obtain ⟨call, hcall, hcontrol⟩ := hall c hc
      rw [List.map_cons, List.zip_cons_cons] at hcall
      rcases List.mem_cons.mp hcall with rfl | hcall
      · have hle := le_of_mem_savedControls (hsaved ▸ hc)
        simp only at hcontrol
        omega
      · exact List.mem_map.mpr ⟨call, hcall, hcontrol⟩
    have hnodup := nodup_savedControls h n
    rw [hsaved] at hnodup
    have hlen := (List.subperm_of_subset hnodup hsub).length_le
    simp only [List.length_map, List.length_cons, List.length_zip] at hlen
    omega

theorem setsSaved_cons {c : PluginControl} {v : ℚ} (hc : c.isAtom = false)
    (hv : c.defValue = some v) :
    SetsSaved (c :: cs) n (callsFrom (c :: cs) n) ↔ SetsSaved cs (n + 1) (callsFrom cs (n + 1)) := by
  have hcalls : callsFrom (c :: cs) n = (.new n c, roundTo 6 v) :: callsFrom cs (n + 1) := by
    rw [callsFrom, savedControls_cons hc hv, slidersFrom_cons (type_ne_atom hc)]
    rfl
  rw [hcalls]
  constructor
  · intro h
    refine ⟨fun e he => ?_, fun call hcall => ?_⟩
    · have hlt := le_of_mem_savedControls he
      obtain ⟨call, hcall, hcontrol, hvalue⟩ :=
        h.all e (by rw [savedControls_cons hc hv]; exact List.mem_cons_of_mem _ he)
      rcases List.mem_cons.mp hcall with rfl | hcall
      · have hn : n = e.1 := hcontrol
        omega
      · exact ⟨call, hcall, hcontrol, hvalue⟩
    · obtain ⟨d, hd, hdef⟩ := h.only call (List.mem_cons_of_mem _ hcall)
      have hlt := le_of_mem_callsFrom hcall
      rw [List.zipIdx_cons] at hd
      rcases List.mem_cons.mp hd with heq | hd
      · have hn : call.1.control = n := congrArg Prod.snd heq
        omega
      · exact ⟨d, hd, hdef⟩
  · intro h
    refine ⟨fun e he => ?_, fun call hcall => ?_⟩
    · rw [savedControls_cons hc hv] at he
      rcases List.mem_cons.mp he with rfl | he
      · exact ⟨_, List.mem_cons_self, rfl, rfl⟩
      · obtain ⟨call, hcall, hset⟩ := h.all e he
        exact ⟨call, List.mem_cons_of_mem _ hcall, hset⟩
    · rw [List.zipIdx_cons]
      rcases List.mem_cons.mp hcall with rfl | hcall
      · exact ⟨c, List.mem_cons_self, by rw [hv]; rfl⟩
      · obtain ⟨d, hd, hdef⟩ := h.only call hcall
        exact ⟨d, List.mem_cons_of_mem _ hd, hdef⟩

theorem setsSaved_cons_skip {c : PluginControl} (hc : c.isAtom = true) (htype : c.type = .atom) :
    SetsSaved (c :: cs) n (callsFrom (c :: cs) n) ↔ SetsSaved cs (n + 1) (callsFrom cs (n + 1)) := by
  have hcalls : callsFrom (c :: cs) n = callsFrom cs (n + 1) := by
    rw [callsFrom, savedControls_cons_skip hc, slidersFrom_cons_skip htype]
    rfl
  rw [hcalls]
  constructor
  · intro h
    refine ⟨by rw [← savedControls_cons_skip hc]; exact h.all, fun call hcall => ?_⟩
    obtain ⟨d, hd, hdef⟩ := h.only call hcall
    have hlt := le_of_mem_callsFrom hcall
    rw [List.zipIdx_cons] at hd
    rcases List.mem_cons.mp hd with heq | hd
    · have hn : call.1.control = n := congrArg Prod.snd heq
      omega
    · exact ⟨d, hd, hdef⟩
  · intro h
    refine ⟨by rw [savedControls_cons_skip hc]; exact h.all, fun call hcall => ?_⟩
    obtain ⟨d, hd, hdef⟩ := h.only call hcall
    exact ⟨d, by rw [List.zipIdx_cons]; exact List.mem_cons_of_mem _ hd, hdef⟩

/-- An LV2 atom port has a slider and no value, so no value may come after it. -/
theorem setsSaved_cons_lv2Atom {c : PluginControl} (h : Valued cs) (hc : c.isAtom = true)
    (htype : c.type ≠ .atom) :
    SetsSaved (c :: cs) n (callsFrom (c :: cs) n) ↔ ∀ d ∈ cs, d.isAtom = true := by
  have hcalls : callsFrom (c :: cs) n = (.new n c :: slidersFrom cs (n + 1)).zip
      ((savedControls cs (n + 1)).map fun c => roundTo 6 c.2) := by
    rw [callsFrom, savedControls_cons_skip hc, slidersFrom_cons htype]
  rw [hcalls]
  constructor
  · intro hset
    have hall := hset.all
    rw [savedControls_cons_skip hc] at hall
    refine isAtom_of_savedControls_nil h (n := n + 1) (savedControls_nil_of_shifted h
      (s := .new n c) (Nat.lt_succ_self n) fun e he => ?_)
    obtain ⟨call, hcall, hcontrol, -⟩ := hall e he
    exact ⟨call, hcall, hcontrol⟩
  · intro hatoms
    have hnil := savedControls_of_isAtom hatoms (n + 1)
    refine ⟨?_, ?_⟩
    · rw [savedControls_cons_skip hc, hnil]
      intro e he
      cases he
    · rw [hnil, List.map_nil, List.zip_nil_right]
      intro call hcall
      cases hcall

/-- The induction is on the controls; each type of control is dealt with above. -/
theorem setsSaved_iff (h : Valued cs) (n : ℕ) :
    SetsSaved cs n (callsFrom cs n) ↔ AtomPortsLast cs := by
  induction cs generalizing n with
  | nil =>
    refine ⟨fun _ => List.Pairwise.nil, fun _ => ⟨?_, ?_⟩⟩
    · intro e he
      cases he
    · intro call hcall
      cases hcall
  | cons c cs ih =>
    rw [AtomPortsLast, List.pairwise_cons]
    cases hc : c.isAtom with
    | false =>
      obtain ⟨v, hv⟩ := Option.isSome_iff_exists.mp (h c List.mem_cons_self hc)
      rw [setsSaved_cons hc hv, ih h.of_cons]
      simp [PluginControl.isLv2Atom, hc, AtomPortsLast]
    | true =>
      by_cases htype : c.type = .atom
      · rw [setsSaved_cons_skip hc htype, ih h.of_cons]
        simp [PluginControl.isLv2Atom, htype, AtomPortsLast]
      · rw [setsSaved_cons_lv2Atom h.of_cons hc htype]
        have hlv2 : c.isLv2Atom = true := by simp [PluginControl.isLv2Atom, hc, htype]
        refine ⟨fun hatoms => ⟨fun d hd _ => hatoms d hd, ?_⟩, fun hlast d hd => hlast.1 d hd hlv2⟩
        exact List.pairwise_of_forall_mem_list fun _ _ d hd _ => hatoms d hd

end Match

/-- Loading the control text that `getPreset` writes for `p` into the card of `p`. -/
def Plugin.ValuesRestored (p : Plugin) (index : ℤ) (fileType : Option ℤ) : Prop :=
  ∃ text, p.controlText = .ok text ∧ SetsSaved p.pluginControls 0
    ((PluginUI.new p index fileType).loadPreset (strip (dump (.str text))))

/-- Every saved value reaches the slider of its control, and no other slider is set, exactly when no
LV2 atom port stands in front of a control that is saved. -/
theorem valuesRestored_iff_atomPortsLast (p : Plugin) (index : ℤ) (fileType : Option ℤ)
    (h : Valued p.pluginControls) :
    p.ValuesRestored index fileType ↔ AtomPortsLast p.pluginControls := by
  have hcalls : (PluginUI.new p index fileType).loadPreset
      (strip (dump (.str ((savedControls p.pluginControls 0).flatMap
        fun c => fixed 6 c.2 ++ [';'])))) = callsFrom p.pluginControls 0 := by
    rw [PluginUI.loadPreset, values_of_controlText]
    rfl
  rw [← setsSaved_iff h 0, ← hcalls, Plugin.ValuesRestored, controlText_eq h]
  constructor
  · rintro ⟨text, htext, hset⟩
    cases htext
    exact hset
  · exact fun hset => ⟨_, rfl, hset⟩

/-- An `ATOM` control between two others, and an atom port behind them. -/
def mixedPlugin : Plugin where
  id := 0
  pluginControls := [⟨.float, 0, 1, 0, some (1 / 3)⟩, ⟨.atom, 0, 0, 0, none⟩,
    ⟨.toggle, 0, 1, 0, some 1⟩, ⟨.lv2AtomOutputPort, 0, 0, 0, none⟩]

theorem valuesRestored_mixedPlugin :
    Valued mixedPlugin.pluginControls ∧
      (mixedPlugin.ValuesRestored 0 none ↔ AtomPortsLast mixedPlugin.pluginControls) :=
  have h : Valued mixedPlugin.pluginControls := by
    unfold Valued
    decide
  ⟨h, valuesRestored_iff_atomPortsLast mixedPlugin 0 none h⟩

/-- The constructor makes an atom port and a control of these ports, in this order. -/
def midiWorld : World where
  lilv _ := some [{ isAtom := true, isInput := true },
    { isControl := true, isInput := true, dflt := 1 / 2 }]
  indeterminate _ _ := ⟨.float, 0, 1, 0⟩

/-- The one value goes to the slider of the atom port, which has none to set. -/
theorem atom_port_takes_value :
    (Plugin.new midiWorld 0 []).controlText = .ok "0.500000;".toList ∧
      ((PluginUI.new (Plugin.new midiWorld 0 []) 0 none).loadPreset "0.500000;".toList).map
        (fun call => (call.1.control, call.2)) = [(0, 1 / 2)] ∧
      ¬ (Plugin.new midiWorld 0 []).ValuesRestored 0 none := by
  have htext : (Plugin.new midiWorld 0 []).controlText = .ok "0.500000;".toList := by
    decide +kernel
  refine ⟨htext, by decide +kernel, ?_⟩
  rintro ⟨text, hok, hset⟩
  rw [htext] at hok
  cases hok
  have hsaved : ((1, 1 / 2) : ℕ × ℚ) ∈ savedControls (Plugin.new midiWorld 0 []).pluginControls 0 := by
    decide +kernel
  have hfirst : ∀ call ∈ (PluginUI.new (Plugin.new midiWorld 0 []) 0 none).loadPreset
      (strip (dump (.str "0.500000;".toList))), call.1.control = 0 := by decide +kernel
  obtain ⟨call, hcall, hcontrol, -⟩ := hset.all _ hsaved
  have := hfirst call hcall
  omega

end AmpRack

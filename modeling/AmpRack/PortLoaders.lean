import AmpRack.KeyOrder
import AmpRack.LadspaControl

/-!
# The two ways of loading ports

The LV2 URI constructor asks lilv for the ports and walks them by number. `Plugin::load` has a JSON
description of the plugin, whose keys are the numbers, and walks its members, which stand in the
order of the keys as texts. Both note the first two audio ports of either direction and make the
controls.
-/

namespace JsonText.Json

open TextScan

/-- A conversion to `int`. -/
def toInt : Json → Option ℤ
  | .int n => some n
  | .float literal => some (Int.tdiv (atof literal).num (atof literal).den)
  | .bool b => some (if b then 1 else 0)
  | _ => none

/-- A conversion to `float`. -/
def toFloat : Json → Option ℚ
  | .int n => some n
  | .float literal => some (atof literal)
  | .bool b => some (if b then 1 else 0)
  | _ => none

def toText : Json → Option (List Char)
  | .str s => some s
  | _ => none

def toBool : Json → Option Bool
  | .bool b => some b
  | _ => none

def contains (j : Json) (key : String) : Bool := (j.get? key.toList).isSome

/-- `j.find (key).value () == true`. -/
def holds (j : Json) (key : String) : Bool := (j.get? key.toList).bind toBool == some true

end JsonText.Json

namespace AmpRack

open TextScan JsonText

inductive PortClass
  | audio
  | control
  | atom
  deriving DecidableEq

/-- The bounds are those of a control. -/
structure Port where
  portClass : PortClass
  isInput : Bool
  name : Text := []
  min : ℚ := 0
  max : ℚ := 1
  dflt : ℚ := 0

/-- The port as lilv has it. -/
def Port.lilv (p : Port) : LilvPort where
  isAudio := p.portClass = .audio
  isControl := p.portClass = .control
  isAtom := p.portClass = .atom
  isInput := p.isInput
  isOutput := !p.isInput
  min := p.min
  max := p.max
  dflt := p.dflt

/-- What either loader finds out about the ports. Each control is kept with the port that it is
for. -/
structure LoadedPorts extends NotedPorts where
  lv2Name : Text := []
  pluginControls : List (ℕ × PluginControl) := []

def LoadedPorts.pushControl (s : LoadedPorts) (port : ℕ) (c : PluginControl) : LoadedPorts :=
  { s with pluginControls := s.pluginControls ++ [(port, c)] }

section Lilv

/-- One turn of the loop of the URI constructor. -/
def LoadedPorts.addPort (junk : ℕ → Indeterminate) (s : LoadedPorts) (i : ℕ) (port : LilvPort) :
    LoadedPorts :=
  if port.isAudio then
    if port.isOutput then { s with toNotedPorts := s.addOutputPort i }
    else if port.isInput then { s with toNotedPorts := s.addInputPort i }
    else s
  else if port.isControl then
    if port.isInput then s.pushControl i (.ofControlPort (junk i) port) else s
  else if port.isAtom then s.pushControl i (.ofAtomPort (junk i) port)
  else s

def LoadedPorts.addPorts (junk : ℕ → Indeterminate) (s : LoadedPorts) (i : ℕ) :
    List LilvPort → LoadedPorts
  | [] => s
  | port :: ports => addPorts junk (s.addPort junk i port) (i + 1) ports

/-- The ports as the URI constructor leaves them. -/
def LoadedPorts.ofLilv (junk : ℕ → Indeterminate) (ports : List LilvPort) : LoadedPorts :=
  LoadedPorts.addPorts junk {} 0 ports

end Lilv

section Load

/-- A bound is a number or the text of one. -/
def boundOf : Json → Option ℚ
  | .str s => stof s
  | j => j.toFloat

/-- `PluginControl (const LV2_Descriptor *, nlohmann::json)`; `none` when it throws. The `def` of an
atom port is allocated and not set. -/
def PluginControl.ofJson (junk : Indeterminate) (j : Json) : Option PluginControl := do
  let _ ← (j.get? "logarithmic".toList).elim (some false) Json.toBool
  let _ ← (j.get? "index".toList).bind Json.toInt
  let _ ← (j.get? "name".toList).bind Json.toText
  if j.holds "InputPort" && j.holds "ControlPort" then
    let type := if j.holds "toggle" then .toggle else .float
    let max ← (j.get? "maximum".toList).bind boundOf
    let min ← (j.get? "minimum".toList).bind boundOf
    let dflt ← (j.get? "default".toList).bind boundOf
    let d := clampDefault min max dflt
    return { type := type, min := min, max := max, val := d, defValue := some d }
  else if j.holds "InputPort" && j.holds "AtomPort" then
    return { type := .atom, min := 0, max := 1, val := junk.val, defValue := some junk.val }
  else
    return { type := junk.type, min := junk.min, max := junk.max, val := junk.val, defValue := none }

/-- One turn of the loop of `Plugin::load`. The value is written out and parsed again. The number of
the port is a member of its own. The buffers of the atom ports are not part of this. -/
def LoadedPorts.loadPort (junk : ℕ → Indeterminate) (s : LoadedPorts) (el : Text × Json) :
    Option LoadedPorts :=
  if el.1 = "-1".toList then some s
  else do
    let jsonPort ← parse (dump el.2)
    let _ ← (jsonPort.get? "name".toList).bind Json.toText
    let port ← (jsonPort.get? "index".toList).bind Json.toInt
    if jsonPort.contains "AudioPort" then
      if jsonPort.contains "InputPort" then return { s with toNotedPorts := s.addInputPort port }
      else if jsonPort.contains "OutputPort" then
        return { s with toNotedPorts := s.addOutputPort port }
      else return s
    else if jsonPort.contains "InputPort" && jsonPort.contains "ControlPort" then
      return s.pushControl port.toNat (← PluginControl.ofJson (junk port.toNat) jsonPort)
    else if jsonPort.contains "OutputPort" && jsonPort.contains "ControlPort" then return s
    else if jsonPort.contains "AtomPort" && jsonPort.contains "InputPort" then do
      let _ ← (jsonPort.get? "minimumSize".toList).bind Json.toInt
      return s.pushControl port.toNat (← PluginControl.ofJson (junk port.toNat) jsonPort)
    else if jsonPort.contains "AtomPort" && jsonPort.contains "OutputPort" then do
      let _ ← (jsonPort.get? "minimumSize".toList).bind Json.toInt
      return s
    else return s

/-- The ports as `Plugin::load` leaves them; `none` when it throws. -/
def LoadedPorts.load (junk : ℕ → Indeterminate) (j : Json) : Option LoadedPorts := do
  let info ← j.get? "-1".toList
  let lv2Name ← (info.get? "pluginName".toList).bind Json.toText
  let _ ← (info.get? "prefix".toList).elim (some []) Json.toText
  match j with
  | .obj members => members.foldlM (LoadedPorts.loadPort junk) { lv2Name := lv2Name }
  | _ => return { lv2Name := lv2Name }

end Load

section Description

/-- The JSON description of a port. -/
structure Port.Describes (p : Port) (i : ℕ) (j : Json) : Prop where
  wellFormed : j.WellFormed
  index : j.get? "index".toList = some (.int i)
  name : j.get? "name".toList = some (.str p.name)
  audioPort : j.get? "AudioPort".toList =
    if p.portClass = .audio then some (.bool true) else none
  controlPort : j.get? "ControlPort".toList =
    if p.portClass = .control then some (.bool true) else none
  atomPort : j.get? "AtomPort".toList =
    if p.portClass = .atom then some (.bool true) else none
  inputPort : j.get? "InputPort".toList = if p.isInput then some (.bool true) else none
  outputPort : j.get? "OutputPort".toList = if p.isInput then none else some (.bool true)
  bounds : p.portClass = .control → p.isInput = true →
    (j.get? "minimum".toList).bind boundOf = some p.min ∧
      (j.get? "maximum".toList).bind boundOf = some p.max ∧
        (j.get? "default".toList).bind boundOf = some p.dflt
  logarithmic : ∀ v ∈ j.get? "logarithmic".toList, ∃ b, v = .bool b
  minimumSize : p.portClass = .atom → ∃ n, j.get? "minimumSize".toList = some (.int n)

/-- The JSON description of a plugin with these ports. -/
structure Described (ports : List Port) (j : Json) : Prop where
  members : ∃ info js, j = .obj (insert "-1".toList info (numbered js)) ∧
    js.length = ports.length ∧
    (∀ (i : ℕ) (p : Port) (v : Json), ports[i]? = some p → js[i]? = some v → p.Describes i v) ∧
    (∃ name, info.get? "pluginName".toList = some (.str name)) ∧
    ∀ v ∈ info.get? "prefix".toList, ∃ s, v = .str s

end Description

namespace LoadedPorts

section Walk

/-- The port is of the class and the direction. -/
def picks (ports : List Port) (c : PortClass) (isInput : Bool) (i : ℕ) : Bool :=
  ports[i]?.any fun p => decide (p.portClass = c) && (p.isInput == isInput)

/-- The numbers of these ports. -/
def portsOf (ports : List Port) (c : PortClass) (isInput : Bool) : List ℕ :=
  (List.range ports.length).filter (picks ports c isInput)

/-- The first two of the ports, in the places for them. -/
def noted : List ℕ → ℤ × ℤ
  | [] => (-1, -1)
  | [a] => (a, -1)
  | a :: b :: _ => (a, b)

/-- The ports of the control inputs among the controls. -/
def controlInputs (ports : List Port) (s : LoadedPorts) : List ℕ :=
  (s.pluginControls.map (·.1)).filter (picks ports .control true)

/-- What a walk over these ports has come to. -/
structure Walked (ports : List Port) (is : List ℕ) (s : LoadedPorts) : Prop where
  inputs : (s.inputPort, s.inputPort2) = noted (is.filter (picks ports .audio true))
  outputs : (s.outputPort, s.outputPort2) = noted (is.filter (picks ports .audio false))
  controls : controlInputs ports s = is.filter (picks ports .control true)

/-- A turn of either loop. They differ in the atom outputs, for which only the URI constructor makes
a control. -/
def Turn (p : Port) (i : ℕ) (s s' : LoadedPorts) : Prop :=
  match p.portClass, p.isInput with
  | .audio, true => s' = { s with toNotedPorts := s.addInputPort i }
  | .audio, false => s' = { s with toNotedPorts := s.addOutputPort i }
  | .control, true => ∃ c, s' = s.pushControl i c
  | .control, false => s' = s
  | .atom, _ => s' = s ∨ ∃ c, s' = s.pushControl i c

variable {ports : List Port} {is : List ℕ} {s s' : LoadedPorts} {i : ℕ} {p : Port}

theorem walked_nil (ports : List Port) (lv2Name : Text) : Walked ports [] { lv2Name := lv2Name } :=
  ⟨rfl, rfl, rfl⟩

theorem picks_of_some (h : ports[i]? = some p) (c : PortClass) (isInput : Bool) :
    picks ports c isInput i = (decide (p.portClass = c) && (p.isInput == isInput)) := by
  rw [picks, h, Option.any_some]

/-- The next port goes to the first place that is free. -/
theorem noted_concat (l : List ℕ) (i : ℕ) :
    noted (l ++ [i]) =
      if (noted l).1 = -1 then ((i : ℤ), (noted l).2)
      else if (noted l).2 = -1 then ((noted l).1, (i : ℤ))
      else noted l := by
  match l with
  | [] => rfl
  | [a] =>
    have ha : (a : ℤ) ≠ -1 := by omega
    simp [noted, ha]
  | a :: b :: l =>
    have ha : (a : ℤ) ≠ -1 := by omega
    have hb : (b : ℤ) ≠ -1 := by omega
    simp [noted, ha, hb]

theorem noted_addInputPort {q : NotedPorts} {l : List ℕ}
    (h : (q.inputPort, q.inputPort2) = noted l) (i : ℕ) :
    ((q.addInputPort i).inputPort, (q.addInputPort i).inputPort2) = noted (l ++ [i]) := by
  rw [noted_concat, ← h, NotedPorts.addInputPort]
  split_ifs <;> rfl

theorem noted_addOutputPort {q : NotedPorts} {l : List ℕ}
    (h : (q.outputPort, q.outputPort2) = noted l) (i : ℕ) :
    ((q.addOutputPort i).outputPort, (q.addOutputPort i).outputPort2) = noted (l ++ [i]) := by
  rw [noted_concat, ← h, NotedPorts.addOutputPort]
  split_ifs <;> rfl

theorem outputs_addInputPort (q : NotedPorts) (port : ℤ) :
    ((q.addInputPort port).outputPort, (q.addInputPort port).outputPort2) =
      (q.outputPort, q.outputPort2) := by
  unfold NotedPorts.addInputPort
  split_ifs <;> rfl

theorem inputs_addOutputPort (q : NotedPorts) (port : ℤ) :
    ((q.addOutputPort port).inputPort, (q.addOutputPort port).inputPort2) =
      (q.inputPort, q.inputPort2) := by
  unfold NotedPorts.addOutputPort
  split_ifs <;> rfl

/-- A port that is picked is the last of those that are. -/
theorem filter_picks_of (hp : ports[i]? = some p) {c : PortClass} {isInput : Bool}
    (h : p.portClass = c ∧ p.isInput = isInput) :
    (is ++ [i]).filter (picks ports c isInput) = is.filter (picks ports c isInput) ++ [i] := by
  have hpick : picks ports c isInput i = true := by
    rw [picks_of_some hp, h.1, h.2]
    simp
  rw [List.filter_append, List.filter_singleton, hpick]
  rfl

theorem filter_picks_of_not (hp : ports[i]? = some p) {c : PortClass} {isInput : Bool}
    (h : ¬ (p.portClass = c ∧ p.isInput = isInput)) :
    (is ++ [i]).filter (picks ports c isInput) = is.filter (picks ports c isInput) := by
  have hpick : picks ports c isInput i = false := by
    rw [picks_of_some hp]
    simpa using h
  rw [List.filter_append, List.filter_singleton, hpick]
  exact List.append_nil _

theorem controlInputs_pushControl (ports : List Port) (s : LoadedPorts) (i : ℕ)
    (c : PluginControl) : controlInputs ports (s.pushControl i c) =
      (s.pluginControls.map (·.1) ++ [i]).filter (picks ports .control true) := by
  rw [controlInputs, pushControl, List.map_append, List.map_singleton]

/-- A turn brings the walk one port further. -/
theorem walked_turn (h : Walked ports is s) (hp : ports[i]? = some p) (ht : Turn p i s s') :
    Walked ports (is ++ [i]) s' := by
  unfold Turn at ht
  split at ht
  · rename_i hclass hinput
    subst ht
    constructor
    · rw [filter_picks_of hp ⟨hclass, hinput⟩]
      exact noted_addInputPort h.inputs i
    · rw [filter_picks_of_not hp (by simp [hinput]), outputs_addInputPort]
      exact h.outputs
    · rw [filter_picks_of_not hp (by simp [hclass])]
      exact h.controls
  · rename_i hclass hinput
    subst ht
    constructor
    · rw [filter_picks_of_not hp (by simp [hinput]), inputs_addOutputPort]
      exact h.inputs
    · rw [filter_picks_of hp ⟨hclass, hinput⟩]
      exact noted_addOutputPort h.outputs i
    · rw [filter_picks_of_not hp (by simp [hclass])]
      exact h.controls
  · rename_i hclass hinput
    obtain ⟨c, rfl⟩ := ht
    constructor
    · rw [filter_picks_of_not hp (by simp [hclass])]
      exact h.inputs
    · rw [filter_picks_of_not hp (by simp [hclass])]
      exact h.outputs
    · rw [controlInputs_pushControl, filter_picks_of hp ⟨hclass, hinput⟩,
        filter_picks_of hp ⟨hclass, hinput⟩, ← h.controls]
      rfl
  · rename_i hclass hinput
    subst ht
    constructor
    · rw [filter_picks_of_not hp (by simp [hclass])]
      exact h.inputs
    · rw [filter_picks_of_not hp (by simp [hclass])]
      exact h.outputs
    · rw [filter_picks_of_not hp (by simp [hinput])]
      exact h.controls
  · rename_i hclass
    have hcontrols : controlInputs ports s' = controlInputs ports s := by
      rcases ht with rfl | ⟨c, rfl⟩
      · rfl
      · rw [controlInputs_pushControl, filter_picks_of_not hp (by simp [hclass])]
        rfl
    constructor
    · rw [filter_picks_of_not hp (by simp [hclass])]
      rcases ht with rfl | ⟨c, rfl⟩ <;> exact h.inputs
    · rw [filter_picks_of_not hp (by simp [hclass])]
      rcases ht with rfl | ⟨c, rfl⟩ <;> exact h.outputs
    · rw [hcontrols, filter_picks_of_not hp (by simp [hclass])]
      exact h.controls

end Walk

section Lilv

variable {ports : List Port} {s : LoadedPorts}

theorem turn_addPort (junk : ℕ → Indeterminate) (p : Port) (i : ℕ) (s : LoadedPorts) :
    Turn p i s (s.addPort junk i p.lilv) := by
  obtain ⟨portClass, isInput, _⟩ := p
  cases portClass <;> cases isInput
  · exact rfl
  · exact rfl
  · exact rfl
  · exact ⟨_, rfl⟩
  · exact .inr ⟨_, rfl⟩
  · exact .inr ⟨_, rfl⟩

theorem walked_addPorts (junk : ℕ → Indeterminate) (before after : List Port)
    (h : Walked (before ++ after) (List.range before.length) s) :
    Walked (before ++ after) (List.range (before ++ after).length)
      (s.addPorts junk before.length (after.map Port.lilv)) := by
  induction after generalizing before s with
  | nil =>
    rw [List.append_nil] at h ⊢
    exact h
  | cons p after ih =>
    have hturn := walked_turn h (i := before.length) (p := p) (by simp)
      (turn_addPort junk p before.length s)
    rw [← List.range_succ] at hturn
    have happ : before ++ [p] ++ after = before ++ p :: after := by
      rw [List.append_assoc, List.singleton_append]
    have hlen : (before ++ [p]).length = before.length + 1 := by
      rw [List.length_append, List.length_singleton]
    have hrest := ih (before ++ [p]) (s := s.addPort junk before.length p.lilv)
      (by rwa [happ, hlen])
    rw [happ, hlen] at hrest
    exact hrest

/-- The URI constructor walks the ports by number. -/
theorem walked_ofLilv (junk : ℕ → Indeterminate) (ports : List Port) :
    Walked ports (List.range ports.length) (ofLilv junk (ports.map Port.lilv)) :=
  walked_addPorts junk [] ports (walked_nil ports [])

end Lilv

section Load

variable {ports : List Port} {p : Port} {i : ℕ} {v : Json}

theorem minusOne_lt_toDigits (n : ℕ) : "-1".toList < Nat.toDigits 10 n := by
  obtain ⟨c, ds, hcd⟩ := List.exists_cons_of_ne_nil (Nat.toDigits_ne_nil (b := 10) (n := n))
  have hc : c.isDigit = true :=
    Nat.isDigit_of_mem_toDigits (b := 10) (n := n) (by decide) (by decide)
      (by rw [hcd]; exact List.mem_cons_self)
  have hlt : '-' < c := by
    simp only [Char.isDigit, Bool.and_eq_true, decide_eq_true_eq] at hc
    exact lt_of_lt_of_le (by decide : '-' < '0') hc.1
  rw [hcd]
  exact List.Lex.rel hlt

theorem contains_of_ite {b : Prop} [Decidable b] {j w : Json} {key : String}
    (h : j.get? key.toList = if b then some w else none) : j.contains key = decide b := by
  rw [Json.contains, h]
  by_cases hb : b <;> simp [hb]

theorem holds_of_ite {b : Prop} [Decidable b] {j : Json} {key : String}
    (h : j.get? key.toList = if b then some (.bool true) else none) : j.holds key = decide b := by
  rw [Json.holds, h]
  by_cases hb : b <;> simp [hb, Json.toBool]

theorem contains_outputPort (h : p.Describes i v) : v.contains "OutputPort" = !p.isInput := by
  rw [Json.contains, h.outputPort]
  cases p.isInput <;> rfl

/-- The description of an input has all that its control needs. -/
theorem exists_ofJson (h : p.Describes i v) (hinput : p.isInput = true) (junk : Indeterminate) :
    ∃ c, PluginControl.ofJson junk v = some c := by
  have hin : v.holds "InputPort" = true := by
    rw [holds_of_ite h.inputPort]
    exact decide_eq_true hinput
  have hcontrol := holds_of_ite h.controlPort
  have hatom := holds_of_ite h.atomPort
  obtain ⟨b, hb⟩ : ∃ b, (v.get? "logarithmic".toList).elim (some false) Json.toBool = some b := by
    cases hlog : v.get? "logarithmic".toList with
    | none => exact ⟨_, rfl⟩
    | some w =>
      obtain ⟨b, rfl⟩ := h.logarithmic w hlog
      exact ⟨b, rfl⟩
  unfold PluginControl.ofJson
  simp only [hb, h.index, h.name, Json.toInt, Json.toText, hin, hcontrol, hatom, Option.bind_eq_bind,
    Option.bind_some, Bool.true_and, decide_eq_true_eq]
  by_cases hc : p.portClass = .control
  · obtain ⟨hmin, hmax, hdflt⟩ := h.bounds hc hinput
    rw [if_pos hc, hmin, hmax, hdflt]
    exact ⟨_, rfl⟩
  · rw [if_neg hc]
    split_ifs <;> exact ⟨_, rfl⟩

theorem turn_loadPort (junk : ℕ → Indeterminate) (h : p.Describes i v) (s : LoadedPorts) :
    ∃ s', s.loadPort junk (Nat.toDigits 10 i, v) = some s' ∧ Turn p i s s' := by
  have hkey : Nat.toDigits 10 i ≠ "-1".toList := (minusOne_lt_toDigits i).ne'
  have hname : (v.get? "name".toList).bind Json.toText = some p.name := by
    rw [h.name]
    rfl
  have hindex : (v.get? "index".toList).bind Json.toInt = some (i : ℤ) := by
    rw [h.index]
    rfl
  have haudio := contains_of_ite h.audioPort
  have hcontrol := contains_of_ite h.controlPort
  have hatom := contains_of_ite h.atomPort
  have hin := contains_of_ite h.inputPort
  have hout := contains_outputPort h
  unfold loadPort
  rw [if_neg hkey]
  simp only [parse_dump h.wellFormed, Option.bind_eq_bind, Option.bind_some, hname, hindex]
  rw [haudio, hcontrol, hatom, hin, hout]
  obtain ⟨portClass, isInput, _⟩ := p
  cases portClass
  · cases isInput <;> exact ⟨_, rfl, rfl⟩
  · cases isInput
    · exact ⟨_, rfl, rfl⟩
    · obtain ⟨c, hc⟩ := exists_ofJson h rfl (junk i)
      simp only [reduceCtorEq, decide_false, decide_true, Bool.false_eq_true, if_false, if_true,
        Bool.and_self, Int.toNat_natCast, hc]
      exact ⟨_, rfl, c, rfl⟩
  · obtain ⟨n, hn⟩ := h.minimumSize rfl
    have hsize : (v.get? "minimumSize".toList).bind Json.toInt = some n := by
      rw [hn]
      rfl
    cases isInput
    · simp only [reduceCtorEq, decide_false, decide_true, Bool.false_eq_true, if_false, if_true,
        Bool.and_self, Bool.and_false, Bool.not_false, hsize]
      exact ⟨_, rfl, .inl rfl⟩
    · obtain ⟨c, hc⟩ := exists_ofJson h rfl (junk i)
      simp only [reduceCtorEq, decide_false, decide_true, Bool.false_eq_true, if_false, if_true,
        Bool.and_self, Bool.and_false, Bool.not_true, Int.toNat_natCast, hsize, hc]
      exact ⟨_, rfl, .inr ⟨c, rfl⟩⟩

theorem walked_foldlM (junk : ℕ → Indeterminate) {value : ℕ → Json}
    (hvalue : ∀ (i : ℕ) (p : Port), ports[i]? = some p → p.Describes i (value i)) {done rest : List ℕ}
    (hrest : ∀ i ∈ rest, i < ports.length) {s : LoadedPorts} (h : Walked ports done s) :
    ∃ s', (rest.map fun i => (Nat.toDigits 10 i, value i)).foldlM (loadPort junk) s = some s' ∧
      Walked ports (done ++ rest) s' := by
  induction rest generalizing done s with
  | nil =>
    rw [List.append_nil]
    exact ⟨s, rfl, h⟩
  | cons i rest ih =>
    obtain ⟨p, hp⟩ : ∃ p, ports[i]? = some p :=
      ⟨_, List.getElem?_eq_getElem (hrest i List.mem_cons_self)⟩
    obtain ⟨s₁, hs₁, hturn⟩ := turn_loadPort junk (hvalue i p hp) s
    obtain ⟨s', hs', hwalked⟩ := ih (fun k hk => hrest k (List.mem_cons_of_mem i hk))
      (walked_turn h hp hturn)
    rw [List.map_cons, List.foldlM_cons, hs₁]
    rw [List.append_assoc, List.singleton_append] at hwalked
    exact ⟨s', hs', hwalked⟩

theorem insert_minusOne (info : Json) (js : List Json) :
    insert "-1".toList info (numbered js) = ("-1".toList, info) :: numbered js := by
  cases hms : numbered js with
  | nil => rfl
  | cons m ms =>
    obtain ⟨-, k, hk⟩ := exists_of_mem_numbered (hms ▸ List.mem_cons_self : m ∈ numbered js)
    rw [JsonText.insert, if_pos (by rw [hk]; exact minusOne_lt_toDigits k)]

/-- `Plugin::load` walks the ports in the order of their numbers as texts. -/
theorem walked_load (junk : ℕ → Indeterminate) {j : Json} (h : Described ports j) :
    ∃ s, load junk j = some s ∧ Walked ports (keyOrder ports.length) s := by
  obtain ⟨info, js, rfl, hlength, hvalues, ⟨name, hname⟩, hprefix⟩ := h.members
  obtain ⟨before, hbefore⟩ : ∃ before, (info.get? "prefix".toList).elim (some []) Json.toText =
      some before := by
    cases hp : info.get? "prefix".toList with
    | none => exact ⟨_, rfl⟩
    | some w =>
      obtain ⟨s, rfl⟩ := hprefix w hp
      exact ⟨s, rfl⟩
  have hvalue (i : ℕ) (p : Port) (hp : ports[i]? = some p) : p.Describes i (js.getD i .null) := by
    have hi : i < js.length := by
      rw [hlength]
      exact (List.getElem?_eq_some_iff.mp hp).1
    have hjs : js[i]? = some (js.getD i .null) := by
      rw [List.getD_eq_getElem?_getD, List.getElem?_eq_getElem hi, Option.getD_some]
    exact hvalues i p _ hp hjs
  have hkeys (i : ℕ) (hi : i ∈ keyOrder ports.length) : i < ports.length :=
    List.mem_range.mp ((keyOrder_perm _).subset hi)
  obtain ⟨s, hs, hwalked⟩ := walked_foldlM junk hvalue hkeys (walked_nil ports name)
  refine ⟨s, ?_, hwalked⟩
  unfold load
  rw [get?_insert]
  simp only [Option.bind_eq_bind, Option.bind_some, hname, Json.toText, hbefore]
  rw [insert_minusOne, List.foldlM_cons, loadPort, if_pos rfl, numbered_eq_map, hlength]
  exact hs

end Load

section Same

/-- Both have the same audio ports, and the same control inputs in the same order. -/
structure SamePorts (ports : List Port) (s s' : LoadedPorts) : Prop where
  inputPort : s'.inputPort = s.inputPort
  inputPort2 : s'.inputPort2 = s.inputPort2
  outputPort : s'.outputPort = s.outputPort
  outputPort2 : s'.outputPort2 = s.outputPort2
  controls : controlInputs ports s' = controlInputs ports s

/-- Of the audio ports of each direction, the first two by number are so as texts, and the numbers of
the control inputs increase as texts. -/
structure KeysOk (ports : List Port) : Prop where
  inputs : FirstTwo (Nat.toDigits 10) (portsOf ports .audio true)
  outputs : FirstTwo (Nat.toDigits 10) (portsOf ports .audio false)
  controls : (portsOf ports .control true).Pairwise fun i j => Nat.toDigits 10 i < Nat.toDigits 10 j

variable {ports : List Port} {s s' : LoadedPorts}

theorem noted_eq_iff {l l' : List ℕ} : noted l = noted l' ↔ l.take 2 = l'.take 2 := by
  match l, l' with
  | [], [] => simp
  | [], [a] => simp [noted]
  | [], a :: b :: l => simp [noted]
  | [a], [] => simp [noted]
  | [a], [b] => simp [noted]
  | [a], b :: c :: l => simp [noted]
  | a :: b :: l, [] => simp [noted]
  | a :: b :: l, [c] => simp [noted]
  | a :: b :: l, c :: d :: l' => simp [noted]

theorem samePorts_iff (h : Walked ports (List.range ports.length) s)
    (h' : Walked ports (keyOrder ports.length) s') : SamePorts ports s s' ↔ KeysOk ports := by
  have hinputs : (s'.inputPort, s'.inputPort2) = (s.inputPort, s.inputPort2) ↔
      FirstTwo (Nat.toDigits 10) (portsOf ports .audio true) := by
    rw [h.inputs, h'.inputs, noted_eq_iff]
    exact take_two_keyOrder_iff
  have houtputs : (s'.outputPort, s'.outputPort2) = (s.outputPort, s.outputPort2) ↔
      FirstTwo (Nat.toDigits 10) (portsOf ports .audio false) := by
    rw [h.outputs, h'.outputs, noted_eq_iff]
    exact take_two_keyOrder_iff
  have hcontrols : controlInputs ports s' = controlInputs ports s ↔
      (portsOf ports .control true).Pairwise fun i j => Nat.toDigits 10 i < Nat.toDigits 10 j := by
    rw [h.controls, h'.controls]
    exact filter_keyOrder_iff
  rw [Prod.mk.injEq] at hinputs houtputs
  constructor
  · intro hsame
    exact ⟨hinputs.mp ⟨hsame.inputPort, hsame.inputPort2⟩,
      houtputs.mp ⟨hsame.outputPort, hsame.outputPort2⟩, hcontrols.mp hsame.controls⟩
  · intro hkeys
    obtain ⟨hin, hin2⟩ := hinputs.mpr hkeys.inputs
    obtain ⟨hout, hout2⟩ := houtputs.mpr hkeys.outputs
    exact ⟨hin, hin2, hout, hout2, hcontrols.mpr hkeys.controls⟩

/-- Of up to ten ports the numbers are single digits. -/
theorem keysOk_of_le (h : ports.length ≤ 10) : KeysOk ports := by
  have hrange : keyOrder ports.length = List.range ports.length := keyOrder_of_le h
  constructor
  · exact take_two_keyOrder_iff.mp (by rw [hrange])
  · exact take_two_keyOrder_iff.mp (by rw [hrange])
  · exact filter_keyOrder_iff.mp (by rw [hrange])

/-- A description of a port whose bounds are zero and one. -/
def portMembers (p : Port) (i : ℕ) : Members :=
  [((match p.portClass with
    | .audio => "AudioPort"
    | .control => "ControlPort"
    | .atom => "AtomPort").toList, .bool true),
    ((if p.isInput then "InputPort" else "OutputPort").toList, .bool true),
    ("default".toList, .int 0), ("index".toList, .int i), ("maximum".toList, .int 1),
    ("minimum".toList, .int 0), ("minimumSize".toList, .int 8192), ("name".toList, .str p.name)]

def portJson (p : Port) (i : ℕ) : Json := .obj (portMembers p i)

def pluginJson (ports : List Port) : Json :=
  .obj (insert "-1".toList (.obj [("pluginName".toList, .str [])])
    (numbered (ports.zipIdx.map fun e => portJson e.1 e.2)))

def portKeys (portClass : PortClass) (isInput : Bool) : List Text :=
  [(match portClass with
    | .audio => "AudioPort"
    | .control => "ControlPort"
    | .atom => "AtomPort").toList,
    (if isInput then "InputPort" else "OutputPort").toList, "default".toList, "index".toList,
    "maximum".toList, "minimum".toList, "minimumSize".toList, "name".toList]

theorem portKeys_sorted (portClass : PortClass) (isInput : Bool) :
    (portKeys portClass isInput).Pairwise (· < ·) ∧
      "logarithmic".toList ∉ portKeys portClass isInput := by
  cases portClass <;> cases isInput <;> decide

theorem mem_portKeys_iff (portClass : PortClass) (isInput : Bool) :
    ("AudioPort".toList ∈ portKeys portClass isInput ↔ portClass = .audio) ∧
      ("ControlPort".toList ∈ portKeys portClass isInput ↔ portClass = .control) ∧
        ("AtomPort".toList ∈ portKeys portClass isInput ↔ portClass = .atom) ∧
          ("InputPort".toList ∈ portKeys portClass isInput ↔ isInput = true) ∧
            ("OutputPort".toList ∈ portKeys portClass isInput ↔ isInput = false) := by
  cases portClass <;> cases isInput <;> decide

theorem sortedKeys_portMembers (p : Port) (i : ℕ) : SortedKeys (portMembers p i) :=
  (portKeys_sorted p.portClass p.isInput).1

theorem get?_portJson {p : Port} {i : ℕ} {m : Text × Json} (h : m ∈ portMembers p i) :
    (portJson p i).get? m.1 = some m.2 :=
  get?_of_mem (sortedKeys_portMembers p i).nodup h

/-- A flag is there and true, or it is not there. -/
theorem get?_portJson_flag {p : Port} {i : ℕ} {key : Text} {q : Prop} [Decidable q]
    (hkey : key ∈ portKeys p.portClass p.isInput ↔ q)
    (hmem : q → (key, Json.bool true) ∈ portMembers p i) :
    (portJson p i).get? key = if q then some (.bool true) else none := by
  split_ifs with hq
  · exact get?_portJson (hmem hq)
  · exact get?_of_notMem fun h => hq (hkey.mp h)

theorem describes_portJson {p : Port} (hmin : p.min = 0) (hmax : p.max = 1) (hdflt : p.dflt = 0)
    {i : ℕ} (hi : i < 2 ^ 63) : p.Describes i (portJson p i) := by
  have hvalue {key : Text} {v : Json} (h : (key, v) ∈ portMembers p i) :
      (portJson p i).get? key = some v := get?_portJson h
  have hzero : boundOf (.int 0) = some (0 : ℚ) := congrArg some Int.cast_zero
  have hone : boundOf (.int 1) = some (1 : ℚ) := congrArg some Int.cast_one
  have hindex : (-2 ^ 63 : ℤ) ≤ i ∧ (i : ℤ) < 2 ^ 64 := by omega
  obtain ⟨haudio, hcontrol, hatom, hinput, houtput⟩ := mem_portKeys_iff p.portClass p.isInput
  constructor
  · refine ⟨sortedKeys_portMembers p i, trivial, trivial, ?_, hindex, ?_, ?_, ?_, trivial,
      trivial⟩ <;> exact ⟨by decide, by decide⟩
  · exact hvalue (by simp [portMembers])
  · exact hvalue (by simp [portMembers])
  · exact get?_portJson_flag haudio fun h => by simp [portMembers, h]
  · exact get?_portJson_flag hcontrol fun h => by simp [portMembers, h]
  · exact get?_portJson_flag hatom fun h => by simp [portMembers, h]
  · exact get?_portJson_flag hinput fun h => by simp [portMembers, h]
  · have hflag := get?_portJson_flag (i := i) houtput fun h => by simp [portMembers, h]
    rw [hflag]
    cases p.isInput <;> rfl
  · intro _ _
    rw [hvalue (v := .int 0) (by simp [portMembers]), hvalue (v := .int 1) (by simp [portMembers]),
      hvalue (v := .int 0) (by simp [portMembers]), hmin, hmax, hdflt]
    exact ⟨hzero, hone, hzero⟩
  · have hnone : (portJson p i).get? "logarithmic".toList = none :=
      get?_of_notMem (portKeys_sorted p.portClass p.isInput).2
    rw [hnone]
    exact fun v hv => (by cases hv)
  · exact fun _ => ⟨8192, hvalue (by simp [portMembers])⟩

theorem described_pluginJson {ports : List Port}
    (h : ∀ p ∈ ports, p.min = 0 ∧ p.max = 1 ∧ p.dflt = 0) (hlength : ports.length < 2 ^ 63) :
    Described ports (pluginJson ports) := by
  refine ⟨_, _, rfl, by rw [List.length_map, List.length_zipIdx], ?_, ⟨[], rfl⟩,
    fun _ hv => (by cases hv)⟩
  intro i p v hp hv
  obtain ⟨hmin, hmax, hdflt⟩ := h p (List.mem_of_getElem? hp)
  have hi : i < ports.length := (List.getElem?_eq_some_iff.mp hp).1
  rw [List.getElem?_map, List.getElem?_zipIdx, hp] at hv
  cases hv
  rw [Nat.zero_add]
  exact describes_portJson hmin hmax hdflt (hi.trans hlength)

/-- For every list of ports and every description of it, the description is loaded, and with the
same result exactly when the texts of the numbers keep the order that matters. -/
theorem load_same_iff (junk : ℕ → Indeterminate) (ports : List Port) (j : Json)
    (h : Described ports j) : ∃ s, load junk j = some s ∧
      (SamePorts ports (ofLilv junk (ports.map Port.lilv)) s ↔ KeysOk ports) := by
  obtain ⟨s, hs, hwalked⟩ := walked_load junk h
  exact ⟨s, hs, samePorts_iff (walked_ofLilv junk ports) hwalked⟩

/-- Memory that is all zero. -/
def zeroed (_ : ℕ) : Indeterminate := ⟨.float, 0, 0, 0⟩

def monoPorts : List Port :=
  [⟨.audio, true, [], 0, 1, 0⟩, ⟨.audio, false, [], 0, 1, 0⟩, ⟨.control, true, [], 0, 1, 0⟩]

theorem monoPorts_load_same : ∃ s, load zeroed (pluginJson monoPorts) = some s ∧
    SamePorts monoPorts (ofLilv zeroed (monoPorts.map Port.lilv)) s := by
  obtain ⟨s, hs, hsame⟩ := load_same_iff zeroed monoPorts (pluginJson monoPorts)
    (described_pluginJson (by decide) (by decide))
  exact ⟨s, hs, hsame.mpr (keysOk_of_le (by decide))⟩

/-- The eleventh port is the second audio input; as a text its number comes before that of the
first. -/
def elevenPorts : List Port :=
  [⟨.control, true, [], 0, 1, 0⟩, ⟨.audio, false, [], 0, 1, 0⟩, ⟨.audio, true, [], 0, 1, 0⟩] ++
    List.replicate 7 ⟨.control, true, [], 0, 1, 0⟩ ++ [⟨.audio, true, [], 0, 1, 0⟩]

theorem elevenPorts_not_same : Described elevenPorts (pluginJson elevenPorts) ∧
    ∃ s, load zeroed (pluginJson elevenPorts) = some s ∧
      ¬ SamePorts elevenPorts (ofLilv zeroed (elevenPorts.map Port.lilv)) s := by
  have hdescribed : Described elevenPorts (pluginJson elevenPorts) :=
    described_pluginJson (by decide) (by decide)
  obtain ⟨s, hs, hwalked⟩ := walked_load zeroed hdescribed
  refine ⟨hdescribed, s, hs, fun hsame => ?_⟩
  have hkeys := ((samePorts_iff (walked_ofLilv zeroed elevenPorts) hwalked).mp hsame).inputs
  exact absurd hkeys (by decide)

end Same

section Constructor

/-- A plugin has what has been found out about its ports. -/
structure Has (q : Plugin) (s : LoadedPorts) : Prop where
  ports : q.toNotedPorts = s.toNotedPorts
  pluginControls : q.pluginControls = s.pluginControls.map (·.2)

variable {w : World} {q : Plugin} {s : LoadedPorts}

theorem has_pushControl (h : Has q s) (i : ℕ) (c : PluginControl) :
    Has (q.pushControl c) (s.pushControl i c) := by
  refine ⟨h.ports, ?_⟩
  rw [Plugin.pushControl, pushControl, h.pluginControls, List.map_append, List.map_singleton]

theorem has_addPort (h : Has q s) (i : ℕ) (port : LilvPort) :
    Has (q.addPort w i port) (s.addPort (w.indeterminate q.id) i port) := by
  unfold Plugin.addPort addPort
  split_ifs
  · exact ⟨by rw [h.ports], h.pluginControls⟩
  · exact ⟨by rw [h.ports], h.pluginControls⟩
  · exact h
  · exact has_pushControl h i _
  · exact h
  · exact has_pushControl h i _
  · exact h

theorem has_addPorts (h : Has q s) (i : ℕ) (ports : List LilvPort) :
    Has (q.addPorts w i ports) (s.addPorts (w.indeterminate q.id) i ports) := by
  induction ports generalizing q s i with
  | nil => exact h
  | cons port ports ih =>
    have hid : (q.addPort w i port).id = q.id := (q.addPort_sameObject w i port).id
    have hrest := ih (has_addPort (w := w) h i port) (i + 1)
    rw [hid] at hrest
    exact hrest

/-- What the URI constructor of the plugins leaves in the object. -/
theorem has_new {uri : Text} {ports : List LilvPort} (h : w.lilv uri = some ports) (id : ℕ) :
    Has (Plugin.new w id uri) (ofLilv (w.indeterminate id) ports) := by
  rw [Plugin.new, h]
  exact has_addPorts ⟨rfl, rfl⟩ 0 ports

end Constructor

end LoadedPorts

end AmpRack

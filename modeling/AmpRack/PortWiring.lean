import AmpRack.Process
import AmpRack.PortLoaders

/-!
# What the ports of the plugins are connected to

The constructor connects every port of an instance to memory of its own, the audio ports to a single
sample. The audio callback connects the audio ports that the plugin has noted, at most two of either
direction, to its block before it runs the instance. The block belongs to that one callback.
-/

namespace AmpRack

open GuardedRun VectorEdits

/-- What a port is connected to: `dummy_output_control_port`, the `def` of its control, its
`filePort`, or the block of an audio callback. -/
inductive PortBuffer
  | dummy
  | control
  | filePort
  | block (call : ℕ)
  deriving DecidableEq

/-- The ports of the instances, and what they are connected to. -/
abbrev Wiring := ℕ → ℕ → Option PortBuffer

/-- What the turn of the constructor for this port connects it to. -/
def LilvPort.buffer (port : LilvPort) : Option PortBuffer :=
  if port.isAudio then some .dummy
  else if port.isControl then
    if port.isInput then some .control else some .dummy
  else if port.isAtom then some .filePort
  else none

/-- The calls of `lilv_instance_connect_port` in the loop of the constructor. -/
def wirePorts (table : ℕ → Option PortBuffer) (i : ℕ) : List LilvPort → ℕ → Option PortBuffer
  | [] => table
  | port :: ports =>
    wirePorts (if port.buffer = none then table else Function.update table i port.buffer) (i + 1) ports

/-- The calls of `lilv_instance_connect_port` in front of a run. -/
def connectBlock (call : ℕ) (table : ℕ → Option PortBuffer) (ports : List ℤ) :
    ℕ → Option PortBuffer :=
  ports.foldl (fun table port => Function.update table port.toNat (some (.block call))) table

/-- One `lilv_instance_run`: the instance, the audio callback it belongs to, the number of samples, and
what the ports are connected to. -/
structure InstanceRun where
  inst : ℕ
  call : ℕ
  samples : ℕ
  ports : ℕ → Option PortBuffer

/-- The engine with its instances, the URIs they were made for and their connections, the number of
audio callbacks so far and the runs in them. -/
structure WiredEngine where
  engine : Engine := {}
  uris : ℕ → Option Text := fun _ => none
  wiring : Wiring := fun _ _ => none
  calls : ℕ := 0
  runs : List InstanceRun := []

inductive WiringStep
  | edit (a : ChainEdit)
  | callback (samples : ℕ)

namespace WiredEngine

/-- The instance that `addPlugin` makes, if lilv can. -/
def instantiate (w : World) (s : WiredEngine) (uri : Text) : WiredEngine :=
  match w.lilv uri with
  | none => s
  | some ports =>
    { s with
      uris := Function.update s.uris s.engine.nextId (some uri)
      wiring := Function.update s.wiring s.engine.nextId (wirePorts (fun _ => none) 0 ports) }

/-- One slot in `Processor::process`. -/
def runSlot (pr : Processor) (samples : ℕ) (s : WiredEngine) (i : ℕ) : WiredEngine :=
  match pr.lilvInstance i with
  | none => s
  | some inst =>
    let ports := connectBlock s.calls (s.wiring inst)
      (connectPorts (pr.inputPorts i) (pr.outputPorts i) (pr.inputPorts2 i) (pr.outputPorts2 i))
    { s with
      wiring := Function.update s.wiring inst ports
      runs := s.runs ++ [⟨inst, s.calls, samples, ports⟩] }

def callback (s : WiredEngine) (samples : ℕ) : WiredEngine :=
  let pr := s.engine.processor
  let s' := if pr.bypass then s else (List.range pr.activePlugins).foldl (runSlot pr samples) s
  { s' with calls := s.calls + 1 }

def step (w : World) (s : WiredEngine) : WiringStep → Except Fault WiredEngine
  | .edit (.addPlugin uri) =>
    (s.engine.step w (.addPlugin uri)).map fun e => { s.instantiate w uri with engine := e }
  | .edit a => (s.engine.step w a).map fun e => { s with engine := e }
  | .callback samples => .ok (s.callback samples)

end WiredEngine

section AudioPorts

/-- The port is an audio port that the constructor counts as an input, or as an output. -/
def LilvPort.isAudioOf (port : LilvPort) (input : Bool) : Bool :=
  port.isAudio && if input then !port.isOutput && port.isInput else port.isOutput

/-- The numbers of the audio ports of one direction. -/
def audioPortsOf (ports : List LilvPort) (input : Bool) : List ℕ :=
  (List.range ports.length).filter fun i => ports[i]?.any (·.isAudioOf input)

theorem audioPortsOf_concat (before : List LilvPort) (port : LilvPort) (input : Bool) :
    audioPortsOf (before ++ [port]) input =
      audioPortsOf before input ++ bif port.isAudioOf input then [before.length] else [] := by
  rw [audioPortsOf, List.length_append, List.length_singleton, List.range_succ, List.filter_append,
    List.filter_singleton]
  congr 1
  · refine List.filter_congr fun i hi => ?_
    rw [List.getElem?_append_left (List.mem_range.mp hi)]
  · rw [List.getElem?_append_right le_rfl, Nat.sub_self, List.getElem?_cons_zero, Option.any_some]

theorem audioPortsOf_of {port : LilvPort} {input : Bool} (h : port.isAudioOf input = true)
    (before : List LilvPort) :
    audioPortsOf (before ++ [port]) input = audioPortsOf before input ++ [before.length] := by
  rw [audioPortsOf_concat, h, cond_true]

theorem audioPortsOf_of_not {port : LilvPort} {input : Bool} (h : port.isAudioOf input = false)
    (before : List LilvPort) : audioPortsOf (before ++ [port]) input = audioPortsOf before input := by
  rw [audioPortsOf_concat, h, cond_false, List.append_nil]

variable {w : World} {p : Plugin}

open LoadedPorts in
/-- The audio ports that a plugin notes are the first two of either direction. -/
structure NotesAudio (p : Plugin) (ports : List LilvPort) : Prop where
  inputs : (p.inputPort, p.inputPort2) = noted (audioPortsOf ports true)
  outputs : (p.outputPort, p.outputPort2) = noted (audioPortsOf ports false)

theorem NotesAudio.skip {before : List LilvPort} (h : NotesAudio p before) {port : LilvPort}
    (hin : port.isAudioOf true = false) (hout : port.isAudioOf false = false) :
    NotesAudio p (before ++ [port]) where
  inputs := by rw [audioPortsOf_of_not hin, h.inputs]
  outputs := by rw [audioPortsOf_of_not hout, h.outputs]

theorem NotesAudio.addPort {before : List LilvPort} (h : NotesAudio p before) (port : LilvPort) :
    NotesAudio (p.addPort w before.length port) (before ++ [port]) := by
  rw [Plugin.addPort]
  split_ifs with haudio houtput hinput hcontrol hcontrolInput hatom
  · have hin : port.isAudioOf true = false := by simp [LilvPort.isAudioOf, houtput]
    have hout : port.isAudioOf false = true := by simp [LilvPort.isAudioOf, haudio, houtput]
    exact ⟨by rw [LoadedPorts.inputs_addOutputPort, audioPortsOf_of_not hin, h.inputs],
      by rw [audioPortsOf_of hout]; exact LoadedPorts.noted_addOutputPort h.outputs _⟩
  · have hin : port.isAudioOf true = true := by simp [LilvPort.isAudioOf, haudio, houtput, hinput]
    have hout : port.isAudioOf false = false := by simp [LilvPort.isAudioOf, houtput]
    exact ⟨by rw [audioPortsOf_of hin]; exact LoadedPorts.noted_addInputPort h.inputs _,
      by rw [LoadedPorts.outputs_addInputPort, audioPortsOf_of_not hout, h.outputs]⟩
  · exact h.skip (by simp [LilvPort.isAudioOf, hinput]) (by simp [LilvPort.isAudioOf, houtput])
  all_goals
    have hskip : NotesAudio p (before ++ [port]) :=
      h.skip (by simp [LilvPort.isAudioOf, haudio]) (by simp [LilvPort.isAudioOf, haudio])
    exact ⟨hskip.inputs, hskip.outputs⟩

theorem NotesAudio.addPorts {before : List LilvPort} (h : NotesAudio p before)
    (after : List LilvPort) :
    NotesAudio (p.addPorts w before.length after) (before ++ after) := by
  induction after generalizing p before with
  | nil => rwa [List.append_nil]
  | cons port after ih =>
    have hnext := ih (h.addPort (w := w) port)
    rw [List.length_append, List.length_singleton] at hnext
    rwa [List.append_cons]

theorem notesAudio_new {uri : Text} {ports : List LilvPort} (h : w.lilv uri = some ports) (id : ℕ) :
    NotesAudio (Plugin.new w id uri) ports := by
  rw [Plugin.new, h]
  have hnone : NotesAudio { id := id, uri := some uri, inst := some id } [] := ⟨rfl, rfl⟩
  exact hnone.addPorts ports

end AudioPorts

section Connections

theorem wirePorts_apply (table : ℕ → Option PortBuffer) (i : ℕ) (ports : List LilvPort) (j : ℕ) :
    wirePorts table i ports j =
      if j < i then table j else (ports[j - i]?.bind LilvPort.buffer).orElse fun _ => table j := by
  induction ports generalizing table i with
  | nil =>
    rw [wirePorts, List.getElem?_nil]
    split_ifs <;> rfl
  | cons port ports ih =>
    rw [wirePorts, ih]
    obtain hlt | rfl | hgt := Nat.lt_trichotomy j i
    · rw [if_pos (show j < i + 1 by omega), if_pos hlt]
      split_ifs with hnone
      · rfl
      · rw [Function.update_of_ne hlt.ne]
    · rw [if_pos (Nat.lt_succ_self j), if_neg (Nat.lt_irrefl j), Nat.sub_self,
        List.getElem?_cons_zero, Option.bind_some]
      cases hb : port.buffer with
      | none => rfl
      | some b =>
        rw [if_neg (Option.some_ne_none b), Function.update_self]
        rfl
    · rw [if_neg (show ¬ j < i + 1 by omega), if_neg (show ¬ j < i by omega),
        show j - i = j - (i + 1) + 1 by omega, List.getElem?_cons_succ]
      split_ifs with hnone
      · rfl
      · rw [Function.update_of_ne hgt.ne']

/-- What the constructor has connected a port to. -/
def constructed (ports : List LilvPort) (i : ℕ) : Option PortBuffer := ports[i]?.bind LilvPort.buffer

theorem wirePorts_new (ports : List LilvPort) (i : ℕ) :
    wirePorts (fun _ => none) 0 ports i = constructed ports i := by
  rw [wirePorts_apply, if_neg (Nat.not_lt_zero i), Nat.sub_zero, constructed]
  cases ports[i]?.bind LilvPort.buffer <;> rfl

theorem connectBlock_apply (call : ℕ) (table : ℕ → Option PortBuffer) {ports : List ℤ}
    (h : ∀ port ∈ ports, 0 ≤ port) (i : ℕ) :
    connectBlock call table ports i = if (i : ℤ) ∈ ports then some (.block call) else table i := by
  induction ports generalizing table with
  | nil => rw [if_neg List.not_mem_nil]; rfl
  | cons port ports ih =>
    have hport := h port List.mem_cons_self
    rw [connectBlock, List.foldl_cons]
    refine (ih _ fun q hq => h q (List.mem_cons_of_mem port hq)).trans ?_
    by_cases hmem : (i : ℤ) ∈ ports
    · rw [if_pos hmem, if_pos (List.mem_cons_of_mem port hmem)]
    · rw [if_neg hmem]
      by_cases hself : i = port.toNat
      · rw [hself, Function.update_self, if_pos (by rw [Int.toNat_of_nonneg hport]; exact List.mem_cons_self)]
      · rw [Function.update_of_ne hself, if_neg]
        rw [List.mem_cons, not_or]
        exact ⟨by omega, hmem⟩

/-- The ports of a plugin that the audio callback connects. -/
def carried (ports : List LilvPort) (i : ℕ) : Prop :=
  i ∈ (audioPortsOf ports true).take 2 ∨ i ∈ (audioPortsOf ports false).take 2

instance (ports : List LilvPort) (i : ℕ) : Decidable (carried ports i) :=
  inferInstanceAs (Decidable (_ ∨ _))

open LoadedPorts in
theorem mem_noted_iff {l : List ℕ} {a b : ℤ} (h : (a, b) = noted l) (port : ℤ) :
    (port ≠ -1 ∧ (port = a ∨ port = b)) ↔ ∃ i ∈ l.take 2, port = i := by
  match l with
  | [] =>
    obtain ⟨rfl, rfl⟩ := Prod.mk.inj h
    simp
  | [x] =>
    obtain ⟨rfl, rfl⟩ := Prod.mk.inj h
    simp
    omega
  | x :: y :: l =>
    obtain ⟨rfl, rfl⟩ := Prod.mk.inj h
    simp
    omega

theorem NotesAudio.mem_audioPorts {p : Plugin} {ports : List LilvPort} (h : NotesAudio p ports)
    {port : ℤ} : port ∈ p.audioPorts ↔ ∃ i, carried ports i ∧ port = i := by
  have hin := mem_noted_iff h.inputs port
  have hout := mem_noted_iff h.outputs port
  calc
    port ∈ p.audioPorts ↔ (port ≠ -1 ∧ (port = p.inputPort ∨ port = p.inputPort2)) ∨
        (port ≠ -1 ∧ (port = p.outputPort ∨ port = p.outputPort2)) := by
      simp only [Plugin.audioPorts, connectPorts, List.mem_filter, List.mem_cons, List.not_mem_nil,
        or_false, decide_eq_true_eq]
      tauto
    _ ↔ (∃ i ∈ (audioPortsOf ports true).take 2, port = i) ∨
        ∃ i ∈ (audioPortsOf ports false).take 2, port = i := or_congr hin hout
    _ ↔ ∃ i, carried ports i ∧ port = i := by
      simp only [carried, or_and_right, exists_or]

end Connections

namespace Engine

variable {w : World} {e e' : Engine} {a : ChainEdit}

/-- An edit that does not fault is an admitted one, or does nothing. -/
theorem editOk_or_eq (h : step w e a = .ok e') : EditOk w e a ∨ e' = e := by
  cases a with
  | addPlugin uri =>
    obtain ⟨⟨e₁, b⟩, he₁, rfl⟩ := map_eq_ok h
    cases huri : w.lilv uri with
    | none => exact .inl (.inl huri)
    | some ports => exact .inl (.inr (addPlugin_room he₁ (by rw [huri]; rfl)))
  | erase i =>
    obtain ⟨k, rfl, hk⟩ := erasePlugin_eq_ok h
    exact .inl ⟨Int.natCast_nonneg k, by exact_mod_cast hk⟩
  | moveDown p =>
    obtain ⟨⟨e₁, q⟩, he₁, rfl⟩ := map_eq_ok h
    obtain hp | ⟨k, rfl, hk⟩ := moveActivePluginDown_eq_ok he₁
    · rw [moveActivePluginDown, if_pos hp] at he₁
      cases he₁
      exact .inr rfl
    · exact .inl ⟨Int.natCast_nonneg k, by exact_mod_cast hk⟩
  | moveUp p =>
    obtain ⟨⟨e₁, q⟩, he₁, rfl⟩ := map_eq_ok h
    obtain hp | ⟨k, rfl, hk⟩ := moveActivePluginUp_eq_ok he₁
    · rw [moveActivePluginUp, if_pos hp] at he₁
      cases he₁
      exact .inr rfl
    · exact .inl ⟨by omega, by exact_mod_cast hk⟩
  | setActive i value =>
    obtain ⟨k, rfl, hk, hfit⟩ := setActive_eq_ok h
    exact .inl ⟨Int.natCast_nonneg k, by exact_mod_cast hk, by rwa [Int.toNat_natCast]⟩
  | clear => exact .inl trivial

/-- A plugin of the chain after an edit stood in it before, with its switch the one way or the other,
or the edit has added it. -/
structure MembersFrom (w : World) (e : Engine) (a : ChainEdit) (e' : Engine) : Prop where
  nextId : e.nextId ≤ e'.nextId
  added : ∀ uri, a = .addPlugin uri → e'.nextId = e.nextId + 1
  members : ∀ q ∈ e'.activePlugins, (∃ p ∈ e.activePlugins, ∃ b, q = { p with active := b }) ∨
    ∃ uri ports, a = .addPlugin uri ∧ w.lilv uri = some ports ∧ q = Plugin.new w e.nextId uri

theorem Became.membersFrom {ps : List Plugin} (h : e.Became ps e')
    (ha : ∀ uri, a ≠ .addPlugin uri)
    (hps : ∀ q ∈ ps, ∃ p ∈ e.activePlugins, ∃ b, q = { p with active := b }) :
    MembersFrom w e a e' :=
  ⟨h.nextId.ge, fun uri huri => absurd huri (ha uri), fun q hq => .inl (hps q (by rwa [← h.chain]))⟩

theorem membersFrom_refl (ha : ∀ uri, a ≠ .addPlugin uri) : MembersFrom w e a e :=
  ⟨le_rfl, fun uri huri => absurd huri (ha uri), fun q hq => .inl ⟨q, hq, q.active, rfl⟩⟩

theorem step_membersFrom (hl : Live e) (h : step w e a = .ok e') : MembersFrom w e a e' := by
  cases a with
  | addPlugin uri =>
    obtain ⟨⟨e₁, b⟩, he₁, rfl⟩ := map_eq_ok h
    cases huri : w.lilv uri with
    | none =>
      rw [addPlugin_of_none hl.settled huri] at he₁
      cases he₁
      exact ⟨Nat.le_succ _, fun _ _ => rfl, fun q hq => .inl ⟨q, hq, q.active, rfl⟩⟩
    | some ports =>
      have hsome : (w.lilv uri).isSome := by rw [huri]; rfl
      obtain ⟨e₂, he₂, hb⟩ := addPlugin_of_some hsome (addPlugin_room he₁ hsome)
      rw [he₁] at he₂
      cases he₂
      refine ⟨hb.nextId.symm ▸ Nat.le_succ _, fun _ _ => hb.nextId, fun q hq => ?_⟩
      rw [hb.chain, List.mem_append, List.mem_singleton] at hq
      obtain hq | rfl := hq
      · exact .inl ⟨q, hq, q.active, rfl⟩
      · exact .inr ⟨uri, ports, rfl, huri, rfl⟩
  | erase i =>
    obtain ⟨k, rfl, hk⟩ := erasePlugin_eq_ok h
    obtain ⟨e₂, he₂, hb⟩ := erasePlugin_of_lt hl.settled hk
    rw [step, he₂] at h
    cases h
    exact hb.membersFrom (fun _ => ChainEdit.noConfusion)
      fun q hq => ⟨q, List.mem_of_mem_eraseIdx hq, q.active, rfl⟩
  | moveDown p =>
    obtain ⟨⟨e₁, q⟩, he₁, rfl⟩ := map_eq_ok h
    obtain hp | ⟨k, rfl, hk⟩ := moveActivePluginDown_eq_ok he₁
    · rw [moveActivePluginDown, if_pos hp] at he₁
      cases he₁
      exact membersFrom_refl fun _ => ChainEdit.noConfusion
    · obtain ⟨e₂, he₂, hb⟩ := moveActivePluginDown_of_lt hl.settled hk
      rw [he₁] at he₂
      cases he₂
      exact hb.membersFrom (fun _ => ChainEdit.noConfusion)
        fun q hq => ⟨q, (exchange_perm _ hk).mem_iff.mp hq, q.active, rfl⟩
  | moveUp p =>
    obtain ⟨⟨e₁, q⟩, he₁, rfl⟩ := map_eq_ok h
    obtain hp | ⟨k, rfl, hk⟩ := moveActivePluginUp_eq_ok he₁
    · rw [moveActivePluginUp, if_pos hp] at he₁
      cases he₁
      exact membersFrom_refl fun _ => ChainEdit.noConfusion
    · obtain ⟨e₂, he₂, hb⟩ := moveActivePluginUp_of_lt hl.settled hk
      rw [he₁] at he₂
      cases he₂
      exact hb.membersFrom (fun _ => ChainEdit.noConfusion)
        fun q hq => ⟨q, (exchange_perm _ hk).mem_iff.mp hq, q.active, rfl⟩
  | setActive i value =>
    obtain ⟨k, rfl, hk, hfit⟩ := setActive_eq_ok h
    obtain ⟨e₂, he₂, hb⟩ := setActive_of_lt hl.settled hk hfit
    rw [step, he₂] at h
    cases h
    refine hb.membersFrom (fun _ => ChainEdit.noConfusion) fun q hq => ?_
    obtain ⟨j, hj, rfl⟩ := List.mem_iff_getElem.mp hq
    have hj' : j < e.activePlugins.length := by simpa [switch] using hj
    simp only [switch, List.getElem_modify]
    split_ifs
    · exact ⟨_, List.getElem_mem hj', value, rfl⟩
    · exact ⟨_, List.getElem_mem hj', _, rfl⟩
  | clear =>
    obtain ⟨e₂, he₂, hb⟩ := clear_ok hl.settled
    rw [step, he₂] at h
    cases h
    exact hb.membersFrom (fun _ => ChainEdit.noConfusion) fun q hq => absurd hq List.not_mem_nil

theorem live_of_step (hl : Live e) (h : step w e a = .ok e') : Live e' := by
  obtain hok | rfl := editOk_or_eq h
  · obtain ⟨e₁, he₁, hl₁⟩ := step_live hl a hok
    rw [h] at he₁
    cases he₁
    exact hl₁
  · exact hl

end Engine

namespace WiredEngine

/-- The connections of the ports that the callback does not carry are those of the constructor. -/
structure PluginWired (w : World) (s : WiredEngine) (p : Plugin) (uri : Text)
    (ports : List LilvPort) : Prop where
  uri_eq : s.uris p.id = some uri
  lilv_eq : w.lilv uri = some ports
  notes : NotesAudio p ports
  id_lt : p.id < s.engine.nextId
  kept : ∀ i, ¬ carried ports i → s.wiring p.id i = constructed ports i

/-- In a run the callback's block stands at the ports that it carries. -/
structure RunWired (w : World) (s : WiredEngine) (r : InstanceRun) (uri : Text)
    (ports : List LilvPort) : Prop where
  uri_eq : s.uris r.inst = some uri
  lilv_eq : w.lilv uri = some ports
  inst_lt : r.inst < s.engine.nextId
  ports_eq : ∀ i, r.ports i = if carried ports i then some (.block r.call) else constructed ports i

structure Wired (w : World) (s : WiredEngine) : Prop where
  live : Engine.Live s.engine
  plugins : ∀ p ∈ s.engine.activePlugins, ∃ uri ports, PluginWired w s p uri ports
  runs : ∀ r ∈ s.runs, ∃ uri ports, RunWired w s r uri ports

variable {w : World} {s s' : WiredEngine}

theorem wired_empty (w : World) : Wired w {} :=
  ⟨Engine.live_empty, fun _ hp => absurd hp List.not_mem_nil, fun _ hr => absurd hr List.not_mem_nil⟩

/-- One run, told by the plugin of its slot. -/
theorem runSlot_of_holds {pr : Processor} {samples i : ℕ} {p : Plugin} (h : pr.Holds i p)
    (hp : p.inst = some p.id) :
    runSlot pr samples s i =
      { s with
        wiring := Function.update s.wiring p.id (connectBlock s.calls (s.wiring p.id) p.audioPorts)
        runs := s.runs ++
          [⟨p.id, s.calls, samples, connectBlock s.calls (s.wiring p.id) p.audioPorts⟩] } := by
  simp only [runSlot, h.inst, hp, h.inputPort, h.outputPort, h.inputPort2, h.outputPort2]
  rfl

theorem PluginWired.connectBlock_eq {p : Plugin} {uri : Text} {ports : List LilvPort}
    (h : PluginWired w s p uri ports) (i : ℕ) :
    connectBlock s.calls (s.wiring p.id) p.audioPorts i =
      if carried ports i then some (.block s.calls) else constructed ports i := by
  have hpos : ∀ port ∈ p.audioPorts, 0 ≤ port := by
    intro port hport
    obtain ⟨k, -, rfl⟩ := h.notes.mem_audioPorts.mp hport
    exact Int.natCast_nonneg k
  have hmem : ((i : ℤ) ∈ p.audioPorts) ↔ carried ports i := by
    rw [h.notes.mem_audioPorts]
    constructor
    · rintro ⟨k, hk, heq⟩
      rwa [Int.natCast_inj.mp heq]
    · exact fun hi => ⟨i, hi, rfl⟩
  rw [connectBlock_apply _ _ hpos]
  split_ifs with hin hcarried hcarried
  · rfl
  · exact absurd (hmem.mp hin) hcarried
  · exact absurd (hmem.mpr hcarried) hin
  · exact h.kept i hcarried

theorem Wired.runSlot (h : Wired w s) (samples : ℕ) {i : ℕ} {p : Plugin}
    (hp : (switchedOn s.engine.activePlugins)[i]? = some p) :
    Wired w (runSlot s.engine.processor samples s i) := by
  have hmem : p ∈ s.engine.activePlugins := List.mem_of_mem_filter (List.mem_of_getElem? hp)
  obtain ⟨uri, ports, hwired⟩ := h.plugins p hmem
  rw [runSlot_of_holds (h.live.settled.mirrors.slots i p hp) (h.live.instantiated p hmem)]
  refine ⟨h.live, fun q hq => ?_, fun r hr => ?_⟩
  · obtain ⟨uri', ports', hq'⟩ := h.plugins q hq
    refine ⟨uri', ports', hq'.uri_eq, hq'.lilv_eq, hq'.notes, hq'.id_lt, fun k hk => ?_⟩
    dsimp only
    by_cases hid : q.id = p.id
    · -- the same instance: the same ports are carried
      have huri : uri' = uri := Option.some.inj (by rw [← hq'.uri_eq, hid, hwired.uri_eq])
      subst huri
      have hports : ports' = ports := Option.some.inj (by rw [← hq'.lilv_eq, hwired.lilv_eq])
      subst hports
      rw [hid, Function.update_self, hwired.connectBlock_eq, if_neg hk]
    · rw [Function.update_of_ne hid]
      exact hq'.kept k hk
  · rw [List.mem_append, List.mem_singleton] at hr
    obtain hr | rfl := hr
    · obtain ⟨uri', ports', hr'⟩ := h.runs r hr
      exact ⟨uri', ports', hr'.uri_eq, hr'.lilv_eq, hr'.inst_lt, hr'.ports_eq⟩
    · exact ⟨uri, ports, hwired.uri_eq, hwired.lilv_eq, hwired.id_lt, hwired.connectBlock_eq⟩

@[simp] theorem runSlot_engine (pr : Processor) (samples : ℕ) (s : WiredEngine) (i : ℕ) :
    (runSlot pr samples s i).engine = s.engine := by
  unfold WiredEngine.runSlot
  split <;> rfl

theorem Wired.foldl_runSlot (h : Wired w s) (samples : ℕ) {k : ℕ}
    (hk : k ≤ (switchedOn s.engine.activePlugins).length) :
    Wired w ((List.range k).foldl (WiredEngine.runSlot s.engine.processor samples) s) ∧
      ((List.range k).foldl (WiredEngine.runSlot s.engine.processor samples) s).engine = s.engine := by
  induction k with
  | zero => exact ⟨h, rfl⟩
  | succ k ih =>
    obtain ⟨hwired, hengine⟩ := ih (by omega)
    rw [List.range_succ, List.foldl_append, List.foldl_cons, List.foldl_nil]
    obtain ⟨p, hp⟩ : ∃ p, (switchedOn s.engine.activePlugins)[k]? = some p :=
      ⟨_, List.getElem?_eq_getElem hk⟩
    rw [← hengine] at hp
    have hnext := hwired.runSlot samples hp
    rw [hengine] at hnext
    exact ⟨hnext, (runSlot_engine ..).trans hengine⟩

theorem Wired.callback (h : Wired w s) (samples : ℕ) : Wired w (s.callback samples) := by
  have hrun : s.engine.processor.bypass = false := h.live.settled.running
  have hcount := h.live.settled.mirrors.count
  obtain ⟨hwired, -⟩ := h.foldl_runSlot samples le_rfl
  simp only [WiredEngine.callback, hrun, Bool.false_eq_true, if_false, hcount]
  refine ⟨hwired.live, fun p hp => ?_, fun r hr => ?_⟩
  · obtain ⟨uri, ports, hp⟩ := hwired.plugins p hp
    exact ⟨uri, ports, hp.uri_eq, hp.lilv_eq, hp.notes, hp.id_lt, hp.kept⟩
  · obtain ⟨uri, ports, hr⟩ := hwired.runs r hr
    exact ⟨uri, ports, hr.uri_eq, hr.lilv_eq, hr.inst_lt, hr.ports_eq⟩

/-- What the instances of before know, and the chain that an edit leaves of them. -/
theorem Wired.of_edit (h : Wired w s) {a : ChainEdit} {e : Engine}
    (he : s.engine.step w a = .ok e) (hold : s.engine.nextId ≤ s'.engine.nextId)
    (hengine : s'.engine = e) (hruns : s'.runs = s.runs)
    (huris : ∀ id, id < s.engine.nextId → s'.uris id = s.uris id)
    (hwiring : ∀ id, id < s.engine.nextId → s'.wiring id = s.wiring id)
    (hnew : ∀ uri ports, a = .addPlugin uri → w.lilv uri = some ports →
      PluginWired w s' (Plugin.new w s.engine.nextId uri) uri ports) : Wired w s' := by
  refine ⟨hengine ▸ Engine.live_of_step h.live he, fun q hq => ?_, fun r hr => ?_⟩
  · rw [hengine] at hq
    obtain ⟨p, hp, b, rfl⟩ | ⟨uri, ports, ha, huri, rfl⟩ :=
      (Engine.step_membersFrom h.live he).members q hq
    · obtain ⟨uri, ports, hp⟩ := h.plugins p hp
      refine ⟨uri, ports, ?_, hp.lilv_eq, ⟨hp.notes.inputs, hp.notes.outputs⟩,
        hp.id_lt.trans_le hold, fun i hi => ?_⟩
      · rw [huris _ hp.id_lt, hp.uri_eq]
      · rw [hwiring _ hp.id_lt]
        exact hp.kept i hi
    · exact ⟨uri, ports, hnew uri ports ha huri⟩
  · rw [hruns] at hr
    obtain ⟨uri, ports, hr⟩ := h.runs r hr
    exact ⟨uri, ports, by rw [huris _ hr.inst_lt, hr.uri_eq], hr.lilv_eq, hr.inst_lt.trans_le hold,
      hr.ports_eq⟩

theorem Wired.addPlugin (h : Wired w s) {uri : Text} {e : Engine}
    (he : s.engine.step w (.addPlugin uri) = .ok e) :
    Wired w { s.instantiate w uri with engine := e } := by
  have hfrom := Engine.step_membersFrom h.live he
  rw [instantiate]
  cases huri : w.lilv uri with
  | none =>
    refine h.of_edit he hfrom.nextId rfl rfl (fun _ _ => rfl) (fun _ _ => rfl) fun uri' ports' ha hl => ?_
    cases ha
    exact absurd (huri.symm.trans hl) (Option.some_ne_none _).symm
  | some ports =>
    refine h.of_edit he hfrom.nextId rfl rfl (fun id hid => Function.update_of_ne hid.ne _ _)
      (fun id hid => Function.update_of_ne hid.ne _ _) fun uri' ports' ha hl => ?_
    cases ha
    cases huri.symm.trans hl
    refine ⟨?_, huri, notesAudio_new huri _, ?_, fun i _ => ?_⟩
    · rw [Plugin.new_id]
      exact Function.update_self ..
    · rw [Plugin.new_id]
      dsimp only
      rw [hfrom.added uri rfl]
      exact Nat.lt_succ_self _
    · rw [Plugin.new_id]
      dsimp only
      rw [Function.update_self, wirePorts_new]

theorem Wired.step (h : Wired w s) {a : WiringStep} (hs : s.step w a = .ok s') : Wired w s' := by
  cases a with
  | callback samples =>
    cases hs
    exact h.callback samples
  | edit a =>
    by_cases ha : ∃ uri, a = .addPlugin uri
    · obtain ⟨uri, rfl⟩ := ha
      obtain ⟨e, he, rfl⟩ := Engine.map_eq_ok hs
      exact h.addPlugin he
    · have hstep : (s.engine.step w a).map (fun e => { s with engine := e }) = .ok s' := by
        rw [← hs]
        cases a with
        | addPlugin uri => exact absurd ⟨uri, rfl⟩ ha
        | _ => rfl
      obtain ⟨e, he, rfl⟩ := Engine.map_eq_ok hstep
      exact h.of_edit he (Engine.step_membersFrom h.live he).nextId rfl rfl (fun _ _ => rfl)
        (fun _ _ => rfl) fun uri _ huri => absurd ⟨uri, huri⟩ ha

theorem wired_run {steps : List WiringStep} (hs : run (WiredEngine.step w) {} steps = .ok s) : Wired w s :=
  inv_of_run (fun _ _ _ h hs => h.step hs) (wired_empty w) hs

end WiredEngine

section Room

/-- The samples that a buffer has room for while the callback `call` runs. The block of an earlier one
is gone. -/
def PortBuffer.samples (call samples : ℕ) : PortBuffer → ℕ
  | .dummy | .control => 1
  | .filePort => 8192 / 4
  | .block c => if c = call then samples else 0

/-- Every audio port stands at a buffer that the samples of the run fit in. -/
def InstanceRun.HasRoom (r : InstanceRun) (ports : List LilvPort) : Prop :=
  ∀ i port, ports[i]? = some port → port.isAudio = true →
    ∃ b, r.ports i = some b ∧ r.samples ≤ b.samples r.call r.samples

/-- At most two audio inputs, two audio outputs and no audio port that is neither. -/
structure AtMostStereo (ports : List LilvPort) : Prop where
  inputs : (audioPortsOf ports true).length ≤ 2
  outputs : (audioPortsOf ports false).length ≤ 2
  directed : ∀ port ∈ ports, port.isAudio = true → port.isInput = true ∨ port.isOutput = true

variable {ports : List LilvPort} {port : LilvPort} {i : ℕ}

theorem mem_audioPortsOf (input : Bool) :
    i ∈ audioPortsOf ports input ↔ ∃ port, ports[i]? = some port ∧ port.isAudioOf input = true := by
  rw [audioPortsOf, List.mem_filter, List.mem_range]
  constructor
  · rintro ⟨hlt, hany⟩
    rw [List.getElem?_eq_getElem hlt, Option.any_some] at hany
    exact ⟨_, List.getElem?_eq_getElem hlt, hany⟩
  · rintro ⟨port, hport, hof⟩
    exact ⟨(List.getElem?_eq_some_iff.mp hport).1, by rw [hport, Option.any_some, hof]⟩

theorem constructed_of_audio (hport : ports[i]? = some port) (h : port.isAudio = true) :
    constructed ports i = some .dummy := by
  rw [constructed, hport, Option.bind_some, LilvPort.buffer, if_pos h]

/-- A third audio port of a direction is not carried. -/
theorem exists_not_carried {input : Bool} (h : 2 < (audioPortsOf ports input).length) :
    ∃ i port, ports[i]? = some port ∧ port.isAudio = true ∧ ¬ carried ports i := by
  have hnodup : (audioPortsOf ports input).Nodup := List.nodup_range.filter _
  obtain ⟨port, hport, hof⟩ := (mem_audioPortsOf input).mp (List.getElem_mem h)
  have haudio : port.isAudio = true := by
    rw [LilvPort.isAudioOf, Bool.and_eq_true] at hof
    exact hof.1
  have htake : (audioPortsOf ports input)[2] ∉ (audioPortsOf ports input).take 2 := by
    intro hmem
    obtain ⟨j, hj, heq⟩ := List.mem_take_iff_getElem.mp hmem
    have hj2 := (hnodup.getElem_inj_iff).mp heq
    omega
  have hother : (audioPortsOf ports input)[2] ∉ audioPortsOf ports !input := by
    intro hmem
    obtain ⟨port', hport', hof'⟩ := (mem_audioPortsOf _).mp hmem
    cases hport.symm.trans hport'
    cases input <;> simp [LilvPort.isAudioOf] at hof hof' <;> simp_all
  refine ⟨_, port, hport, haudio, ?_⟩
  rintro (hin | hout)
  · cases input with
    | true => exact htake hin
    | false => exact hother (List.mem_of_mem_take hin)
  · cases input with
    | true => exact hother (List.mem_of_mem_take hout)
    | false => exact htake hout

theorem carried_of_atMostStereo (h : AtMostStereo ports) (hport : ports[i]? = some port)
    (haudio : port.isAudio = true) : carried ports i := by
  rw [carried, List.take_of_length_le h.inputs, List.take_of_length_le h.outputs,
    mem_audioPortsOf, mem_audioPortsOf]
  obtain hinput | houtput := h.directed port (List.mem_of_getElem? hport) haudio
  · cases houtput : port.isOutput with
    | true => exact .inr ⟨port, hport, by simp [LilvPort.isAudioOf, haudio, houtput]⟩
    | false => exact .inl ⟨port, hport, by simp [LilvPort.isAudioOf, haudio, hinput, houtput]⟩
  · exact .inr ⟨port, hport, by simp [LilvPort.isAudioOf, haudio, houtput]⟩

theorem hasRoom_iff {r : InstanceRun}
    (h : ∀ i, r.ports i = if carried ports i then some (.block r.call) else constructed ports i) :
    r.HasRoom ports ↔ r.samples ≤ 1 ∨ AtMostStereo ports := by
  constructor
  · intro hroom
    by_contra hnot
    obtain ⟨hsamples, hmany⟩ := not_or.mp hnot
    obtain ⟨i, port, hport, haudio, hcarried⟩ :
        ∃ i port, ports[i]? = some port ∧ port.isAudio = true ∧ ¬ carried ports i := by
      by_contra hall
      refine hmany ⟨?_, ?_, ?_⟩
      · exact Nat.le_of_not_lt fun hlt => hall (exists_not_carried hlt)
      · exact Nat.le_of_not_lt fun hlt => hall (exists_not_carried hlt)
      · intro port hmem haudio
        obtain ⟨i, hport⟩ := List.mem_iff_getElem?.mp hmem
        by_contra hdirected
        refine hall ⟨i, port, hport, haudio, ?_⟩
        rintro (hin | hout)
        · obtain ⟨port', hport', hof⟩ := (mem_audioPortsOf _).mp (List.mem_of_mem_take hin)
          cases hport.symm.trans hport'
          simp_all [LilvPort.isAudioOf]
        · obtain ⟨port', hport', hof⟩ := (mem_audioPortsOf _).mp (List.mem_of_mem_take hout)
          cases hport.symm.trans hport'
          simp_all [LilvPort.isAudioOf]
    obtain ⟨b, hb, hle⟩ := hroom i port hport haudio
    rw [h, if_neg hcarried, constructed_of_audio hport haudio] at hb
    cases hb
    exact hsamples hle
  · rintro hok i port hport haudio
    rw [h]
    by_cases hcarried : carried ports i
    · exact ⟨_, if_pos hcarried, by rw [PortBuffer.samples, if_pos rfl]⟩
    · obtain hsamples | hstereo := hok
      · exact ⟨.dummy, by rw [if_neg hcarried, constructed_of_audio hport haudio], hsamples⟩
      · exact absurd (carried_of_atMostStereo hstereo hport haudio) hcarried

end Room

open WiredEngine in
/-- Whatever edits and callbacks came before: when an instance is run, the block of that very callback
stands at its first two audio inputs and outputs, and what the constructor has put there at every other
port. So the samples of a run fit in the buffers of the audio ports exactly when the plugin has no third
audio input or output, or there is but one sample. -/
theorem runs_have_room_iff (w : World) (steps : List WiringStep) (s : WiredEngine)
    (hrun : run (WiredEngine.step w) {} steps = .ok s) (r : InstanceRun) (hr : r ∈ s.runs) :
    ∃ uri ports, s.uris r.inst = some uri ∧ w.lilv uri = some ports ∧
      (∀ i, r.ports i = if carried ports i then some (.block r.call) else constructed ports i) ∧
      (r.HasRoom ports ↔ r.samples ≤ 1 ∨ AtMostStereo ports) := by
  obtain ⟨uri, ports, hwired⟩ := (wired_run hrun).runs r hr
  exact ⟨uri, ports, hwired.uri_eq, hwired.lilv_eq, hwired.ports_eq, hasRoom_iff hwired.ports_eq⟩

/-- One installed plugin, with one audio input and three audio outputs. -/
def surroundWorld : World where
  lilv uri := if uri = "urn:surround".toList then
    some [{ isAudio := true, isInput := true }, { isAudio := true, isOutput := true },
      { isAudio := true, isOutput := true }, { isAudio := true, isOutput := true }]
    else none
  indeterminate _ _ := ⟨.float, 0, 1, 0⟩

def surroundSteps : List WiringStep := [.edit (.addPlugin "urn:surround".toList), .callback 256]

theorem runs_have_room_iff_surround :
    ∃ s r, run (WiredEngine.step surroundWorld) {} surroundSteps = .ok s ∧ r ∈ s.runs ∧
      ∃ uri ports, s.uris r.inst = some uri ∧ surroundWorld.lilv uri = some ports ∧
        (∀ i, r.ports i = if carried ports i then some (.block r.call) else constructed ports i) ∧
        (r.HasRoom ports ↔ r.samples ≤ 1 ∨ AtMostStereo ports) := by
  refine ⟨_, ⟨0, 0, 256, _⟩, rfl, List.mem_singleton_self _, ?_⟩
  exact runs_have_room_iff surroundWorld surroundSteps _ rfl _ (List.mem_singleton_self _)

end AmpRack

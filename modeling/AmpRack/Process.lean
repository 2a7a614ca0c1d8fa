import AmpRack.ChainEdits

/-!
# The audio callback runs the rack

A plugin instance is an arbitrary state-carrying transformer `run` of the block its audio ports are
connected to. `Processor.process` walks the slots; `rackTransform` composes the plugins that are
switched on, in the order of the chain. On a settled engine they are the same function, and every
admitted sequence of edits leaves the engine settled.
-/

namespace AmpRack

open VectorEdits GuardedRun

abbrev Block := List ℚ

/-- `run inst ports state data` is one call of `lilv_instance_run` on the instance `inst`, after
its `ports` were connected to `data`. -/
abbrev RunFunction (σ : Type*) := ℕ → List ℤ → σ → Block → σ × Block

/-- The states of the instances and the block being processed. -/
abbrev AudioState (σ : Type*) := (ℕ → σ) × Block

variable {σ : Type*}

def runInstance (run : RunFunction σ) (inst : ℕ) (ports : List ℤ) (a : AudioState σ) :
    AudioState σ :=
  let r := run inst ports (a.1 inst) a.2
  (Function.update a.1 inst r.1, r.2)

/-- The ports connected for a slot, in the order of the calls; `-1` is no port. -/
def connectPorts (input output input2 output2 : ℤ) : List ℤ :=
  [input, output, input2, output2].filter (· ≠ -1)

namespace Processor

def processSlot (run : RunFunction σ) (pr : Processor) (a : AudioState σ) (i : ℕ) : AudioState σ :=
  match pr.lilvInstance i with
  | none => a
  | some inst =>
    runInstance run inst
      (connectPorts (pr.inputPorts i) (pr.outputPorts i) (pr.inputPorts2 i) (pr.outputPorts2 i)) a

/-- `Processor::process`: the states and the output block it leaves, and what it pushes. -/
def process (run : RunFunction σ) (pr : Processor) (heap : ℕ → σ) (input : Block) :
    AudioState σ × Option (Block × Block) :=
  if pr.bypass then ((heap, input), none)
  else
    let a := (List.range pr.activePlugins).foldl (processSlot run pr) (heap, input)
    (a, some (input, a.2))

end Processor

namespace Plugin

def audioPorts (p : Plugin) : List ℤ :=
  connectPorts p.inputPort p.outputPort p.inputPort2 p.outputPort2

def transform (run : RunFunction σ) (p : Plugin) : AudioState σ → AudioState σ :=
  runInstance run p.id p.audioPorts

end Plugin

/-- The composition, first plugin first, of the plugins that are switched on. -/
def rackTransform (run : RunFunction σ) (ps : List Plugin) : AudioState σ → AudioState σ :=
  (switchedOn ps).foldl (fun f p => p.transform run ∘ f) id

def Instantiated (ps : List Plugin) : Prop := ∀ p ∈ ps, p.inst = some p.id

theorem rackTransform_eq_foldl (run : RunFunction σ) (ps : List Plugin) (a : AudioState σ) :
    rackTransform run ps a = (switchedOn ps).foldl (fun a p => p.transform run a) a := by
  have h (qs : List Plugin) (f : AudioState σ → AudioState σ) :
      qs.foldl (fun f p => p.transform run ∘ f) f a =
        qs.foldl (fun a p => p.transform run a) (f a) := by
    induction qs generalizing f with
    | nil => rfl
    | cons q qs ih => exact ih _
  exact h (switchedOn ps) id

theorem runInstance_frame (run : RunFunction σ) {inst other : ℕ} (h : other ≠ inst)
    (ports : List ℤ) (a : AudioState σ) : (runInstance run inst ports a).1 other = a.1 other :=
  Function.update_of_ne h _ _

/-- Instances of plugins that are off, or in no rack at all, keep their state. -/
theorem rackTransform_frame (run : RunFunction σ) {ps : List Plugin} {inst : ℕ}
    (h : ∀ p ∈ switchedOn ps, p.id ≠ inst) (a : AudioState σ) :
    (rackTransform run ps a).1 inst = a.1 inst := by
  rw [rackTransform_eq_foldl]
  generalize switchedOn ps = qs at h
  induction qs generalizing a with
  | nil => rfl
  | cons q qs ih =>
    rw [List.foldl_cons, ih _ (fun p hp => h p (List.mem_cons_of_mem q hp))]
    exact runInstance_frame run (h q List.mem_cons_self).symm q.audioPorts a

namespace Processor

theorem Holds.processSlot {pr : Processor} {i : ℕ} {p : Plugin} (h : pr.Holds i p)
    (hp : p.inst = some p.id) (run : RunFunction σ) (a : AudioState σ) :
    pr.processSlot run a i = p.transform run a := by
  simp only [Processor.processSlot, h.inst, hp, h.inputPort, h.outputPort, h.inputPort2,
    h.outputPort2]
  rfl

theorem foldl_processSlot {pr : Processor} {ps : List Plugin} (hm : pr.Mirrors ps)
    (hi : Instantiated ps) (run : RunFunction σ) (a : AudioState σ) :
    (List.range pr.activePlugins).foldl (pr.processSlot run) a = rackTransform run ps a := by
  have h (k : ℕ) (hk : k ≤ (switchedOn ps).length) :
      (List.range k).foldl (pr.processSlot run) a =
        ((switchedOn ps).take k).foldl (fun a p => p.transform run a) a := by
    induction k with
    | zero => rfl
    | succ k ih =>
      have hk' : k < (switchedOn ps).length := hk
      have hget : (switchedOn ps)[k]? = some (switchedOn ps)[k] := List.getElem?_eq_getElem hk'
      have hmem : (switchedOn ps)[k] ∈ ps := List.mem_of_mem_filter (List.getElem_mem hk')
      rw [List.range_succ, List.foldl_append, ih hk'.le, List.take_add_one, hget,
        List.foldl_append]
      exact (hm.slots k _ hget).processSlot (hi _ hmem) run _
  rw [hm.count, h _ le_rfl, List.take_length, rackTransform_eq_foldl]

/-- With the arrays in step with the chain, the callback is the rack. -/
theorem process_eq_rackTransform {pr : Processor} {ps : List Plugin} (hm : pr.Mirrors ps)
    (hi : Instantiated ps) (hb : pr.bypass = false) (run : RunFunction σ) (heap : ℕ → σ)
    (input : Block) :
    pr.process run heap input =
      (rackTransform run ps (heap, input), some (input, (rackTransform run ps (heap, input)).2)) := by
  simp only [process, hb, Bool.false_eq_true, if_false, foldl_processSlot hm hi]

end Processor

inductive ChainEdit
  | addPlugin (uri : Text)
  | erase (i : ℤ)
  | moveDown (p : ℤ)
  | moveUp (p : ℤ)
  | setActive (i : ℤ) (value : Bool)
  | clear

namespace Engine

def step (w : World) (e : Engine) : ChainEdit → Except Fault Engine
  | .addPlugin uri => (e.addPlugin w uri).map Prod.fst
  | .erase i => e.erasePlugin i
  | .moveDown p => (e.moveActivePluginDown p).map Prod.fst
  | .moveUp p => (e.moveActivePluginUp p).map Prod.fst
  | .setActive i value => e.setActive i value
  | .clear => e.clear

/-- Indices are in range, and no more plugins are switched on than there are slots. -/
def EditOk (w : World) (e : Engine) : ChainEdit → Prop
  | .addPlugin uri => w.lilv uri = none ∨ (switchedOn e.activePlugins).length < MAX_PLUGINS
  | .erase i => 0 ≤ i ∧ i < e.activePlugins.length
  | .moveDown p => 0 ≤ p ∧ p + 1 < e.activePlugins.length
  | .moveUp p => 0 ≤ p ∧ p < e.activePlugins.length
  | .setActive i value =>
    0 ≤ i ∧ i < e.activePlugins.length ∧ Fits (switch e.activePlugins i.toNat value)
  | .clear => True

instance (w : World) (e : Engine) (a : ChainEdit) : Decidable (EditOk w e a) := by
  cases a <;> unfold EditOk <;> infer_instance

structure Live (e : Engine) : Prop where
  settled : Settled e
  instantiated : Instantiated e.activePlugins

theorem live_empty : Live {} := ⟨settled_empty, fun p hp => by cases hp⟩

theorem Became.live {e e' : Engine} {ps : List Plugin} (h : e.Became ps e')
    (hi : Instantiated ps) : Live e' := ⟨h.settled, by rw [h.chain]; exact hi⟩

variable {w : World} {e : Engine}

theorem instantiated_concat {ps : List Plugin} {p : Plugin} (h : Instantiated ps)
    (hp : p.inst = some p.id) : Instantiated (ps ++ [p]) := by
  intro q hq
  rcases List.mem_append.mp hq with hq | hq
  · exact h q hq
  · rw [List.mem_singleton.mp hq]
    exact hp

theorem instantiated_switch {ps : List Plugin} (h : Instantiated ps) (i : ℕ) (value : Bool) :
    Instantiated (switch ps i value) := by
  intro q hq
  obtain ⟨k, hk, rfl⟩ := List.mem_iff_getElem.mp hq
  have hk' : k < ps.length := by simpa [switch] using hk
  simp only [switch, List.getElem_modify]
  split_ifs
  · exact h ps[k] (List.getElem_mem hk')
  · exact h ps[k] (List.getElem_mem hk')

/-- Every admitted edit succeeds and leaves the engine live. -/
theorem step_live (hl : Live e) (a : ChainEdit) (ha : EditOk w e a) :
    ∃ e', step w e a = .ok e' ∧ Live e' := by
  cases a with
  | addPlugin uri =>
    cases huri : w.lilv uri with
    | none =>
      refine ⟨{ e with nextId := e.nextId + 1 }, ?_, ⟨hl.settled.mirrors, hl.settled.running,
        hl.settled.fits⟩, hl.instantiated⟩
      simp only [step, addPlugin_of_none hl.settled huri]
      rfl
    | some ports =>
      have hroom := ha.resolve_left (by rw [huri]; exact Option.some_ne_none _)
      obtain ⟨e', he', hb⟩ := addPlugin_of_some (w := w) (by rw [huri]; rfl) hroom
      have hnew := Plugin.new_of_some huri e.nextId
      refine ⟨e', ?_, hb.live (instantiated_concat hl.instantiated ?_)⟩
      · simp only [step, he']
        rfl
      · rw [hnew.inst, hnew.id]
  | erase i =>
    obtain ⟨k, rfl⟩ := Int.eq_ofNat_of_zero_le ha.1
    obtain ⟨e', he', hb⟩ := erasePlugin_of_lt hl.settled (i := k) (by have := ha.2; omega)
    exact ⟨e', he', hb.live fun p hp => hl.instantiated p (List.mem_of_mem_eraseIdx hp)⟩
  | moveDown p =>
    obtain ⟨k, rfl⟩ := Int.eq_ofNat_of_zero_le ha.1
    have hk : k + 1 < e.activePlugins.length := by have := ha.2; omega
    obtain ⟨e', he', hb⟩ := moveActivePluginDown_of_lt hl.settled hk
    refine ⟨e', by simp only [step, he']; rfl, hb.live fun p hp => hl.instantiated p ?_⟩
    exact (exchange_perm _ hk).mem_iff.mp hp
  | moveUp p =>
    obtain ⟨k, rfl⟩ := Int.eq_ofNat_of_zero_le ha.1
    cases k with
    | zero => exact ⟨e, rfl, hl⟩
    | succ k =>
      have hk : k + 1 < e.activePlugins.length := by have := ha.2; omega
      obtain ⟨e', he', hb⟩ := moveActivePluginUp_of_lt hl.settled hk
      refine ⟨e', ?_, hb.live fun p hp => hl.instantiated p ?_⟩
      · push_cast
        simp only [step, he']
        rfl
      · exact (exchange_perm _ hk).mem_iff.mp hp
  | setActive i value =>
    obtain ⟨k, rfl⟩ := Int.eq_ofNat_of_zero_le ha.1
    obtain ⟨e', he', hb⟩ := setActive_of_lt hl.settled (i := k) (by have := ha.2.1; omega) ha.2.2
    exact ⟨e', he', hb.live (instantiated_switch hl.instantiated k value)⟩
  | clear =>
    obtain ⟨e', he', hb⟩ := clear_ok hl.settled
    exact ⟨e', he', hb.live fun p hp => by cases hp⟩

theorem run_live {edits : List ChainEdit} (h : Admits (step w) (EditOk w) e edits) (hl : Live e) :
    ∃ e', run (step w) e edits = .ok e' ∧ Live e' :=
  always_of_admits (fun _ a hl ha => step_live hl a ha) hl h edits (List.prefix_refl edits)

/-- After every admitted sequence of edits the callback runs exactly the rack: the composition of
the plugins that are switched on, and nothing else; with the bypass on it runs nothing. -/
theorem process_runs_rack (w : World) {edits : List ChainEdit}
    (h : Admits (step w) (EditOk w) {} edits) (run : RunFunction σ) (heap : ℕ → σ)
    (input : Block) :
    ∃ e, GuardedRun.run (step w) {} edits = .ok e ∧
      e.processor.process run heap input =
        (rackTransform run e.activePlugins (heap, input),
          some (input, (rackTransform run e.activePlugins (heap, input)).2)) ∧
      (∀ inst, (∀ p ∈ switchedOn e.activePlugins, p.id ≠ inst) →
        (e.processor.process run heap input).1.1 inst = heap inst) ∧
      (e.setBypass true).processor.process run heap input = ((heap, input), none) := by
  obtain ⟨e, he, hl⟩ := run_live h live_empty
  have hproc := Processor.process_eq_rackTransform hl.settled.mirrors hl.instantiated
    hl.settled.running run heap input
  refine ⟨e, he, hproc, fun inst hinst => ?_, rfl⟩
  rw [hproc]
  exact rackTransform_frame run hinst (heap, input)

def stereoPorts : List LilvPort :=
  [{ isAudio := true, isInput := true }, { isAudio := true, isOutput := true },
    { isControl := true, isInput := true }]

/-- One installed plugin, with one input, one output and one control. -/
def stereoWorld : World where
  lilv uri := if uri = "urn:gain".toList then some stereoPorts else none
  indeterminate _ _ := ⟨.float, 0, 1, 0⟩

theorem process_runs_rack_after_edits :
    ∃ e, GuardedRun.run (step stereoWorld) {}
        [.addPlugin "urn:gain".toList, .addPlugin "urn:none".toList, .addPlugin "urn:gain".toList,
          .setActive 0 false, .moveDown 0, .erase 1] = .ok e ∧
      e.processor.process (fun _ _ (s : ℕ) data => (s + 1, data.map (2 * ·))) (fun _ => 0) [1] =
        (rackTransform (fun _ _ (s : ℕ) data => (s + 1, data.map (2 * ·))) e.activePlugins
            (fun _ => 0, [1]),
          some ([1], (rackTransform (fun _ _ (s : ℕ) data => (s + 1, data.map (2 * ·)))
            e.activePlugins (fun _ => 0, [1])).2)) ∧
      (∀ inst, (∀ p ∈ switchedOn e.activePlugins, p.id ≠ inst) →
        (e.processor.process (fun _ _ (s : ℕ) data => (s + 1, data.map (2 * ·)))
          (fun _ => 0) [1]).1.1 inst = 0) ∧
      (e.setBypass true).processor.process (fun _ _ (s : ℕ) data => (s + 1, data.map (2 * ·)))
        (fun _ => 0) [1] = ((fun _ => 0, [1]), none) :=
  process_runs_rack stereoWorld (by decide) _ _ _

end Engine

end AmpRack

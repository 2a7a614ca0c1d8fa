import AmpRack.Plugin
import AmpRack.VectorEdits
import Mathlib.Data.List.Forall2
import Mathlib.Logic.Function.Basic

/-!
# The plugin chain and the arrays of the audio thread

`Engine.activePlugins` is the chain in order. `buildPluginChain` copies the plugins that are
switched on into the parallel arrays of `Processor`, from slot 0 up; slots past the count keep what
an earlier build left there. A store past `MAX_PLUGINS` is the fault `arrayOverflow`.

`Processor.Mirrors` says that the arrays hold exactly the plugins that are switched on. Building
establishes it, or overflows when there are more than `MAX_PLUGINS` of them.
-/

namespace AmpRack

open VectorEdits

def MAX_PLUGINS : ℕ := 10

/-- The arrays `run`, `connect_port`, `handle`, `descriptor` and the adding gains are written by
the build as well, but `Processor::process` reads none of them. -/
structure Processor where
  activePlugins : ℕ := 0
  inputPorts : ℕ → ℤ := fun _ => 0
  inputPorts2 : ℕ → ℤ := fun _ => 0
  outputPorts : ℕ → ℤ := fun _ => 0
  outputPorts2 : ℕ → ℤ := fun _ => 0
  lilvInstance : ℕ → Option ℕ := fun _ => none
  bypass : Bool := false
  recording : Bool := false

structure Engine where
  activePlugins : List Plugin := []
  processor : Processor := {}
  nextId : ℕ := 0

def switchedOn (ps : List Plugin) : List Plugin := ps.filter (·.active)

@[simp] theorem switchedOn_nil : switchedOn [] = [] := rfl

@[simp] theorem switchedOn_append (ps qs : List Plugin) :
    switchedOn (ps ++ qs) = switchedOn ps ++ switchedOn qs := List.filter_append ..

theorem switchedOn_cons_of_active {p : Plugin} (h : p.active = true) (ps : List Plugin) :
    switchedOn (p :: ps) = p :: switchedOn ps := by simp [switchedOn, h]

theorem switchedOn_cons_of_not_active {p : Plugin} (h : p.active = false) (ps : List Plugin) :
    switchedOn (p :: ps) = switchedOn ps := by simp [switchedOn, h]

/-- What a slot holds of a plugin, and whether it gets one. -/
structure SameSlot (p q : Plugin) : Prop where
  active : q.active = p.active
  inputPort : q.inputPort = p.inputPort
  inputPort2 : q.inputPort2 = p.inputPort2
  outputPort : q.outputPort = p.outputPort
  outputPort2 : q.outputPort2 = p.outputPort2
  inst : q.inst = p.inst

theorem forall₂_switchedOn {ps qs : List Plugin} (h : List.Forall₂ SameSlot ps qs) :
    List.Forall₂ SameSlot (switchedOn ps) (switchedOn qs) := by
  induction h with
  | nil => exact .nil
  | @cons p q ps qs hpq _ ih =>
    cases hp : p.active with
    | false =>
      rw [switchedOn_cons_of_not_active hp, switchedOn_cons_of_not_active (hpq.active.trans hp)]
      exact ih
    | true =>
      rw [switchedOn_cons_of_active hp, switchedOn_cons_of_active (hpq.active.trans hp)]
      exact .cons hpq ih

namespace Processor

/-- The stores of one turn of the loop, behind the slots in use. -/
def pushSlot (pr : Processor) (p : Plugin) : Processor where
  inputPorts := Function.update pr.inputPorts pr.activePlugins p.inputPort
  outputPorts := Function.update pr.outputPorts pr.activePlugins p.outputPort
  inputPorts2 := Function.update pr.inputPorts2 pr.activePlugins p.inputPort2
  outputPorts2 := Function.update pr.outputPorts2 pr.activePlugins p.outputPort2
  lilvInstance := Function.update pr.lilvInstance pr.activePlugins p.inst
  activePlugins := pr.activePlugins + 1
  bypass := pr.bypass
  recording := pr.recording

/-- One turn of the loop of `Engine::buildPluginChain`. -/
def addSlot (pr : Processor) (p : Plugin) : Except Fault Processor :=
  if !p.active then .ok pr
  else if pr.activePlugins < MAX_PLUGINS then .ok (pr.pushSlot p)
  else .error .arrayOverflow

def build (pr : Processor) (ps : List Plugin) : Except Fault Processor :=
  ps.foldlM addSlot { pr with activePlugins := 0 }

/-- Slot `i` of every array holds the fields of `p`. -/
structure Holds (pr : Processor) (i : ℕ) (p : Plugin) : Prop where
  inputPort : pr.inputPorts i = p.inputPort
  inputPort2 : pr.inputPorts2 i = p.inputPort2
  outputPort : pr.outputPorts i = p.outputPort
  outputPort2 : pr.outputPorts2 i = p.outputPort2
  inst : pr.lilvInstance i = p.inst

structure Mirrors (pr : Processor) (ps : List Plugin) : Prop where
  count : pr.activePlugins = (switchedOn ps).length
  slots : ∀ i p, (switchedOn ps)[i]? = some p → pr.Holds i p

theorem mirrors_nil {pr : Processor} (h : pr.activePlugins = 0) : pr.Mirrors [] :=
  ⟨h, fun i p hp => by simp at hp⟩

theorem Mirrors.of_sameSlot {pr : Processor} {ps qs : List Plugin} (hm : pr.Mirrors ps)
    (h : List.Forall₂ SameSlot ps qs) : pr.Mirrors qs := by
  have hon := forall₂_switchedOn h
  refine ⟨hm.count.trans hon.length_eq, fun i q hq => ?_⟩
  obtain ⟨hi, rfl⟩ := List.getElem?_eq_some_iff.mp hq
  have hi' : i < (switchedOn ps).length := by rw [hon.length_eq]; exact hi
  have hs := hon.get hi' hi
  have hh := hm.slots i _ (List.getElem?_eq_getElem hi')
  exact ⟨hh.inputPort.trans hs.inputPort.symm, hh.inputPort2.trans hs.inputPort2.symm,
    hh.outputPort.trans hs.outputPort.symm, hh.outputPort2.trans hs.outputPort2.symm,
    hh.inst.trans hs.inst.symm⟩

/-- The arrays and the count are all that `Mirrors` reads. -/
theorem Mirrors.setBypass {pr : Processor} {ps : List Plugin} (hm : pr.Mirrors ps) (b : Bool) :
    Mirrors { pr with bypass := b } ps :=
  ⟨hm.count, fun i p hp =>
    let h := hm.slots i p hp
    ⟨h.inputPort, h.inputPort2, h.outputPort, h.outputPort2, h.inst⟩⟩

theorem addSlot_of_not_active {p : Plugin} (pr : Processor) (h : p.active = false) :
    pr.addSlot p = .ok pr := by simp [addSlot, h]

theorem addSlot_of_active {p : Plugin} (pr : Processor) (h : p.active = true) :
    pr.addSlot p =
      if pr.activePlugins < MAX_PLUGINS then .ok (pr.pushSlot p) else .error .arrayOverflow := by
  simp [addSlot, h]

theorem holds_pushSlot (pr : Processor) (p : Plugin) :
    (pr.pushSlot p).Holds pr.activePlugins p := by
  constructor <;> simp [pushSlot]

theorem Holds.pushSlot {pr : Processor} {i : ℕ} {p : Plugin} (h : pr.Holds i p)
    (hi : i ≠ pr.activePlugins) (q : Plugin) : (pr.pushSlot q).Holds i p where
  inputPort := by simp [Processor.pushSlot, hi, h.inputPort]
  inputPort2 := by simp [Processor.pushSlot, hi, h.inputPort2]
  outputPort := by simp [Processor.pushSlot, hi, h.outputPort]
  outputPort2 := by simp [Processor.pushSlot, hi, h.outputPort2]
  inst := by simp [Processor.pushSlot, hi, h.inst]

theorem Mirrors.pushSlot {pr : Processor} {ps : List Plugin} {p : Plugin} (hm : pr.Mirrors ps)
    (h : p.active = true) : (pr.pushSlot p).Mirrors (ps ++ [p]) := by
  have hon : switchedOn (ps ++ [p]) = switchedOn ps ++ [p] := by
    rw [switchedOn_append, switchedOn_cons_of_active h, switchedOn_nil]
  refine ⟨by simp [Processor.pushSlot, hon, hm.count], fun i q hq => ?_⟩
  rw [hon] at hq
  rcases Nat.lt_or_ge i (switchedOn ps).length with hi | hi
  · rw [List.getElem?_append_left hi] at hq
    exact (hm.slots i q hq).pushSlot (by rw [hm.count]; exact hi.ne) p
  · obtain ⟨hlt, he⟩ := List.getElem?_eq_some_iff.mp hq
    have hie : i = pr.activePlugins := by
      rw [hm.count]
      simp only [List.length_append, List.length_singleton] at hlt
      omega
    have hqp : q = p := by
      rw [List.getElem_append_right hi] at he
      simpa using he.symm
    rw [hie, hqp]
    exact holds_pushSlot pr p

theorem Mirrors.append_not_active {pr : Processor} {ps : List Plugin} {p : Plugin}
    (hm : pr.Mirrors ps) (h : p.active = false) : pr.Mirrors (ps ++ [p]) := by
  have hon : switchedOn (ps ++ [p]) = switchedOn ps := by
    rw [switchedOn_append, switchedOn_cons_of_not_active h, switchedOn_nil, List.append_nil]
  exact ⟨by rw [hon, hm.count], by rw [hon]; exact hm.slots⟩

/-- The arrays hold the plugins of `ps` that are switched on; the switches are those of `pr`. -/
structure Built (pr : Processor) (ps : List Plugin) (pr' : Processor) : Prop where
  mirrors : pr'.Mirrors ps
  bypass : pr'.bypass = pr.bypass
  recording : pr'.recording = pr.recording

/-- The loop over `qs` extends what the arrays hold by `qs`. -/
theorem foldlM_addSlot {pr : Processor} {ps : List Plugin} (hm : pr.Mirrors ps) (qs : List Plugin)
    (h : (switchedOn (ps ++ qs)).length ≤ MAX_PLUGINS) :
    ∃ pr', qs.foldlM addSlot pr = .ok pr' ∧ Built pr (ps ++ qs) pr' := by
  induction qs generalizing pr ps with
  | nil => exact ⟨pr, rfl, by simpa using hm, rfl, rfl⟩
  | cons q qs ih =>
    rw [List.append_cons] at h ⊢
    rw [List.foldlM_cons]
    cases hq : q.active with
    | false =>
      rw [addSlot_of_not_active pr hq]
      exact ih (hm.append_not_active hq) h
    | true =>
      have hroom : pr.activePlugins < MAX_PLUGINS := by
        simp only [switchedOn_append, switchedOn_cons_of_active hq, switchedOn_nil,
          List.length_append, List.length_singleton] at h
        rw [hm.count]
        omega
      rw [addSlot_of_active pr hq, if_pos hroom]
      obtain ⟨pr', hpr', hb⟩ := ih (hm.pushSlot hq) h
      exact ⟨pr', hpr', hb.mirrors, hb.bypass, hb.recording⟩

theorem foldlM_addSlot_overflow {pr : Processor} {ps : List Plugin} (hm : pr.Mirrors ps)
    (hle : (switchedOn ps).length ≤ MAX_PLUGINS) (qs : List Plugin)
    (h : MAX_PLUGINS < (switchedOn (ps ++ qs)).length) :
    qs.foldlM addSlot pr = .error .arrayOverflow := by
  induction qs generalizing pr ps with
  | nil =>
    rw [List.append_nil] at h
    omega
  | cons q qs ih =>
    rw [List.append_cons] at h
    rw [List.foldlM_cons]
    cases hq : q.active with
    | false =>
      rw [addSlot_of_not_active pr hq]
      refine ih (hm.append_not_active hq) ?_ h
      simpa [switchedOn_cons_of_not_active hq] using hle
    | true =>
      rw [addSlot_of_active pr hq]
      by_cases hroom : pr.activePlugins < MAX_PLUGINS
      · rw [if_pos hroom]
        refine ih (hm.pushSlot hq) ?_ h
        simp only [switchedOn_append, switchedOn_cons_of_active hq, switchedOn_nil,
          List.length_append, List.length_singleton]
        rw [hm.count] at hroom
        omega
      · rw [if_neg hroom]
        rfl

/-- Building succeeds when the plugins switched on fit, and then mirrors them. -/
theorem build_ok (pr : Processor) {ps : List Plugin} (h : (switchedOn ps).length ≤ MAX_PLUGINS) :
    ∃ pr', pr.build ps = .ok pr' ∧ Built pr ps pr' := by
  have hm : Mirrors { pr with activePlugins := 0 } [] := mirrors_nil rfl
  obtain ⟨pr', hpr', hb⟩ := foldlM_addSlot hm ps h
  exact ⟨pr', hpr', hb.mirrors, hb.bypass, hb.recording⟩

theorem build_overflow (pr : Processor) {ps : List Plugin}
    (h : MAX_PLUGINS < (switchedOn ps).length) : pr.build ps = .error .arrayOverflow :=
  foldlM_addSlot_overflow (mirrors_nil rfl) (Nat.zero_le _) ps h

end Processor

end AmpRack

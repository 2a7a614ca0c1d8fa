import AmpRack.Process

/-!
# The stores of an edit, one at a time

The audio thread may call `Processor::process` between any two stores that an edit of the chain
makes. `plan` lists the stores of every edit, `plan_refines` says that making them all is the edit,
and `step` interleaves them with calls of the callback. Only `addPlugin` and `moveActivePluginUp`
raise the bypass before they rebuild the arrays.
-/

namespace AmpRack

open VectorEdits GuardedRun

/-- A store to the fields that `Processor::process` reads; those of a slot go to the slot that the
count names. -/
inductive ChainStore
  | bypass (b : Bool)
  | resetCount
  | inputPort (port : ℤ)
  | outputPort (port : ℤ)
  | inputPort2 (port : ℤ)
  | outputPort2 (port : ℤ)
  | lilvInstance (inst : Option ℕ)
  | nextSlot
  deriving DecidableEq

def ChainStore.toChain : ChainStore → Bool
  | .bypass _ => false
  | _ => true

namespace Processor

def storeSlot (pr pr' : Processor) : Except Fault Processor :=
  if pr.activePlugins < MAX_PLUGINS then .ok pr' else .error .arrayOverflow

def apply (pr : Processor) : ChainStore → Except Fault Processor
  | .bypass b => .ok { pr with bypass := b }
  | .resetCount => .ok { pr with activePlugins := 0 }
  | .inputPort port => pr.storeSlot
      { pr with inputPorts := Function.update pr.inputPorts pr.activePlugins port }
  | .outputPort port => pr.storeSlot
      { pr with outputPorts := Function.update pr.outputPorts pr.activePlugins port }
  | .inputPort2 port => pr.storeSlot
      { pr with inputPorts2 := Function.update pr.inputPorts2 pr.activePlugins port }
  | .outputPort2 port => pr.storeSlot
      { pr with outputPorts2 := Function.update pr.outputPorts2 pr.activePlugins port }
  | .lilvInstance inst => pr.storeSlot
      { pr with lilvInstance := Function.update pr.lilvInstance pr.activePlugins inst }
  | .nextSlot => .ok { pr with activePlugins := pr.activePlugins + 1 }

end Processor

/-- One turn of the loop of `buildPluginChain`, in the order of its assignments. -/
def Plugin.slotStores (p : Plugin) : List ChainStore :=
  if p.active then [.inputPort p.inputPort, .outputPort p.outputPort, .inputPort2 p.inputPort2,
    .outputPort2 p.outputPort2, .lilvInstance p.inst, .nextSlot]
  else []

def buildStores (ps : List Plugin) : List ChainStore := .resetCount :: ps.flatMap Plugin.slotStores

/-- The stores `stores` with the bypass on. -/
def bracketed (stores : List ChainStore) : List ChainStore := .bypass true :: (stores ++ [.bypass false])

/-- What an edit makes of the vector, and the stores that it will make. -/
structure EditPlan where
  stores : List ChainStore
  chain : List Plugin
  nextId : ℕ

namespace Engine

def unchanged (e : Engine) : EditPlan := ⟨[], e.activePlugins, e.nextId⟩

/-- An edit of the vector and the build after it, whose stores are made inside `wrap`. -/
def rebuild (e : Engine) (wrap : List ChainStore → List ChainStore) :
    Option (List Plugin) → Except Fault EditPlan
  | none => .error .outOfRange
  | some ps => .ok ⟨wrap (buildStores ps), ps, e.nextId⟩

def plan (w : World) (e : Engine) : ChainEdit → Except Fault EditPlan
  | .addPlugin uri =>
    let plugin := Plugin.new w e.nextId uri
    let e := { e with nextId := e.nextId + 1 }
    if plugin.uri.isSome then e.rebuild bracketed (some (e.activePlugins ++ [plugin]))
    else .ok { e.unchanged with stores := bracketed [] }
  | .erase i => e.rebuild id (eraseAt e.activePlugins i)
  | .moveDown p =>
    if p = e.activePlugins.length then .ok e.unchanged
    else e.rebuild id (rotate e.activePlugins p (p + 1) (p + 2))
  | .moveUp p =>
    if p = 0 then .ok e.unchanged
    else e.rebuild bracketed (rotate e.activePlugins (p - 1) p (p + 1))
  | .setActive i value =>
    e.rebuild id (modifyAt e.activePlugins i fun p => { p with active := value })
  | .clear => e.rebuild id (some [])

/-- Make the stores of a plan one after the other. -/
def execute (e : Engine) (d : EditPlan) : Except Fault Engine :=
  (d.stores.foldlM Processor.apply e.processor).map fun pr =>
    { activePlugins := d.chain, processor := pr, nextId := d.nextId }

end Engine

namespace Processor

variable {pr pr' : Processor} {st : ChainStore} {ps : List Plugin}

theorem foldlM_slotStores (pr : Processor) (p : Plugin) :
    p.slotStores.foldlM apply pr = pr.addSlot p := by
  unfold Plugin.slotStores
  cases hp : p.active with
  | false =>
    rw [addSlot_of_not_active pr hp]
    rfl
  | true =>
    rw [addSlot_of_active pr hp]
    by_cases hroom : pr.activePlugins < MAX_PLUGINS
    · simp [apply, storeSlot, hroom, pushSlot, bind, Except.bind, pure, Except.pure]
    · simp [apply, storeSlot, hroom, bind, Except.bind]

theorem foldlM_buildStores (pr : Processor) (ps : List Plugin) :
    (buildStores ps).foldlM apply pr = pr.build ps := by
  have h (pr : Processor) : (ps.flatMap Plugin.slotStores).foldlM apply pr =
      ps.foldlM addSlot pr := by
    induction ps generalizing pr with
    | nil => rfl
    | cons p ps ih =>
      rw [List.flatMap_cons, List.foldlM_append, foldlM_slotStores, List.foldlM_cons]
      exact congrArg _ (funext ih)
  exact h { pr with activePlugins := 0 }

theorem foldlM_bracketed (pr : Processor) (stores : List ChainStore) :
    (bracketed stores).foldlM apply pr =
      (stores.foldlM apply { pr with bypass := true }).map fun pr => { pr with bypass := false } := by
  change (stores ++ [ChainStore.bypass false]).foldlM apply { pr with bypass := true } = _
  rw [List.foldlM_append]
  cases stores.foldlM apply { pr with bypass := true } <;> rfl

/-- A store to the chain leaves the bypass as it is. -/
theorem apply_bypass (hst : st.toChain = true) (h : pr.apply st = .ok pr') :
    pr'.bypass = pr.bypass := by
  have hslot {pr₁ : Processor} (h : pr.storeSlot pr₁ = .ok pr') (h₁ : pr₁.bypass = pr.bypass) :
      pr'.bypass = pr.bypass := by
    unfold storeSlot at h
    split_ifs at h
    cases h
    exact h₁
  cases st with
  | bypass b => cases hst
  | resetCount => cases h; rfl
  | nextSlot => cases h; rfl
  | inputPort port => exact hslot h rfl
  | outputPort port => exact hslot h rfl
  | inputPort2 port => exact hslot h rfl
  | outputPort2 port => exact hslot h rfl
  | lilvInstance inst => exact hslot h rfl

end Processor

theorem toChain_of_mem_buildStores {ps : List Plugin} {st : ChainStore} (h : st ∈ buildStores ps) :
    st.toChain = true := by
  rcases List.mem_cons.mp h with rfl | h
  · rfl
  · obtain ⟨p, -, hp⟩ := List.mem_flatMap.mp h
    unfold Plugin.slotStores at hp
    split_ifs at hp
    · simp only [List.mem_cons, List.not_mem_nil, or_false] at hp
      rcases hp with rfl | rfl | rfl | rfl | rfl | rfl <;> rfl
    · cases hp

namespace Engine

/-- Making the stores of its plan one after the other is the edit. -/
theorem plan_refines (w : World) (e : Engine) (a : ChainEdit) :
    (e.plan w a >>= e.execute) = e.step w a := by
  have hbuild (e : Engine) (ps? : Option (List Plugin)) :
      (e.rebuild id ps? >>= e.execute) = e.edit ps? := by
    cases ps? with
    | none => rfl
    | some ps =>
      change ((buildStores ps).foldlM Processor.apply e.processor).map _ = (e.processor.build ps).map _
      rw [Processor.foldlM_buildStores]
  have hbracketed (e : Engine) (ps? : Option (List Plugin)) :
      (e.rebuild bracketed ps? >>= e.execute) =
        ((e.setBypass true).edit ps?).map (·.setBypass false) := by
    cases ps? with
    | none => rfl
    | some ps =>
      change ((bracketed (buildStores ps)).foldlM Processor.apply e.processor).map _ =
        (((e.setBypass true).processor.build ps).map _).map _
      rw [Processor.foldlM_bracketed, Processor.foldlM_buildStores]
      change (((e.setBypass true).processor.build ps).map _).map _ =
        (((e.setBypass true).processor.build ps).map _).map _
      cases (e.setBypass true).processor.build ps <;> rfl
  have hfst {α β γ : Type} (x : Except Fault α) (f : α → β) (g : α → γ) :
      (x.map fun a => (f a, g a)).map Prod.fst = x.map f := by
    cases x <;> rfl
  cases a with
  | addPlugin uri =>
    simp only [plan, step, addPlugin]
    by_cases huri : (Plugin.new w e.nextId uri).uri.isSome = true
    · rw [if_pos huri, if_pos huri, hfst]
      exact hbracketed { e with nextId := e.nextId + 1 } _
    · rw [if_neg huri, if_neg huri]
      rfl
  | erase i => exact hbuild e _
  | moveDown p =>
    simp only [plan, step, moveActivePluginDown]
    by_cases hp : p = e.activePlugins.length
    · rw [if_pos hp, if_pos hp]
      rfl
    · rw [if_neg hp, if_neg hp, hbuild, hfst]
      exact (congrFun Except.map_id _).symm
  | moveUp p =>
    simp only [plan, step, moveActivePluginUp]
    by_cases hp : p = 0
    · rw [if_pos hp, if_pos hp]
      rfl
    · rw [if_neg hp, if_neg hp, hfst]
      exact hbracketed e _
  | setActive i value => exact hbuild e _
  | clear => exact hbuild e (some [])

end Engine

/-- The interface thread inside an edit of the chain `before`, with the stores it has still to make,
and the plugin instances of the audio thread. -/
structure Threads (σ : Type*) where
  engine : Engine := {}
  before : List Plugin := []
  pending : List ChainStore := []
  heap : ℕ → σ

inductive ThreadStep
  | edit (a : ChainEdit)
  | store
  | process (input : Block)

namespace Threads

variable {σ : Type*}

/-- The next edit begins when the last one has made all its stores. -/
def step (w : World) (run : RunFunction σ) (s : Threads σ) : ThreadStep → Except Fault (Threads σ)
  | .edit a =>
    if s.pending = [] then
      (s.engine.plan w a).map fun d => { s with
        engine := { s.engine with activePlugins := d.chain, nextId := d.nextId }
        before := s.engine.activePlugins
        pending := d.stores }
    else .ok s
  | .store =>
    match s.pending with
    | [] => .ok s
    | st :: rest => (s.engine.processor.apply st).map fun pr =>
        { s with engine := { s.engine with processor := pr }, pending := rest }
  | .process input => .ok { s with heap := (s.engine.processor.process run s.heap input).1.1 }

/-- What the callback leaves and pushes when it runs the chain `ps`. -/
def ranChain (run : RunFunction σ) (ps : List Plugin) (heap : ℕ → σ) (input : Block) :
    AudioState σ × Option (Block × Block) :=
  (rackTransform run ps (heap, input), some (input, (rackTransform run ps (heap, input)).2))

/-- The stores still to be made stay inside the arrays, the next one is not to the chain unless the
bypass is on, and a call of the callback now would pass its input through or run the chain from before
or from after the edit. -/
structure Unseen (run : RunFunction σ) (s : Threads σ) : Prop where
  inside : ∃ pr, s.pending.foldlM Processor.apply s.engine.processor = .ok pr
  hidden : ∀ st rest, s.pending = st :: rest → st.toChain = true → s.engine.processor.bypass = true
  whole : ∀ input,
    s.engine.processor.process run s.heap input = ((s.heap, input), none) ∨
    s.engine.processor.process run s.heap input =
      ranChain run s.engine.activePlugins s.heap input ∨
    s.pending ≠ [] ∧
      s.engine.processor.process run s.heap input = ranChain run s.before s.heap input

/-- The edit is inside the vector and the arrays, and raises the bypass or makes no store. -/
def EditHidden (w : World) (e : Engine) : ChainEdit → Prop
  | .addPlugin uri => w.lilv uri = none ∨ (switchedOn e.activePlugins).length < MAX_PLUGINS
  | .moveUp p => 0 ≤ p ∧ (p = 0 ∨ p < e.activePlugins.length)
  | .moveDown p => p = e.activePlugins.length
  | .erase _ => False
  | .setActive _ _ => False
  | .clear => False

def StepHidden (w : World) (s : Threads σ) : ThreadStep → Prop
  | .edit a => s.pending = [] → EditHidden w s.engine a
  | _ => True

/-- The stores go through, and then the arrays hold `ps`. -/
def Completes (pr : Processor) (stores : List ChainStore) (ps : List Plugin) : Prop :=
  ∃ pr', stores.foldlM Processor.apply pr = .ok pr' ∧ pr'.Mirrors ps

def AllToChain (stores : List ChainStore) : Prop := ∀ st ∈ stores, st.toChain = true

/-- How far an edit that raises the bypass has come. -/
inductive Phase (s : Threads σ) : Prop
  | idle (pending : s.pending = []) (running : s.engine.processor.bypass = false)
      (mirrors : s.engine.processor.Mirrors s.engine.activePlugins)
  | raising (stores : List ChainStore) (pending : s.pending = bracketed stores)
      (chain : AllToChain stores) (running : s.engine.processor.bypass = false)
      (mirrors : s.engine.processor.Mirrors s.before)
      (completes : Completes { s.engine.processor with bypass := true } stores
        s.engine.activePlugins)
  | rebuilding (stores : List ChainStore) (pending : s.pending = stores ++ [.bypass false])
      (chain : AllToChain stores) (bypassed : s.engine.processor.bypass = true)
      (completes : Completes s.engine.processor stores s.engine.activePlugins)

structure Inv (s : Threads σ) : Prop where
  before : Instantiated s.before
  after : Instantiated s.engine.activePlugins
  fits : Engine.Fits s.engine.activePlugins
  phase : Phase s

variable {w : World} {run : RunFunction σ} {s s' : Threads σ}

theorem inv_start (heap : ℕ → σ) : Inv { heap := heap } :=
  ⟨fun _ hp => (by cases hp), fun _ hp => (by cases hp), Nat.zero_le _,
    .idle rfl rfl (Processor.mirrors_nil rfl)⟩

theorem process_of_bypass {pr : Processor} (h : pr.bypass = true) (heap : ℕ → σ) (input : Block) :
    pr.process run heap input = ((heap, input), none) := by
  rw [Processor.process, if_pos h]

theorem foldlM_lower {pr pr' : Processor} {stores : List ChainStore}
    (h : stores.foldlM Processor.apply pr = .ok pr') :
    (stores ++ [ChainStore.bypass false]).foldlM Processor.apply pr = .ok { pr' with bypass := false } := by
  rw [List.foldlM_append, h]
  rfl

theorem Inv.unseen (h : Inv s) : Unseen run s := by
  cases h.phase with
  | idle pending running mirrors =>
    refine ⟨⟨_, by rw [pending]; rfl⟩, fun st rest hst => ?_, fun input => .inr (.inl ?_)⟩
    · rw [pending] at hst
      cases hst
    · exact Processor.process_eq_rackTransform mirrors h.after running run s.heap input
  | raising stores pending chain running mirrors completes =>
    obtain ⟨pr, hpr, -⟩ := completes
    refine ⟨⟨{ pr with bypass := false }, ?_⟩, fun st rest hst hchain => ?_,
      fun input => .inr (.inr ⟨?_, ?_⟩)⟩
    · rw [pending]
      exact foldlM_lower hpr
    · rw [pending] at hst
      cases hst
      cases hchain
    · rw [pending]
      exact List.cons_ne_nil _ _
    · exact Processor.process_eq_rackTransform mirrors h.before running run s.heap input
  | rebuilding stores pending chain bypassed completes =>
    obtain ⟨pr, hpr, -⟩ := completes
    refine ⟨⟨_, by rw [pending]; exact foldlM_lower hpr⟩, fun _ _ _ _ => bypassed,
      fun input => .inl (process_of_bypass bypassed s.heap input)⟩

theorem Completes.tail {pr : Processor} {st : ChainStore} {stores : List ChainStore} {ps : List Plugin}
    (h : Completes pr (st :: stores) ps) :
    ∃ pr', pr.apply st = .ok pr' ∧ Completes pr' stores ps := by
  obtain ⟨pr'', hpr'', hm⟩ := h
  obtain ⟨pr', hst, hrest⟩ := exists_of_bind_ok hpr''
  exact ⟨pr', hst, pr'', hrest, hm⟩

theorem store_inv (h : Inv s) : ∃ s', step w run s .store = .ok s' ∧ Inv s' := by
  simp only [step]
  cases h.phase with
  | idle pending running mirrors =>
    rw [pending]
    exact ⟨s, rfl, h⟩
  | raising stores pending chain running mirrors completes =>
    rw [pending]
    exact ⟨_, rfl, h.before, h.after, h.fits, .rebuilding stores rfl chain rfl completes⟩
  | rebuilding stores pending chain bypassed completes =>
    rw [pending]
    cases stores with
    | nil =>
      obtain ⟨pr, hpr, hm⟩ := completes
      cases hpr
      exact ⟨_, rfl, h.before, h.after, h.fits, .idle rfl rfl (hm.setBypass false)⟩
    | cons st stores =>
      obtain ⟨hst, hstores⟩ := List.forall_mem_cons.mp chain
      obtain ⟨pr, hpr, hrest⟩ := completes.tail
      rw [List.cons_append]
      simp only [hpr]
      refine ⟨_, rfl, h.before, h.after, h.fits, ?_⟩
      exact .rebuilding stores rfl hstores ((Processor.apply_bypass hst hpr).trans bypassed) hrest

theorem allToChain_buildStores (ps : List Plugin) : AllToChain (buildStores ps) :=
  fun _ hst => toChain_of_mem_buildStores hst

theorem completes_buildStores (pr : Processor) {ps : List Plugin} (h : Engine.Fits ps) :
    Completes pr (buildStores ps) ps := by
  obtain ⟨pr', hpr', hb⟩ := pr.build_ok h
  exact ⟨pr', (Processor.foldlM_buildStores pr ps).trans hpr', hb.mirrors⟩

section Edit

variable {e : Engine} {a : ChainEdit} {d : EditPlan}

theorem instantiated_exchange {ps : List Plugin} {k : ℕ} (h : Instantiated ps)
    (hk : k + 1 < ps.length) : Instantiated (exchange ps k) :=
  fun p hp => h p ((exchange_perm ps hk).mem_iff.mp hp)

theorem fits_new_iff {uri : Text} (h : (Plugin.new w e.nextId uri).uri.isSome = true) :
    Engine.Fits (e.activePlugins ++ [Plugin.new w e.nextId uri]) ↔
      (switchedOn e.activePlugins).length < MAX_PLUGINS := by
  rw [Plugin.new_uri_isSome] at h
  obtain ⟨ports, hports⟩ := Option.isSome_iff_exists.mp h
  have hactive := (Plugin.new_of_some hports e.nextId).active
  simp only [Engine.Fits, switchedOn_append, switchedOn_cons_of_active hactive, switchedOn_nil,
    List.length_append, List.length_singleton]
  exact Nat.succ_le_iff

/-- An edit that is hidden makes no stores, or makes them all with the bypass on. -/
theorem plan_of_hidden (ha : EditHidden w e a) (hi : Instantiated e.activePlugins)
    (hfits : Engine.Fits e.activePlugins) :
    ∃ d, e.plan w a = .ok d ∧
      ((d.stores = [] ∨ d.stores = bracketed []) ∧ d.chain = e.activePlugins ∨
        d.stores = bracketed (buildStores d.chain) ∧ Instantiated d.chain ∧ Engine.Fits d.chain) := by
  cases a with
  | addPlugin uri =>
    simp only [Engine.plan]
    split_ifs with huri
    · refine ⟨_, rfl, .inr ⟨rfl, Engine.instantiated_concat hi ?_, ?_⟩⟩
      · rw [Plugin.new_uri_isSome] at huri
        obtain ⟨ports, hports⟩ := Option.isSome_iff_exists.mp huri
        rw [(Plugin.new_of_some hports e.nextId).inst, Plugin.new_id]
      · rw [fits_new_iff huri]
        refine ha.resolve_left fun hnone => ?_
        rw [Plugin.new_uri_isSome, hnone] at huri
        cases huri
    · exact ⟨_, rfl, .inl ⟨.inr rfl, rfl⟩⟩
  | moveUp p =>
    simp only [Engine.plan]
    split_ifs with hp
    · exact ⟨_, rfl, .inl ⟨.inl rfl, rfl⟩⟩
    · have hlt := ha.2.resolve_left hp
      obtain ⟨k, rfl⟩ : ∃ k : ℕ, p = k + 1 := ⟨(p - 1).toNat, by have := ha.1; omega⟩
      have hk : k + 1 < e.activePlugins.length := by omega
      have hr : rotate e.activePlugins ((k : ℤ) + 1 - 1) (k + 1) (k + 1 + 1) =
          some (exchange e.activePlugins k) := by
        rw [← rotate_eq_exchange _ hk]
        congr 1
        all_goals omega
      rw [hr]
      exact ⟨_, rfl, .inr ⟨rfl, instantiated_exchange hi hk,
        Engine.fits_of_perm (exchange_perm _ hk) hfits⟩⟩
  | moveDown p =>
    have hp : p = e.activePlugins.length := ha
    rw [Engine.plan, if_pos hp]
    exact ⟨_, rfl, .inl ⟨.inl rfl, rfl⟩⟩
  | erase i => exact ha.elim
  | setActive i value => exact ha.elim
  | clear => exact ha.elim

/-- An edit that is not hidden faults, rebuilds the arrays at once or runs past their end. -/
theorem plan_of_not_hidden (ha : ¬ EditHidden w e a) (h : e.plan w a = .ok d) :
    ∃ ps, d.stores = buildStores ps ∨ d.stores = bracketed (buildStores ps) ∧ ¬ Engine.Fits ps := by
  have hrebuild {ps? : Option (List Plugin)} (hps : e.rebuild id ps? = .ok d) :
      ∃ ps, d.stores = buildStores ps := by
    cases ps? with
    | none => cases hps
    | some ps =>
      cases hps
      exact ⟨ps, rfl⟩
  cases a with
  | addPlugin uri =>
    obtain ⟨hlilv, hroom⟩ := not_or.mp ha
    have huri : (Plugin.new w e.nextId uri).uri.isSome = true := by
      rw [Plugin.new_uri_isSome]
      exact Option.isSome_iff_ne_none.mpr hlilv
    simp only [Engine.plan, if_pos huri] at h
    cases h
    exact ⟨_, .inr ⟨rfl, mt (fits_new_iff huri).mp hroom⟩⟩
  | moveUp p =>
    simp only [Engine.plan] at h
    split_ifs at h with hp
    · exact absurd ⟨by omega, .inl hp⟩ ha
    · cases hr : rotate e.activePlugins (p - 1) p (p + 1) with
      | none =>
        rw [hr] at h
        cases h
      | some ps =>
        obtain ⟨k, hk, hlt, -⟩ := rotate_eq_some (by omega) (by omega) hr
        exact absurd ⟨by omega, .inr (by omega)⟩ ha
  | moveDown p =>
    have hp : ¬ p = e.activePlugins.length := ha
    rw [Engine.plan, if_neg hp] at h
    obtain ⟨ps, hps⟩ := hrebuild h
    exact ⟨ps, .inl hps⟩
  | erase i =>
    obtain ⟨ps, hps⟩ := hrebuild h
    exact ⟨ps, .inl hps⟩
  | setActive i value =>
    obtain ⟨ps, hps⟩ := hrebuild h
    exact ⟨ps, .inl hps⟩
  | clear =>
    cases h
    exact ⟨[], .inl rfl⟩

/-- With nothing pending, no edit is under way. -/
theorem Inv.idle (h : Inv s) (hp : s.pending = []) :
    s.engine.processor.bypass = false ∧ s.engine.processor.Mirrors s.engine.activePlugins := by
  cases h.phase with
  | idle pending running mirrors => exact ⟨running, mirrors⟩
  | raising stores pending =>
    rw [pending] at hp
    cases hp
  | rebuilding stores pending =>
    rw [pending] at hp
    simp at hp

theorem edit_inv (h : Inv s) (ha : StepHidden w s (.edit a)) :
    ∃ s', step w run s (.edit a) = .ok s' ∧ Inv s' := by
  simp only [step]
  split_ifs with hp
  · obtain ⟨running, mirrors⟩ := h.idle hp
    obtain ⟨d, hd, hcases⟩ := plan_of_hidden (ha hp) h.after h.fits
    rw [hd]
    refine ⟨_, rfl, ?_⟩
    rcases hcases with ⟨hnone | hnone, hchain⟩ | ⟨hstores, hinst, hfits⟩
    · refine ⟨h.after, ?_, ?_, .idle hnone running ?_⟩
      · exact hchain ▸ h.after
      · exact hchain ▸ h.fits
      · exact hchain ▸ mirrors
    · refine ⟨h.after, ?_, ?_, .raising [] hnone (fun _ hst => by cases hst) running mirrors ?_⟩
      · exact hchain ▸ h.after
      · exact hchain ▸ h.fits
      · exact ⟨_, rfl, hchain ▸ mirrors.setBypass true⟩
    · exact ⟨h.after, hinst, hfits, .raising (buildStores d.chain) hstores
        (allToChain_buildStores d.chain) running mirrors (completes_buildStores _ hfits)⟩
  · exact ⟨s, rfl, h⟩

theorem step_inv (h : Inv s) {b : ThreadStep} (hb : StepHidden w s b) :
    ∃ s', step w run s b = .ok s' ∧ Inv s' := by
  cases b with
  | edit a => exact edit_inv h hb
  | store => exact store_inv h
  | process input =>
    refine ⟨_, rfl, h.before, h.after, h.fits, ?_⟩
    cases h.phase with
    | idle pending running mirrors => exact .idle pending running mirrors
    | raising stores pending chain running mirrors completes =>
      exact .raising stores pending chain running mirrors completes
    | rebuilding stores pending chain bypassed completes =>
      exact .rebuilding stores pending chain bypassed completes

/-- An edit that rebuilds the arrays at once does so while the callback runs them, and an eleventh
plugin has no slot. -/
theorem stepHidden_of_unseen {b : ThreadStep} (h : Inv s) (hs' : step w run s b = .ok s')
    (hunseen : Unseen run s') : StepHidden w s b := by
  cases b with
  | edit a =>
    intro hp
    by_contra ha
    rw [step, if_pos hp] at hs'
    obtain ⟨d, hd, rfl⟩ := Engine.map_eq_ok hs'
    obtain ⟨ps, hstores | ⟨hstores, hfull⟩⟩ := plan_of_not_hidden ha hd
    · have hbypass : s.engine.processor.bypass = true :=
        hunseen.hidden .resetCount _ hstores rfl
      rw [(h.idle hp).1] at hbypass
      cases hbypass
    · obtain ⟨pr, hpr⟩ := hunseen.inside
      have hbuild : (bracketed (buildStores ps)).foldlM Processor.apply s.engine.processor = .ok pr :=
        hstores ▸ hpr
      rw [Processor.foldlM_bracketed, Processor.foldlM_buildStores,
        Processor.build_overflow _ (not_le.mp hfull)] at hbuild
      cases hbuild
  | store => trivial
  | process input => trivial

end Edit

/-- An interleaving goes through and shows no edit half-way exactly when no plugin is moved down,
deleted, switched on or off or cleared in it, but for a move down of what is behind the last card, and
every other edit has its index in the vector and a slot for its plugin. -/
theorem unseen_iff_stepHidden (w : World) (run : RunFunction σ) (heap : ℕ → σ)
    (steps : List ThreadStep) :
    Always (step w run) (Unseen run) { heap := heap } steps ↔
      Admits (step w run) (StepHidden w) { heap := heap } steps :=
  always_iff_admits (fun _ h => h.unseen) (fun _ _ h hb => step_inv h hb)
    (fun _ _ _ h hs' hunseen => stepHidden_of_unseen h hs' hunseen) (inv_start heap)

/-- Two plugins are added, and the first one is moved down. -/
def moveDownSteps : List ThreadStep :=
  .edit (.addPlugin "urn:gain".toList) :: List.replicate 9 .store ++
    .edit (.addPlugin "urn:gain".toList) :: List.replicate 15 .store ++ [.edit (.moveDown 0)]

/-- The next store resets the count while the callback is running the chain. -/
theorem moveDown_seen :
    ¬ Always (step Engine.stereoWorld fun _ _ (n : ℕ) data => (n + 1, data))
      (Unseen fun _ _ (n : ℕ) data => (n + 1, data)) { heap := fun _ => 0 } moveDownSteps := by
  intro h
  obtain ⟨s, hs, hlast⟩ := h moveDownSteps (List.prefix_refl _)
  cases hs
  exact absurd (hlast.hidden .resetCount _ rfl rfl) (by decide)

end Threads

end AmpRack

import AmpRack.Plugin
import AmpRack.GuardedRun

/-!
# The callbacks of the writer thread

`add_function` and `pop_function` keep the functions that `main` calls on every buffer in an array of
`MAX_FUNCTIONS` entries and a counter. The abstract table is a stack that ignores an `add` when it is
full and a `pop` when it is empty. The guard of `add_function` lets one function too many through, and
`pop_function` clears the entry above the last one, without a guard: `CallOk` is what is left.
-/

namespace AmpRack

open GuardedRun

def MAX_FUNCTIONS : ℕ := 10

/-- The static array and the `int functions_count`. -/
structure CallbackTable (φ : Type*) where
  functions : ℕ → Option φ
  functionsCount : ℤ

inductive TableCall (φ : Type*)
  | addFunction (f : φ)
  | popFunction

namespace CallbackTable

variable {φ : Type*}

/-- The constructor leaves the static array as it is. -/
def fresh (functions : ℕ → Option φ) : CallbackTable φ := ⟨functions, 0⟩

/-- `functions [i] = f` -/
def store (t : CallbackTable φ) (i : ℤ) (f : Option φ) : Except Fault (CallbackTable φ) :=
  if 0 ≤ i ∧ i < MAX_FUNCTIONS then
    .ok { t with functions := Function.update t.functions i.toNat f }
  else .error .arrayOverflow

def addFunction (t : CallbackTable φ) (f : φ) : Except Fault (CallbackTable φ) :=
  if t.functionsCount > MAX_FUNCTIONS then .ok t
  else (t.store t.functionsCount (some f)).map fun t =>
    { t with functionsCount := t.functionsCount + 1 }

def popFunction (t : CallbackTable φ) : Except Fault (CallbackTable φ) :=
  (t.store t.functionsCount none).map fun t => { t with functionsCount := t.functionsCount - 1 }

/-- What `main` calls on a buffer: `functions [i]` for `i` from 0 while `i < functions_count`. -/
def called (t : CallbackTable φ) : List (Option φ) :=
  (List.range t.functionsCount.toNat).map t.functions

end CallbackTable

/-- The abstract table: the functions added and not yet popped. -/
def TableCall.apply {φ : Type*} (added : List φ) : TableCall φ → List φ
  | .addFunction f => if added.length < MAX_FUNCTIONS then added ++ [f] else added
  | .popFunction => added.dropLast

/-- A table together with the abstract one. -/
structure TableRun (φ : Type*) where
  table : CallbackTable φ
  added : List φ

namespace TableRun

variable {φ : Type*}

def fresh (functions : ℕ → Option φ) : TableRun φ := ⟨.fresh functions, []⟩

def step (r : TableRun φ) (c : TableCall φ) : Except Fault (TableRun φ) :=
  (match c with
    | .addFunction f => r.table.addFunction f
    | .popFunction => r.table.popFunction).map fun t => ⟨t, c.apply r.added⟩

structure Disciplined (r : TableRun φ) : Prop where
  count_nonneg : 0 ≤ r.table.functionsCount
  count_le : r.table.functionsCount ≤ MAX_FUNCTIONS
  called : r.table.called = r.added.map some

/-- An entry is free for an `add`; for a `pop` there is a last entry and one above it. -/
def CallOk (r : TableRun φ) : TableCall φ → Prop
  | .addFunction _ => r.table.functionsCount < MAX_FUNCTIONS
  | .popFunction => 0 < r.table.functionsCount ∧ r.table.functionsCount < MAX_FUNCTIONS

theorem disciplined_fresh (functions : ℕ → Option φ) : (fresh functions).Disciplined :=
  ⟨Int.le_refl 0, Int.natCast_nonneg _, rfl⟩

variable {r : TableRun φ}

theorem Disciplined.length_eq (h : r.Disciplined) :
    (r.added.length : ℤ) = r.table.functionsCount := by
  have hlen := congrArg List.length h.called
  simp only [CallbackTable.called, List.length_map, List.length_range] at hlen
  rw [← hlen]
  exact Int.toNat_of_nonneg h.count_nonneg

/-- A write at or above the counter does not change what `main` calls. -/
theorem called_update (t : CallbackTable φ) (f : Option φ) :
    (List.range t.functionsCount.toNat).map
      (Function.update t.functions t.functionsCount.toNat f) = t.called := by
  apply List.map_congr_left
  intro i hi
  exact Function.update_of_ne (Nat.ne_of_lt (List.mem_range.mp hi)) _ _

theorem store_of_lt {t : CallbackTable φ} {i : ℤ} (hpos : 0 ≤ i) (hlt : i < MAX_FUNCTIONS)
    (f : Option φ) :
    t.store i f = .ok { t with functions := Function.update t.functions i.toNat f } := by
  rw [CallbackTable.store, if_pos ⟨hpos, hlt⟩]

theorem store_of_ge {t : CallbackTable φ} {i : ℤ} (hge : ¬ i < MAX_FUNCTIONS) (f : Option φ) :
    t.store i f = .error .arrayOverflow := by
  rw [CallbackTable.store, if_neg (fun h => hge h.2)]

theorem step_add (h : r.Disciplined) (f : φ) (hlt : r.table.functionsCount < MAX_FUNCTIONS) :
    r.step (.addFunction f) = .ok
      { table :=
          { functions :=
              Function.update r.table.functions r.table.functionsCount.toNat (some f)
            functionsCount := r.table.functionsCount + 1 }
        added := r.added ++ [f] } := by
  have hlen := h.length_eq
  have hadded : r.added.length < MAX_FUNCTIONS := by omega
  simp only [step, CallbackTable.addFunction, TableCall.apply, gt_iff_lt]
  rw [if_neg (Int.not_lt.mpr (Int.le_of_lt hlt)), store_of_lt h.count_nonneg hlt, if_pos hadded]
  rfl

theorem step_pop (h : r.Disciplined) (hlt : r.table.functionsCount < MAX_FUNCTIONS) :
    r.step .popFunction = .ok
      { table :=
          { functions := Function.update r.table.functions r.table.functionsCount.toNat none
            functionsCount := r.table.functionsCount - 1 }
        added := r.added.dropLast } := by
  simp only [step, CallbackTable.popFunction, TableCall.apply]
  rw [store_of_lt h.count_nonneg hlt]
  rfl

theorem step_full (h : r.Disciplined) (hfull : ¬ r.table.functionsCount < MAX_FUNCTIONS)
    (c : TableCall φ) : r.step c = .error .arrayOverflow := by
  cases c with
  | addFunction f =>
    simp only [step, CallbackTable.addFunction, gt_iff_lt]
    rw [if_neg (Int.not_lt.mpr h.count_le), store_of_ge hfull]
    rfl
  | popFunction =>
    simp only [step, CallbackTable.popFunction]
    rw [store_of_ge hfull]
    rfl

theorem disciplined_add (h : r.Disciplined) (f : φ)
    (hlt : r.table.functionsCount < MAX_FUNCTIONS) :
    ∃ r', r.step (.addFunction f) = .ok r' ∧ r'.Disciplined := by
  have hcount := h.count_nonneg
  refine ⟨_, step_add h f hlt, Int.add_nonneg hcount Int.one_nonneg, hlt, ?_⟩
  have hsucc : (r.table.functionsCount + 1).toNat = r.table.functionsCount.toNat + 1 := by omega
  simp only [CallbackTable.called, hsucc, List.range_succ, List.map_append, List.map_cons,
    List.map_nil, Function.update_self]
  rw [called_update, h.called]

theorem disciplined_pop (h : r.Disciplined) (hpos : 0 < r.table.functionsCount)
    (hlt : r.table.functionsCount < MAX_FUNCTIONS) :
    ∃ r', r.step .popFunction = .ok r' ∧ r'.Disciplined := by
  have hle : r.table.functionsCount - 1 ≤ MAX_FUNCTIONS := by omega
  refine ⟨_, step_pop h hlt, Int.le_sub_one_of_lt hpos, hle, ?_⟩
  have hsucc : r.table.functionsCount.toNat = (r.table.functionsCount - 1).toNat + 1 := by omega
  have hcalled : (List.range ((r.table.functionsCount - 1).toNat + 1)).map
      (Function.update r.table.functions r.table.functionsCount.toNat none) =
        r.added.map some := by
    rw [← hsucc, called_update, h.called]
  have hlast := congrArg List.dropLast hcalled
  rw [List.range_succ, List.map_append, List.map_singleton, List.dropLast_concat,
    ← List.map_dropLast] at hlast
  exact hlast

theorem step_of_callOk (h : r.Disciplined) (c : TableCall φ) (hc : r.CallOk c) :
    ∃ r', r.step c = .ok r' ∧ r'.Disciplined := by
  cases c with
  | addFunction f => exact disciplined_add h f hc
  | popFunction => exact disciplined_pop h hc.1 hc.2

/-- A full table is written past its end, and an empty one gets the counter -1. -/
theorem callOk_of_step (h : r.Disciplined) (c : TableCall φ) {r' : TableRun φ}
    (hstep : r.step c = .ok r') (h' : r'.Disciplined) : r.CallOk c := by
  have hlt : r.table.functionsCount < MAX_FUNCTIONS := by
    by_contra hfull
    rw [step_full h hfull] at hstep
    cases hstep
  cases c with
  | addFunction f => exact hlt
  | popFunction =>
    rw [step_pop h hlt] at hstep
    cases hstep
    have hnonneg : 0 ≤ r.table.functionsCount - 1 := h'.count_nonneg
    exact ⟨by omega, hlt⟩

/-- The table is the bounded stack throughout a run of calls exactly when no call finds it full and
no `pop_function` finds it empty. -/
theorem disciplined_iff_callOk (functions : ℕ → Option φ) (calls : List (TableCall φ)) :
    Always step Disciplined (fresh functions) calls ↔ Admits step CallOk (fresh functions) calls := by
  apply always_iff_admits (fun _ h => h) (fun _ c h hc => step_of_callOk h c hc)
  · exact fun _ c _ h hstep h' => callOk_of_step h c hstep h'
  · exact disciplined_fresh functions

theorem eleventh_function_overflows :
    ¬ Always step Disciplined (fresh fun _ => none) (List.replicate 11 (.addFunction "f")) := by
  intro h
  obtain ⟨r, hr, -⟩ := h _ (List.prefix_refl _)
  cases hr

end TableRun

end AmpRack

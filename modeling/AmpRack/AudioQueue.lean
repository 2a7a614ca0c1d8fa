import AmpRack.FifoRing
import AmpRack.GuardedRun
import AmpRack.Process

/-!
# From the audio thread to the writer thread

`LockFreeQueueManager::process` copies a block into the next buffer of a pool and queues that
buffer; `main` pops a buffer and calls the registered functions on it. A step of a run is one call
of `process`, one pop or one function call. A `Trace` is a manager with the history of its run: the
calls whose push was accepted, the number of pops, and every buffer handed to a function.

The pool buffers have the size that `init` was called with, which `process` does not look at. There
are as many of them as queue slots, and `main` holds one more. `Inv n m` is about `m` functions of
which the first `n` need the block intact: while a pool buffer that none of them needs is free
whenever `process` is called, and the block fits into it, they are given what was played. `Delivered`
is the case in which all of them need it.
-/

namespace AmpRack

open FifoRing GuardedRun

def SPARE_BUFFERS : ℕ := 128

structure AudioBuffer where
  pos : ℕ := 0
  data : Block := []
  raw : Block := []
  deriving DecidableEq

/-- The arguments of a call of `process`, both arrays of `samplesToProcess` samples. -/
structure ProcessCall where
  raw : Block
  data : Block
  length_eq : data.length = raw.length
  deriving DecidableEq

/-- An array of `n` samples, with what was in the memory. -/
def mallocFloats (n : ℕ) (memory : ℕ → ℚ) : Block := (List.range n).map memory

/-- The samples of `new` stored over the first samples of `old`. -/
def overwrite (new old : Block) : Block := new ++ old.drop new.length

namespace AudioBuffer

structure Sized (n : ℕ) (b : AudioBuffer) : Prop where
  data : b.data.length = n
  raw : b.raw.length = n

/-- The loop of `process` stays inside both arrays. -/
def Fits (b : AudioBuffer) (c : ProcessCall) : Prop :=
  c.raw.length ≤ b.raw.length ∧ c.raw.length ≤ b.data.length

instance (b : AudioBuffer) (c : ProcessCall) : Decidable (b.Fits c) :=
  inferInstanceAs (Decidable (_ ∧ _))

def fill (b : AudioBuffer) (c : ProcessCall) : AudioBuffer where
  pos := c.raw.length
  data := overwrite c.data b.data
  raw := overwrite c.raw b.raw

structure Holds (b : AudioBuffer) (c : ProcessCall) : Prop where
  pos : b.pos = c.raw.length
  raw : b.raw.take b.pos = c.raw
  data : b.data.take b.pos = c.data

theorem holds_fill (b : AudioBuffer) (c : ProcessCall) : (b.fill c).Holds c := by
  refine ⟨rfl, List.take_left, ?_⟩
  change List.take c.raw.length (c.data ++ _) = c.data
  rw [← c.length_eq]
  exact List.take_left

theorem length_overwrite {new old : Block} (h : new.length ≤ old.length) :
    (overwrite new old).length = old.length := by
  rw [overwrite, List.length_append, List.length_drop, Nat.add_sub_of_le h]

theorem Sized.fits_iff {n : ℕ} {b : AudioBuffer} (h : b.Sized n) (c : ProcessCall) :
    b.Fits c ↔ c.raw.length ≤ n := by
  rw [Fits, h.raw, h.data, and_self_iff]

theorem Sized.fill {n : ℕ} {b : AudioBuffer} (h : b.Sized n) {c : ProcessCall}
    (hc : c.raw.length ≤ n) : (b.fill c).Sized n where
  data := (length_overwrite (by rw [c.length_eq, h.data]; exact hc)).trans h.data
  raw := (length_overwrite (by rw [h.raw]; exact hc)).trans h.raw

end AudioBuffer

variable {ω : Type*}

/-- The queue has `LOCK_FREE_SIZE = 2 ^ 7` slots, each pool buffer `bufferSize` samples. `popped` stands
for the locals of `main`: the buffer it holds and the next function to call on it; `none` when no call
is due. `outside` is what the functions act on. -/
structure LockFreeQueueManager (ω : Type*) where
  lockFreeQueue : Ring ℕ 32 7
  pAudioBuffer : ℕ → AudioBuffer
  bufferSize : ℕ
  bufferCounter : ℕ
  popped : Option (ℕ × ℕ)
  outside : ω

namespace LockFreeQueueManager

/-- `init` of a new manager; `memory` is what the arrays that it allocates have in them. -/
def init (bufferSize : ℕ) (memory : ℕ → ℕ → ℚ) (outside : ω) : LockFreeQueueManager ω where
  lockFreeQueue := ⟨fun _ => 0, 0, 0⟩
  pAudioBuffer i :=
    { data := mallocFloats bufferSize (memory (2 * i))
      raw := mallocFloats bufferSize (memory (2 * i + 1)) }
  bufferSize := bufferSize
  bufferCounter := 0
  popped := none
  outside := outside

/-- Nothing stops the loop over the samples at the end of the arrays. -/
def process (m : LockFreeQueueManager ω) (c : ProcessCall) :
    Except Fault (LockFreeQueueManager ω × Bool) :=
  let buffer := m.pAudioBuffer m.bufferCounter
  if buffer.Fits c then
    let pushed := m.lockFreeQueue.push m.bufferCounter
    let next := m.bufferCounter + 1
    .ok ({ m with
      pAudioBuffer := Function.update m.pAudioBuffer m.bufferCounter (buffer.fill c)
      lockFreeQueue := pushed.1
      bufferCounter := if SPARE_BUFFERS ≤ next then 0 else next }, pushed.2)
  else .error .arrayOverflow

theorem outside_process {m : LockFreeQueueManager ω} {c : ProcessCall}
    {r : LockFreeQueueManager ω × Bool} (h : m.process c = .ok r) : r.1.outside = m.outside := by
  by_cases hfits : (m.pAudioBuffer m.bufferCounter).Fits c
  · rw [process, if_pos hfits] at h
    cases h
    rfl
  · rw [process, if_neg hfits] at h
    cases h

/-- The `pop` of `main`'s inner loop; `main` gets to it when no call is due. -/
def pop (functions : List (AudioBuffer → ω → ω)) (m : LockFreeQueueManager ω) :
    Option (LockFreeQueueManager ω) :=
  if m.popped.isSome then none
  else m.lockFreeQueue.pop.map fun r =>
    { m with
      lockFreeQueue := r.2
      popped := if 0 < functions.length then some (r.1, 0) else none }

/-- The next call of `main`'s loop over the functions. -/
def call (functions : List (AudioBuffer → ω → ω)) (m : LockFreeQueueManager ω) :
    Option (LockFreeQueueManager ω) :=
  m.popped.bind fun r => functions[r.2]?.map fun f =>
    { m with
      outside := f (m.pAudioBuffer r.1) m.outside
      popped := if r.2 + 1 < functions.length then some (r.1, r.2 + 1) else none }

end LockFreeQueueManager

/-- One function call: the number of the pop it belongs to, the function, the buffer it was given. -/
structure Handing where
  delivery : ℕ
  function : ℕ
  buffer : AudioBuffer

structure Trace (ω : Type*) where
  manager : LockFreeQueueManager ω
  pushed : List ProcessCall := []
  pops : ℕ := 0
  handed : List Handing := []

inductive QueueStep
  | process (c : ProcessCall)
  | pop
  | call

namespace Trace

/-- A step that is not due leaves the trace as it is. -/
def step (functions : List (AudioBuffer → ω → ω)) (t : Trace ω) :
    QueueStep → Except Fault (Trace ω)
  | .process c =>
    (t.manager.process c).map fun r =>
      { t with manager := r.1, pushed := if r.2 then t.pushed ++ [c] else t.pushed }
  | .pop =>
    match t.manager.pop functions with
    | none => .ok t
    | some m => .ok { t with manager := m, pops := t.pops + 1 }
  | .call =>
    match t.manager.popped, t.manager.call functions with
    | some (buffer, i), some m =>
      .ok { t with
        manager := m
        handed := t.handed ++ [⟨t.pops - 1, i, t.manager.pAudioBuffer buffer⟩] }
    | _, _ => .ok t

def queued (t : Trace ω) : ℕ := t.manager.lockFreeQueue.size.toNat

/-- Whether `main` holds a buffer for one of the first `n` functions. -/
def heldFor (n : ℕ) : Option (ℕ × ℕ) → ℕ
  | none => 0
  | some (_, i) => if i < n then 1 else 0

def held (n : ℕ) (t : Trace ω) : ℕ := heldFor n t.manager.popped

/-- `process` is called only while a pool buffer is neither queued nor held, with a block that fits
into it. -/
def Room (n : ℕ) (t : Trace ω) : QueueStep → Prop
  | .process c => t.queued + t.held n < SPARE_BUFFERS ∧ c.raw.length ≤ t.manager.bufferSize
  | _ => True

instance (n : ℕ) (t : Trace ω) (a : QueueStep) : Decidable (Room n t a) := by
  cases a <;> unfold Room <;> infer_instance

/-- What `main` still has to hand over for the buffer it holds. -/
def due (m : ℕ) (t : Trace ω) : ℕ :=
  match t.manager.popped with
  | none => 0
  | some (_, i) => m - i

/-- With `m` functions: every buffer handed over holds the block of its push, the blocks are handed
over in the order of the pushes, each once to each function, and a block not handed over is still
queued or due. -/
structure Delivered (m : ℕ) (t : Trace ω) : Prop where
  intact : ∀ h ∈ t.handed, ∃ c, t.pushed[h.delivery]? = some c ∧ h.buffer.Holds c
  order : ∀ i h, t.handed[i]? = some h → h.delivery = i / m ∧ h.function = i % m
  complete : t.handed.length + t.due m = t.pops * m
  pending : t.pushed.length = t.pops + t.queued

/-- Push `j` went to pool buffer `j % SPARE_BUFFERS`; the buffers from the one held up to the last
one queued still hold their blocks. -/
structure Inv (n m : ℕ) (t : Trace ω) : Prop where
  ring : t.manager.lockFreeQueue.Represents t.pops
    ((List.range' t.pops (t.pushed.length - t.pops)).map (· % SPARE_BUFFERS))
  popped_le : t.pops ≤ t.pushed.length
  sized : ∀ i, (t.manager.pAudioBuffer i).Sized t.manager.bufferSize
  counter : t.manager.bufferCounter = t.pushed.length % SPARE_BUFFERS
  window : t.pushed.length + t.held n ≤ t.pops + SPARE_BUFFERS
  buffers : ∀ j c, t.pops ≤ j + t.held n → t.pushed[j]? = some c →
    (t.manager.pAudioBuffer (j % SPARE_BUFFERS)).Holds c
  busy : ∀ b i, t.manager.popped = some (b, i) →
    ∃ d, t.pops = d + 1 ∧ b = d % SPARE_BUFFERS ∧ i < m ∧ t.handed.length = d * m + i
  idle : t.manager.popped = none → t.handed.length = t.pops * m
  intact : ∀ h ∈ t.handed, h.function < n →
    ∃ c, t.pushed[h.delivery]? = some c ∧ h.buffer.Holds c
  order : ∀ i h, t.handed[i]? = some h → h.delivery = i / m ∧ h.function = i % m

variable {functions : List (AudioBuffer → ω → ω)} {n m : ℕ} {t : Trace ω}

theorem heldFor_le_one (n : ℕ) (r : Option (ℕ × ℕ)) : heldFor n r ≤ 1 := by
  unfold heldFor
  split
  · exact Nat.zero_le 1
  · split_ifs <;> omega

theorem heldFor_next_le (n m b i : ℕ) :
    heldFor n (if i + 1 < m then some (b, i + 1) else none) ≤ heldFor n (some (b, i)) := by
  by_cases hm : i + 1 < m
  · rw [if_pos hm]
    simp only [heldFor]
    split_ifs <;> omega
  · rw [if_neg hm]
    exact Nat.zero_le _

theorem Inv.queued_eq (h : t.Inv n m) : t.queued = t.pushed.length - t.pops := by
  rw [queued, h.ring.toNat_size (by decide), List.length_map, List.length_range']

theorem Inv.complete (h : t.Inv n m) : t.handed.length + t.due m = t.pops * m := by
  rcases hp : t.manager.popped with _ | ⟨b, i⟩
  · simp only [due, hp, h.idle hp, Nat.add_zero]
  · obtain ⟨d, hd, -, hi, hlen⟩ := h.busy b i hp
    simp only [due, hp, hlen, hd, Nat.add_one_mul]
    omega

theorem Inv.delivered (h : t.Inv m m) : t.Delivered m where
  intact := fun x hx => by
    obtain ⟨i, hi⟩ := List.mem_iff_getElem?.mp hx
    apply h.intact x hx
    rw [(h.order i x hi).2]
    refine Nat.mod_lt i (Nat.pos_of_ne_zero fun hm => ?_)
    have hcomplete := h.complete
    rw [hm, Nat.mul_zero, Nat.add_eq_zero_iff, List.length_eq_zero_iff] at hcomplete
    rw [hcomplete.1] at hx
    cases hx
  order := h.order
  complete := h.complete
  pending := by
    rw [h.queued_eq]
    have := h.popped_le
    omega

theorem length_mallocFloats (n : ℕ) (memory : ℕ → ℚ) : (mallocFloats n memory).length = n := by
  rw [mallocFloats, List.length_map, List.length_range]

theorem inv_init (bufferSize : ℕ) (memory : ℕ → ℕ → ℚ) (outside : ω) (n m : ℕ) :
    Inv n m { manager := .init bufferSize memory outside } where
  ring := Ring.Represents.empty _
  popped_le := le_rfl
  sized := fun _ => ⟨length_mallocFloats _ _, length_mallocFloats _ _⟩
  counter := rfl
  window := Nat.zero_le _
  buffers := fun j c _ hj => by simp at hj
  busy := fun b i h => by cases h
  idle := fun _ => (Nat.zero_mul m).symm
  intact := fun h hh => by cases hh
  order := fun i h hh => by simp at hh

theorem mod_ne_of_lt {j k m : ℕ} (hjk : j < k) (hkm : k < j + m) : j % m ≠ k % m := by
  intro h
  have hmod : j + 0 ≡ j + (k - j) [MOD m] := by
    rw [Nat.add_sub_cancel' hjk.le]
    exact h
  have := (Nat.ModEq.add_left_cancel' j hmod).eq_of_lt_of_lt (by omega) (by omega)
  omega

theorem succ_wrap (k m : ℕ) (hm : 0 < m) :
    (if m ≤ k % m + 1 then 0 else k % m + 1) = (k + 1) % m := by
  have hlt := Nat.mod_lt k hm
  split_ifs with h
  · have hk : k % m + 1 = m := by omega
    rw [← Nat.mod_add_mod, hk, Nat.mod_self]
  · rw [← Nat.mod_add_mod, Nat.mod_eq_of_lt (show k % m + 1 < m by omega)]

/-- What a call of `process` leaves when the push succeeds. -/
def processed (t : Trace ω) (c : ProcessCall) : Trace ω :=
  let m := t.manager
  { t with
    manager := { m with
      pAudioBuffer := Function.update m.pAudioBuffer m.bufferCounter
        ((m.pAudioBuffer m.bufferCounter).fill c)
      lockFreeQueue := (m.lockFreeQueue.push m.bufferCounter).1
      bufferCounter := if SPARE_BUFFERS ≤ m.bufferCounter + 1 then 0 else m.bufferCounter + 1 }
    pushed := t.pushed ++ [c] }

/-- With room in the pool the push succeeds, and the buffer it fills is neither queued nor held. -/
theorem Inv.process (h : t.Inv n m) (c : ProcessCall) (hroom : t.Room n (.process c)) :
    t.step functions (.process c) = .ok (t.processed c) ∧ Inv n m (t.processed c) := by
  obtain ⟨hroom, hsize⟩ := hroom
  rw [h.queued_eq] at hroom
  have hpop := h.popped_le
  have hlen : ((List.range' t.pops (t.pushed.length - t.pops)).map (· % SPARE_BUFFERS)).length
      < 2 ^ 7 := by
    rw [List.length_map, List.length_range']
    exact lt_of_le_of_lt (Nat.le_add_right _ _) hroom
  obtain ⟨hok, hrep⟩ := h.ring.push_room (by decide) hlen t.manager.bufferCounter
  have hfits : (t.manager.pAudioBuffer t.manager.bufferCounter).Fits c :=
    ((h.sized _).fits_iff c).mpr hsize
  have hprocess : t.manager.process c = .ok ((t.processed c).manager, true) := by
    rw [LockFreeQueueManager.process]
    simp only [if_pos hfits, hok]
    rfl
  refine ⟨by rw [step, hprocess]; rfl, ?_⟩
  have hcount : (t.pushed ++ [c]).length - t.pops = t.pushed.length - t.pops + 1 := by
    rw [List.length_append, List.length_singleton]
    omega
  refine ⟨?_, ?_, fun i => ?_, ?_, ?_, fun j c' hj hc' => ?_, h.busy, h.idle, fun hd hhd hn => ?_,
    h.order⟩
  · rw [processed, hcount, List.range'_1_concat, List.map_append, Nat.add_sub_cancel' hpop,
      List.map_singleton, ← h.counter]
    exact hrep
  · simp only [processed, List.length_append]
    omega
  · change AudioBuffer.Sized t.manager.bufferSize (Function.update t.manager.pAudioBuffer
      t.manager.bufferCounter ((t.manager.pAudioBuffer t.manager.bufferCounter).fill c) i)
    obtain rfl | hi := eq_or_ne i t.manager.bufferCounter
    · rw [Function.update_self]
      exact (h.sized _).fill hsize
    · rw [Function.update_of_ne hi]
      exact h.sized i
  · simp only [processed, h.counter, List.length_append, List.length_singleton]
    exact succ_wrap _ _ (by decide)
  · change (t.pushed ++ [c]).length + t.held n ≤ _
    rw [List.length_append, List.length_singleton]
    change _ ≤ t.pops + SPARE_BUFFERS
    omega
  · change t.pops ≤ j + t.held n at hj
    change (t.pushed ++ [c])[j]? = some c' at hc'
    change AudioBuffer.Holds (Function.update t.manager.pAudioBuffer t.manager.bufferCounter
      ((t.manager.pAudioBuffer t.manager.bufferCounter).fill c) (j % SPARE_BUFFERS)) c'
    rw [h.counter]
    rcases Nat.lt_or_ge j t.pushed.length with hlt | hge
    · rw [List.getElem?_append_left hlt] at hc'
      rw [Function.update_of_ne (mod_ne_of_lt hlt (by omega))]
      exact h.buffers j c' hj hc'
    · rw [List.getElem?_append_right hge] at hc'
      obtain ⟨hlt, hc⟩ := List.getElem?_eq_some_iff.mp hc'
      obtain rfl : j = t.pushed.length := by
        simp only [List.length_singleton] at hlt
        omega
      simp only [Nat.sub_self, List.getElem_cons_zero] at hc
      rw [Function.update_self, ← hc]
      exact AudioBuffer.holds_fill _ c
  · obtain ⟨c', hc', hb⟩ := h.intact hd hhd hn
    refine ⟨c', ?_, hb⟩
    change (t.pushed ++ [c])[hd.delivery]? = some c'
    rw [List.getElem?_append_left (List.getElem?_eq_some_iff.mp hc').1]
    exact hc'

/-- Popping moves the head of the queue into `main`'s hands. -/
theorem Inv.pop (h : t.Inv n functions.length) :
    ∃ t', t.step functions .pop = .ok t' ∧ t'.Inv n functions.length := by
  cases hp : t.manager.popped with
  | some r => exact ⟨t, by simp [step, LockFreeQueueManager.pop, hp], h⟩
  | none =>
    have hheld : t.held n = 0 := by rw [held, hp]; rfl
    let next : Option (ℕ × ℕ) :=
      if 0 < functions.length then some (t.pops % SPARE_BUFFERS, 0) else none
    have hone := heldFor_le_one n next
    have hle := h.popped_le
    have hwindow := h.window
    cases hk : t.pushed.length - t.pops with
    | zero =>
      have hring := h.ring
      rw [hk] at hring
      exact ⟨t, by simp [step, LockFreeQueueManager.pop, hp, hring.pop_nil (by decide)], h⟩
    | succ k =>
      have hring := h.ring
      rw [hk, List.range'_succ, List.map_cons] at hring
      obtain ⟨q, hq, hrep⟩ := hring.pop_cons (by decide)
      have hk' : t.pushed.length - (t.pops + 1) = k := by omega
      simp only [step, LockFreeQueueManager.pop, hp, hq, Option.isSome_none, Bool.false_eq_true,
        if_false, Option.map_some]
      refine ⟨_, rfl, ?_, ?_, h.sized, h.counter, ?_, fun j c hj hc => ?_, fun b i hb => ?_, fun hb => ?_,
        h.intact, h.order⟩
      · simp only [hk']
        exact hrep
      · change t.pops + 1 ≤ t.pushed.length
        omega
      · change t.pushed.length + heldFor n next ≤ t.pops + 1 + SPARE_BUFFERS
        omega
      · refine h.buffers j c ?_ hc
        change t.pops + 1 ≤ j + heldFor n next at hj
        omega
      · simp only at hb
        split_ifs at hb with hn
        cases hb
        exact ⟨t.pops, rfl, rfl, hn, h.idle hp⟩
      · simp only at hb
        split_ifs at hb with hn
        change t.handed.length = (t.pops + 1) * functions.length
        rw [h.idle hp]
        have : functions.length = 0 := by omega
        rw [this, Nat.mul_zero, Nat.mul_zero]

/-- A function is given the buffer `main` holds, whose block the producer has not overwritten. -/
theorem Inv.call (h : t.Inv n functions.length) :
    ∃ t', t.step functions .call = .ok t' ∧ t'.Inv n functions.length := by
  rcases hp : t.manager.popped with _ | ⟨b, i⟩
  · exact ⟨t, by simp [step, hp], h⟩
  · obtain ⟨d, hd, hb, hi, hlen⟩ := h.busy b i hp
    have hheld : t.held n = heldFor n (some (b, i)) := by rw [held, hp]
    let next := if i + 1 < functions.length then some (b, i + 1) else none
    have hnext : heldFor n next ≤ heldFor n (some (b, i)) := heldFor_next_le n functions.length b i
    have hle := h.popped_le
    have hwindow := h.window
    have hget : functions[i]? = some functions[i] := List.getElem?_eq_getElem hi
    have hpos : 0 < functions.length := Nat.zero_lt_of_lt hi
    simp only [step, LockFreeQueueManager.call, hp, Option.bind_some, hget, Option.map_some]
    refine ⟨_, rfl, h.ring, hle, h.sized, h.counter, ?_, fun j c hj hc => ?_, fun b' i' hb' => ?_,
      fun hb' => ?_, fun x hx hxn => ?_, fun k x hx => ?_⟩
    · change t.pushed.length + heldFor n next ≤ t.pops + SPARE_BUFFERS
      omega
    · refine h.buffers j c ?_ hc
      change t.pops ≤ j + heldFor n next at hj
      omega
    · simp only at hb'
      split_ifs at hb' with hn
      cases hb'
      refine ⟨d, hd, hb, hn, ?_⟩
      rw [List.length_append, hlen, List.length_singleton, Nat.add_assoc]
    · simp only at hb'
      split_ifs at hb' with hn
      have hlast : i + 1 = functions.length := by omega
      change _ = t.pops * functions.length
      rw [List.length_append, hlen, List.length_singleton, Nat.add_assoc, hlast, hd,
        Nat.add_one_mul]
    · rcases List.mem_append.mp hx with hx | hx
      · exact h.intact x hx hxn
      · rw [List.mem_singleton.mp hx] at hxn ⊢
        rw [hd, Nat.add_sub_cancel, hb]
        rw [heldFor, if_pos hxn] at hheld
        have hdlt : d < t.pushed.length := by omega
        refine ⟨t.pushed[d], List.getElem?_eq_getElem hdlt, ?_⟩
        exact h.buffers d _ (by omega) (List.getElem?_eq_getElem hdlt)
    · rcases Nat.lt_or_ge k t.handed.length with hlt | hge
      · rw [List.getElem?_append_left hlt] at hx
        exact h.order k x hx
      · rw [List.getElem?_append_right hge] at hx
        obtain ⟨hlt, hx⟩ := List.getElem?_eq_some_iff.mp hx
        obtain rfl : k = d * functions.length + i := by
          simp only [List.length_singleton] at hlt
          omega
        rw [List.getElem_singleton] at hx
        rw [← hx, hd, Nat.add_sub_cancel, Nat.mul_comm d]
        exact ⟨by rw [Nat.mul_add_div hpos, Nat.div_eq_of_lt hi, Nat.add_zero],
          by rw [Nat.mul_add_mod, Nat.mod_eq_of_lt hi]⟩

/-- As long as `process` finds a free pool buffer that is large enough, every block reaches every
function as it was played, in the order of the pushes. -/
theorem delivered_of_room (functions : List (AudioBuffer → ω → ω)) (bufferSize : ℕ)
    (memory : ℕ → ℕ → ℚ) (outside : ω) {steps : List QueueStep}
    (h : Admits (step functions) (Room functions.length)
      { manager := .init bufferSize memory outside } steps) :
    Always (step functions) (Delivered functions.length)
      { manager := .init bufferSize memory outside } steps := by
  refine (always_of_admits (fun t a ht ha => ?_) (inv_init bufferSize memory outside _ _) h).mono
    fun t ht => ht.delivered
  cases a with
  | process c => exact ⟨_, ht.process c ha⟩
  | pop => exact ht.pop
  | call => exact ht.call

def twoFunctions : List (AudioBuffer → Unit → Unit) := [fun _ => id, fun _ => id]

theorem delivered_of_room_two_blocks :
    Always (step twoFunctions) (Delivered 2) { manager := .init 2 (fun _ _ => 0) () }
      [.process ⟨[1, 2], [3, 4], rfl⟩, .process ⟨[5], [6], rfl⟩, .pop, .call, .call, .pop,
        .process ⟨[7], [8], rfl⟩, .call] :=
  delivered_of_room twoFunctions 2 (fun _ _ => 0) () (by decide)

/-- One block more than the pool has buffers before the first pop. -/
def overrunSteps : List QueueStep :=
  .process ⟨[0], [0], rfl⟩ :: List.replicate 128 (.process ⟨[1], [1], rfl⟩) ++ [.pop, .call]

/-- The block whose push finds the queue full is copied over the block at its head. -/
theorem overrun_not_delivered :
    ¬ Always (step twoFunctions) (Delivered 2) { manager := .init 1 (fun _ _ => 0) () }
      overrunSteps := by
  intro h
  obtain ⟨t, ht, hd⟩ := h overrunSteps (List.prefix_refl _)
  have hrun : (run (step twoFunctions) { manager := .init 1 (fun _ _ => 0) () } overrunSteps).map
      (fun t => (t.handed.map fun h => (h.delivery, h.buffer), t.pushed[0]?)) =
        .ok ([(0, ⟨1, [1], [1]⟩)], some ⟨[0], [0], rfl⟩) := by decide +kernel
  rw [ht] at hrun
  injection hrun with hrun
  obtain ⟨hhanded, hpushed⟩ := Prod.mk.inj hrun
  obtain ⟨x, hx, hx'⟩ := List.map_eq_singleton_iff.mp hhanded
  obtain ⟨hdelivery, hbuffer⟩ := Prod.mk.inj hx'
  obtain ⟨c, hc, hholds⟩ := hd.intact x (by rw [hx]; exact List.mem_singleton_self x)
  rw [hdelivery, hpushed] at hc
  cases hc
  have hraw := hholds.raw
  rw [hbuffer] at hraw
  exact absurd hraw (by decide)

end Trace

end AmpRack

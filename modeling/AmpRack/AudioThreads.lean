import AmpRack.AudioQueue

/-!
# The queue between its two threads, access by access

The audio thread copies a block sample by sample and takes `push` in its steps: a look at the
counters, the store to a slot, the counter. The other thread takes `pop` in three steps as well, and
calls the functions after it. The accesses of the two threads may come in any order. While a pool
buffer is free whenever `process` begins, and the block fits into it, the outcome is that of a run in
which every call of `process` and every `pop` is one step.
-/

namespace AmpRack

open FifoRing GuardedRun

/-- A store of `process` to the members of its pool buffer. -/
inductive BufferStore
  | raw (i : ℕ) (v : ℚ)
  | data (i : ℕ) (v : ℚ)
  | pos (n : ℕ)
  deriving DecidableEq

namespace AudioBuffer

def InRange (b : AudioBuffer) : BufferStore → Prop
  | .raw i _ => i < b.raw.length
  | .data i _ => i < b.data.length
  | .pos _ => True

instance (b : AudioBuffer) (store : BufferStore) : Decidable (b.InRange store) := by
  cases store <;> unfold InRange <;> infer_instance

def put (b : AudioBuffer) : BufferStore → AudioBuffer
  | .raw i v => { b with raw := b.raw.set i v }
  | .data i v => { b with data := b.data.set i v }
  | .pos n => { b with pos := n }

def store (b : AudioBuffer) (s : BufferStore) : Except Fault AudioBuffer :=
  if b.InRange s then .ok (b.put s) else .error .arrayOverflow

end AudioBuffer

/-- The loop of `process` over the samples, from number `i` on. -/
def storesFrom : ℕ → Block → Block → List BufferStore
  | i, r :: raw, d :: data => .raw i r :: .data i d :: storesFrom (i + 1) raw data
  | _, _, _ => []

def ProcessCall.stores (c : ProcessCall) : List BufferStore :=
  storesFrom 0 c.raw c.data ++ [.pos c.raw.length]

/-- Where the audio thread is: behind `n` of the stores, in front of the store to the slot, or of the
counter. -/
inductive AudioPoint
  | idle
  | filling (c : ProcessCall) (n : ℕ)
  | storing (c : ProcessCall)
  | advancing (c : ProcessCall)
  deriving DecidableEq

/-- Where `main` is in `pop`: in front of the load of the slot, or of the counter. -/
inductive MainPoint
  | idle
  | loading
  | advancing (buffer : ℕ)
  deriving DecidableEq

variable {ω : Type*}

/-- The memory with the history of the run, and the points of the two threads. -/
structure AudioThreads (ω : Type*) where
  trace : Trace ω
  audio : AudioPoint := .idle
  main : MainPoint := .idle

inductive AccessStep
  /-- The driver calls `process`. -/
  | process (c : ProcessCall)
  | audio
  | main

/-- `buffer_counter` at the end of `process`. -/
def LockFreeQueueManager.nextBuffer (m : LockFreeQueueManager ω) : LockFreeQueueManager ω :=
  { m with
    bufferCounter := if SPARE_BUFFERS ≤ m.bufferCounter + 1 then 0 else m.bufferCounter + 1 }

namespace AudioThreads

def stepAudio (s : AudioThreads ω) : Except Fault (AudioThreads ω) :=
  let m := s.trace.manager
  match s.audio with
  | .idle => .ok s
  | .filling c n =>
    match c.stores[n]? with
    | some store =>
      ((m.pAudioBuffer m.bufferCounter).store store).map fun filled =>
        let manager := { m with
          pAudioBuffer := Function.update m.pAudioBuffer m.bufferCounter filled }
        { s with trace := { s.trace with manager := manager }, audio := .filling c (n + 1) }
    | none =>
      if m.lockFreeQueue.isFull then
        .ok { s with trace := { s.trace with manager := m.nextBuffer }, audio := .idle }
      else .ok { s with audio := .storing c }
  | .storing c =>
    let manager := { m with lockFreeQueue := m.lockFreeQueue.storeSlot m.bufferCounter }
    .ok { s with trace := { s.trace with manager := manager }, audio := .advancing c }
  | .advancing c =>
    let manager := { m with lockFreeQueue := m.lockFreeQueue.advanceWrite }.nextBuffer
    .ok { s with
      trace := { s.trace with manager := manager, pushed := s.trace.pushed ++ [c] }
      audio := .idle }

/-- The next access of `main`'s `pop`, when no call is due. -/
def stepPop (functions : List (AudioBuffer → ω → ω)) (s : AudioThreads ω) : AudioThreads ω :=
  let m := s.trace.manager
  match s.main with
  | .idle => if m.lockFreeQueue.isEmpty then s else { s with main := .loading }
  | .loading => { s with main := .advancing m.lockFreeQueue.loadSlot }
  | .advancing buffer =>
    let manager := { m with
      lockFreeQueue := m.lockFreeQueue.advanceRead
      popped := if 0 < functions.length then some (buffer, 0) else none }
    { s with
      trace := { s.trace with manager := manager, pops := s.trace.pops + 1 }
      main := .idle }

/-- The driver does not call `process` again before it is through. -/
def step (functions : List (AudioBuffer → ω → ω)) (s : AudioThreads ω) :
    AccessStep → Except Fault (AudioThreads ω)
  | .process c =>
    match s.audio with
    | .idle => .ok { s with audio := .filling c 0 }
    | _ => .ok s
  | .audio => s.stepAudio
  | .main =>
    if s.trace.manager.popped.isSome then
      (s.trace.step functions .call).map fun trace => { s with trace := trace }
    else .ok (s.stepPop functions)

def start (bufferSize : ℕ) (memory : ℕ → ℕ → ℚ) (outside : ω) : AudioThreads ω :=
  { trace := { manager := .init bufferSize memory outside } }

/-- `process` begins only while a pool buffer is neither queued nor held, with a block that fits into
it. -/
def Room (n : ℕ) (s : AudioThreads ω) : AccessStep → Prop
  | .process c => s.trace.Room n (.process c)
  | _ => True

instance (n : ℕ) (s : AudioThreads ω) (a : AccessStep) : Decidable (Room n s a) := by
  cases a <;> unfold Room <;> infer_instance

/-- The buffer that `main` holds has the block of its push, as long as it is held. -/
def Steady (s : AudioThreads ω) : Prop :=
  ∀ b i, s.trace.manager.popped = some (b, i) →
    ∃ c, s.trace.pushed[s.trace.pops - 1]? = some c ∧ (s.trace.manager.pAudioBuffer b).Holds c

/-- The same blocks have been pushed, popped and handed to the functions, which have done the same,
and between two calls of `process` the memory is the same. -/
structure SameOutcome (s : AudioThreads ω) (t : Trace ω) : Prop where
  pushed : s.trace.pushed = t.pushed
  pops : s.trace.pops = t.pops
  handed : s.trace.handed = t.handed
  outside : s.trace.manager.outside = t.manager.outside
  memory : s.audio = .idle → s.trace.manager = t.manager

end AudioThreads

namespace AudioBuffer

variable {b : AudioBuffer} {c : ProcessCall}

@[simp] theorem length_raw_put (b : AudioBuffer) (s : BufferStore) :
    (b.put s).raw.length = b.raw.length := by
  cases s with
  | raw i v => exact List.length_set
  | data i v => rfl
  | pos n => rfl

@[simp] theorem length_data_put (b : AudioBuffer) (s : BufferStore) :
    (b.put s).data.length = b.data.length := by
  cases s with
  | raw i v => rfl
  | data i v => exact List.length_set
  | pos n => rfl

/-- No store moves the ends of the arrays. -/
theorem inRange_foldl_put (b : AudioBuffer) (stores : List BufferStore) (s : BufferStore) :
    (stores.foldl put b).InRange s ↔ b.InRange s := by
  induction stores generalizing b with
  | nil => exact Iff.rfl
  | cons s' stores ih =>
    rw [List.foldl_cons, ih]
    cases s <;> simp only [InRange, length_raw_put, length_data_put]

theorem inRange_storesFrom {raw data : Block} {i : ℕ} (hraw : i + raw.length ≤ b.raw.length)
    (hdata : i + raw.length ≤ b.data.length) : ∀ s ∈ storesFrom i raw data, b.InRange s := by
  induction raw generalizing data i with
  | nil =>
    intro s hs
    simp [storesFrom] at hs
  | cons r raw ih =>
    cases data with
    | nil =>
      intro s hs
      simp [storesFrom] at hs
    | cons d data =>
      rw [List.length_cons] at hraw hdata
      intro s hs
      rw [storesFrom, List.mem_cons, List.mem_cons] at hs
      rcases hs with rfl | rfl | hs
      · change i < b.raw.length
        omega
      · change i < b.data.length
        omega
      · exact ih (by omega) (by omega) s hs

/-- The stores of a block that fits are in range. -/
theorem Fits.inRange (h : b.Fits c) : ∀ s ∈ c.stores, b.InRange s := by
  intro s hs
  rcases List.mem_append.mp hs with hs | hs
  · exact inRange_storesFrom (by rw [Nat.zero_add]; exact h.1) (by rw [Nat.zero_add]; exact h.2) s hs
  · rw [List.mem_singleton.mp hs]
    trivial

theorem set_append_cons {α : Type*} (pre : List α) (v w : α) (old : List α) :
    (pre ++ w :: old).set pre.length v = (pre ++ [v]) ++ old := by
  rw [List.set_append_right _ _ le_rfl, Nat.sub_self, List.set_cons_zero, List.append_assoc]
  rfl

theorem overwrite_cons (v w : ℚ) (new old : Block) :
    overwrite (v :: new) (w :: old) = v :: overwrite new old := rfl

theorem foldl_storesFrom {raw data : Block} (h : data.length = raw.length) (n : ℕ)
    (preRaw preData : Block) (hpre : preData.length = preRaw.length) (oldRaw oldData : Block)
    (hraw : raw.length ≤ oldRaw.length) (hdata : raw.length ≤ oldData.length) :
    (storesFrom preRaw.length raw data).foldl put ⟨n, preData ++ oldData, preRaw ++ oldRaw⟩ =
      ⟨n, preData ++ overwrite data oldData, preRaw ++ overwrite raw oldRaw⟩ := by
  induction raw generalizing data preRaw preData oldRaw oldData with
  | nil =>
    obtain rfl : data = [] := List.length_eq_zero_iff.mp h
    rfl
  | cons r raw ih =>
    obtain ⟨d, data, rfl⟩ := List.exists_cons_of_length_eq_add_one h
    obtain ⟨x, oldRaw, rfl⟩ := List.exists_cons_of_length_pos (Nat.zero_lt_of_lt hraw)
    obtain ⟨y, oldData, rfl⟩ := List.exists_cons_of_length_pos (Nat.zero_lt_of_lt hdata)
    have hnext : preRaw.length + 1 = (preRaw ++ [r]).length := by
      rw [List.length_append, List.length_singleton]
    have hstored : (preData ++ y :: oldData).set preRaw.length d = (preData ++ [d]) ++ oldData := by
      rw [← hpre, set_append_cons]
    rw [storesFrom, List.foldl_cons, List.foldl_cons]
    simp only [put, set_append_cons, hstored]
    rw [hnext, ih (Nat.succ.inj h) _ _ (by rw [List.length_append, List.length_append, hpre]; rfl) _ _
      (Nat.le_of_succ_le_succ hraw) (Nat.le_of_succ_le_succ hdata), overwrite_cons, overwrite_cons,
      List.append_assoc, List.append_assoc]
    rfl

/-- The stores of `process`, one after the other, are a fill. -/
theorem Fits.foldl_stores (h : b.Fits c) : c.stores.foldl put b = b.fill c := by
  have hloop := foldl_storesFrom c.length_eq b.pos [] [] rfl b.raw b.data h.1 h.2
  rw [ProcessCall.stores, List.foldl_append]
  exact congrArg (fun b : AudioBuffer => b.put (.pos c.raw.length)) hloop

end AudioBuffer

namespace LockFreeQueueManager

/-- After some stores of `process` to the pool buffer. -/
def written (m : LockFreeQueueManager ω) (stores : List BufferStore) : LockFreeQueueManager ω :=
  { m with
    pAudioBuffer := Function.update m.pAudioBuffer m.bufferCounter
      (stores.foldl AudioBuffer.put (m.pAudioBuffer m.bufferCounter)) }

theorem written_nil (m : LockFreeQueueManager ω) : m.written [] = m := by
  rw [written, List.foldl_nil, Function.update_eq_self]

theorem written_buffer (m : LockFreeQueueManager ω) (stores : List BufferStore) :
    (m.written stores).pAudioBuffer m.bufferCounter =
      stores.foldl AudioBuffer.put (m.pAudioBuffer m.bufferCounter) := Function.update_self ..

theorem written_concat (m : LockFreeQueueManager ω) (stores : List BufferStore)
    (store : BufferStore) :
    m.written (stores ++ [store]) = { m.written stores with
      pAudioBuffer := Function.update (m.written stores).pAudioBuffer m.bufferCounter
        (((m.written stores).pAudioBuffer m.bufferCounter).put store) } := by
  simp only [written, Function.update_self, Function.update_idem, List.foldl_append,
    List.foldl_cons, List.foldl_nil]

end LockFreeQueueManager

/-- The call of `process` that is on its way. -/
def AudioPoint.call : AudioPoint → Option ProcessCall
  | .idle => none
  | .filling c _ => some c
  | .storing c => some c
  | .advancing c => some c

/-- The memory in the middle of a call of `process`, from that in front of it. -/
def AudioPoint.memory (m : LockFreeQueueManager ω) : AudioPoint → LockFreeQueueManager ω
  | .idle => m
  | .filling c n => m.written (c.stores.take n)
  | .storing c => m.written c.stores
  | .advancing c =>
    { m.written c.stores with lockFreeQueue := m.lockFreeQueue.storeSlot m.bufferCounter }

/-- What `main` knows of the queue in the middle of a `pop`. -/
def MainPoint.At (t : Trace ω) : MainPoint → Prop
  | .idle => True
  | .loading => t.manager.popped = none ∧ t.pops < t.pushed.length
  | .advancing b =>
    t.manager.popped = none ∧ t.pops < t.pushed.length ∧ b = t.pops % SPARE_BUFFERS

theorem MainPoint.At.push {p : MainPoint} {t : Trace ω} (h : p.At t) (t' : Trace ω)
    (hpopped : t'.manager.popped = t.manager.popped) (hpops : t'.pops = t.pops)
    (hle : t.pushed.length ≤ t'.pushed.length) : p.At t' := by
  cases p with
  | idle => trivial
  | loading => exact ⟨hpopped.trans h.1, by rw [hpops]; exact h.2.trans_le hle⟩
  | advancing b =>
    exact ⟨hpopped.trans h.1, by rw [hpops]; exact h.2.1.trans_le hle, by rw [hpops]; exact h.2.2⟩

/-- While a call of a function is due, `main` is not in a `pop`. -/
theorem MainPoint.At.eq_idle {p : MainPoint} {t : Trace ω} {r : ℕ × ℕ} (h : p.At t)
    (hp : t.manager.popped = some r) : p = .idle := by
  cases p with
  | idle => rfl
  | loading =>
    have hnone := h.1
    rw [hp] at hnone
    cases hnone
  | advancing b =>
    have hnone := h.1
    rw [hp] at hnone
    cases hnone

namespace AudioThreads

/-- The two threads stand at `t`: a call of `process` on its way is not counted yet, and a `pop` on
its way is not either. -/
structure Refines (m : ℕ) (s : AudioThreads ω) (t : Trace ω) : Prop where
  inv : t.Inv m m
  trace : s.trace = { t with manager := s.audio.memory t.manager }
  room : ∀ c ∈ s.audio.call, t.Room m (.process c)
  main : s.main.At t

section Steps

variable {functions : List (AudioBuffer → ω → ω)} {m : ℕ} {s : AudioThreads ω} {t : Trace ω}

@[simp] theorem memory_popped (a : AudioPoint) (m : LockFreeQueueManager ω) :
    (a.memory m).popped = m.popped := by cases a <;> rfl

@[simp] theorem memory_outside (a : AudioPoint) (m : LockFreeQueueManager ω) :
    (a.memory m).outside = m.outside := by cases a <;> rfl

@[simp] theorem memory_size (a : AudioPoint) (m : LockFreeQueueManager ω) :
    (a.memory m).lockFreeQueue.size = m.lockFreeQueue.size := by cases a <;> rfl

@[simp] theorem memory_isEmpty (a : AudioPoint) (m : LockFreeQueueManager ω) :
    (a.memory m).lockFreeQueue.isEmpty = m.lockFreeQueue.isEmpty := by cases a <;> rfl

/-- What a call of a function changes. -/
theorem memory_called (a : AudioPoint) (m : LockFreeQueueManager ω) (outside : ω)
    (popped : Option (ℕ × ℕ)) :
    a.memory { m with outside := outside, popped := popped } =
      { a.memory m with outside := outside, popped := popped } := by cases a <;> rfl

/-- What the end of a `pop` changes. -/
theorem memory_advanceRead (a : AudioPoint) (m : LockFreeQueueManager ω)
    (popped : Option (ℕ × ℕ)) :
    a.memory { m with lockFreeQueue := m.lockFreeQueue.advanceRead, popped := popped } =
      { a.memory m with
        lockFreeQueue := (a.memory m).lockFreeQueue.advanceRead, popped := popped } := by
  cases a <;> rfl

/-- `process` only writes to its own pool buffer. -/
theorem memory_buffer (a : AudioPoint) {m : LockFreeQueueManager ω} {b : ℕ}
    (h : ∀ c ∈ a.call, b ≠ m.bufferCounter) : (a.memory m).pAudioBuffer b = m.pAudioBuffer b := by
  cases a with
  | idle => rfl
  | filling c n => exact Function.update_of_ne (h c rfl) _ _
  | storing c => exact Function.update_of_ne (h c rfl) _ _
  | advancing c => exact Function.update_of_ne (h c rfl) _ _

/-- The buffer that `main` holds is not the one that `process` fills. -/
theorem Refines.held_buffer (h : s.Refines m t) {b i : ℕ} (hp : t.manager.popped = some (b, i)) :
    s.trace.manager.pAudioBuffer b = t.manager.pAudioBuffer b := by
  obtain ⟨d, hd, rfl, hi, -⟩ := h.inv.busy b i hp
  have hheld : t.held m = 1 := by
    rw [Trace.held, hp, Trace.heldFor, if_pos hi]
  rw [h.trace]
  apply memory_buffer
  intro c hc
  obtain ⟨hroom, -⟩ := h.room c hc
  have hle := h.inv.popped_le
  rw [h.inv.queued_eq, hheld] at hroom
  rw [h.inv.counter]
  exact Trace.mod_ne_of_lt (by omega) (by omega)

/-- The queue in front of a `pop`. -/
theorem ring_cons (h : t.Inv m m) (hlt : t.pops < t.pushed.length) :
    t.manager.lockFreeQueue.Represents t.pops (t.pops % SPARE_BUFFERS ::
      (List.range' (t.pops + 1) (t.pushed.length - t.pops - 1)).map (· % SPARE_BUFFERS)) := by
  have hring := h.ring
  rwa [← Nat.sub_add_cancel (show 1 ≤ t.pushed.length - t.pops by omega), List.range'_succ,
    List.map_cons] at hring

theorem Refines.loadSlot (h : s.Refines m t) (hlt : t.pops < t.pushed.length) :
    s.trace.manager.lockFreeQueue.loadSlot = t.pops % SPARE_BUFFERS := by
  have hring := ring_cons h.inv hlt
  have hsame : t.manager.lockFreeQueue.loadSlot = t.pops % SPARE_BUFFERS :=
    hring.loadSlot (by decide)
  rw [h.trace]
  cases ha : s.audio with
  | idle => exact hsame
  | filling c n => exact hsame
  | storing c => exact hsame
  | advancing c =>
    refine hring.loadSlot_storeSlot (by decide) ?_ _
    obtain ⟨hroom, -⟩ := h.room c (by rw [ha]; rfl)
    rw [h.inv.queued_eq] at hroom
    rw [List.length_cons, List.length_map, List.length_range', Nat.sub_add_cancel (by omega)]
    exact Nat.lt_of_le_of_lt (Nat.le_add_right _ _) hroom

theorem Refines.not_full (h : s.Refines m t) {c : ProcessCall} (hc : c ∈ s.audio.call) :
    ¬ t.manager.lockFreeQueue.isFull = true := by
  obtain ⟨hroom, -⟩ := h.room c hc
  rw [h.inv.queued_eq] at hroom
  rw [h.inv.ring.isFull_iff (by decide), List.length_map, List.length_range']
  exact (Nat.lt_of_le_of_lt (Nat.le_add_right _ _) hroom).ne

theorem Refines.isEmpty_iff (h : s.Refines m t) :
    s.trace.manager.lockFreeQueue.isEmpty = true ↔ t.pushed.length ≤ t.pops := by
  rw [h.trace]
  simp only [memory_isEmpty]
  rw [h.inv.ring.isEmpty_iff (by decide), ← List.length_eq_zero_iff, List.length_map,
    List.length_range']
  exact Nat.sub_eq_zero_iff_le

/-- The buffer that `process` fills has room for its block, from the first store to the last. -/
theorem Refines.fits (h : s.Refines m t) {c : ProcessCall} (hc : c ∈ s.audio.call) :
    (t.manager.pAudioBuffer t.manager.bufferCounter).Fits c :=
  ((h.inv.sized _).fits_iff c).mpr (h.room c hc).2

/-- An access of the audio thread. -/
theorem Refines.audio (h : s.Refines functions.length t) :
    ∃ s', s.stepAudio = .ok s' ∧ (s'.Refines functions.length t ∨
      ∃ c t', Trace.Room functions.length t (.process c) ∧
        t.step functions (.process c) = .ok t' ∧ s'.Refines functions.length t') := by
  obtain ⟨trace, audio, main⟩ := s
  obtain rfl : trace = { t with manager := audio.memory t.manager } := h.trace
  cases audio with
  | idle => exact ⟨_, rfl, .inl h⟩
  | filling c n =>
    have hfits := h.fits (c := c) rfl
    cases hn : c.stores[n]? with
    | some store =>
      have hnext : c.stores.take (n + 1) = c.stores.take n ++ [store] := by
        rw [List.take_add_one, hn]
        rfl
      have hrange : AudioBuffer.InRange
          ((t.manager.written (c.stores.take n)).pAudioBuffer t.manager.bufferCounter) store := by
        rw [LockFreeQueueManager.written_buffer, AudioBuffer.inRange_foldl_put]
        exact hfits.inRange store (List.mem_of_getElem? hn)
      have hstore : AudioBuffer.store
          ((t.manager.written (c.stores.take n)).pAudioBuffer t.manager.bufferCounter) store =
          .ok _ := if_pos hrange
      have hcounter : (t.manager.written (c.stores.take n)).bufferCounter =
          t.manager.bufferCounter := rfl
      refine ⟨⟨{ t with manager := t.manager.written (c.stores.take (n + 1)) },
        .filling c (n + 1), main⟩, ?_, .inl ⟨h.inv, rfl, h.room, h.main⟩⟩
      simp only [stepAudio, hn, AudioPoint.memory, hcounter, hstore, hnext,
        LockFreeQueueManager.written_concat]
      rfl
    | none =>
      have hall : c.stores.take n = c.stores :=
        List.take_of_length_le (List.getElem?_eq_none_iff.mp hn)
      have hroom : ¬ (t.manager.written (c.stores.take n)).lockFreeQueue.isFull = true :=
        h.not_full (c := c) rfl
      have hstep : stepAudio ⟨{ t with manager := t.manager.written (c.stores.take n) },
          .filling c n, main⟩ =
          .ok ⟨{ t with manager := t.manager.written (c.stores.take n) }, .storing c, main⟩ := by
        simp only [stepAudio, hn]
        rw [if_neg hroom]
      refine ⟨_, hstep, .inl ⟨h.inv, ?_, h.room, h.main⟩⟩
      simp only [AudioPoint.memory, hall]
  | storing c => exact ⟨_, rfl, .inl ⟨h.inv, rfl, h.room, h.main⟩⟩
  | advancing c =>
    have hroom := h.room c rfl
    have hprocess : t.step functions (.process c) = .ok _ ∧ _ := h.inv.process c hroom
    refine ⟨_, rfl, .inr ⟨c, _, hroom, hprocess.1, hprocess.2, ?_, fun _ hc => (by cases hc), ?_⟩⟩
    · have hfull := h.not_full (c := c) rfl
      have hfits := h.fits (c := c) rfl
      simp only [AudioPoint.memory, Trace.processed, LockFreeQueueManager.written,
        LockFreeQueueManager.nextBuffer, hfits.foldl_stores, Ring.push_of_room hfull]
    · exact h.main.push _ rfl rfl (by simp [Trace.processed])

theorem step_pop (h : t.Inv m m) (hp : t.manager.popped = none) (hlt : t.pops < t.pushed.length) :
    t.step functions .pop = .ok { t with
      manager := { t.manager with
        lockFreeQueue := t.manager.lockFreeQueue.advanceRead
        popped := if 0 < functions.length then some (t.manager.lockFreeQueue.loadSlot, 0) else none }
      pops := t.pops + 1 } := by
  have hempty : ¬ t.manager.lockFreeQueue.isEmpty = true := by
    rw [h.ring.isEmpty_iff (by decide), ← List.length_eq_zero_iff, List.length_map,
      List.length_range']
    omega
  simp only [Trace.step, LockFreeQueueManager.pop, hp, Ring.pop_of_not_empty hempty,
    Option.isSome_none, Bool.false_eq_true, if_false, Option.map_some]

theorem step_call {b i : ℕ} {f : AudioBuffer → ω → ω} (hp : t.manager.popped = some (b, i))
    (hf : functions[i]? = some f) :
    t.step functions .call = .ok { t with
      manager := { t.manager with
        outside := f (t.manager.pAudioBuffer b) t.manager.outside
        popped := if i + 1 < functions.length then some (b, i + 1) else none }
      handed := t.handed ++ [⟨t.pops - 1, i, t.manager.pAudioBuffer b⟩] } := by
  simp only [Trace.step, LockFreeQueueManager.call, hp, Option.bind_some, hf, Option.map_some]

theorem step_main {trace : Trace ω} (hp : s.trace.manager.popped.isSome = true)
    (h : s.trace.step functions .call = .ok trace) :
    s.step functions .main = .ok { s with trace := trace } := by
  rw [AudioThreads.step, if_pos hp, h]
  rfl

/-- An access of `main`'s `pop`. -/
theorem Refines.pop (h : s.Refines functions.length t) (hp : t.manager.popped = none) :
    (s.stepPop functions).Refines functions.length t ∨
      ∃ t', t.step functions .pop = .ok t' ∧
        (s.stepPop functions).Refines functions.length t' := by
  cases hmain : s.main with
  | idle =>
    refine .inl ?_
    by_cases hempty : s.trace.manager.lockFreeQueue.isEmpty = true
    · rw [stepPop]
      simp only [hmain, hempty, if_true]
      exact h
    · have hlt : t.pops < t.pushed.length := Nat.lt_of_not_le (mt h.isEmpty_iff.mpr hempty)
      rw [stepPop]
      simp only [hmain, hempty]
      exact ⟨h.inv, h.trace, h.room, hp, hlt⟩
  | loading =>
    obtain ⟨-, hlt⟩ : MainPoint.At t .loading := hmain ▸ h.main
    have hload := h.loadSlot hlt
    refine .inl ?_
    rw [stepPop]
    simp only [hmain, hload]
    exact ⟨h.inv, h.trace, h.room, hp, hlt, rfl⟩
  | advancing b =>
    obtain ⟨-, hlt, rfl⟩ : MainPoint.At t (.advancing b) := hmain ▸ h.main
    have hfront := (ring_cons h.inv hlt).loadSlot (by decide)
    have hstep : t.step functions .pop = _ := step_pop h.inv hp hlt
    obtain ⟨t', ht', hinv⟩ := h.inv.pop
    rw [hstep, Except.ok.injEq] at ht'
    subst ht'
    refine .inr ⟨_, hstep, ?_⟩
    rw [stepPop]
    simp only [hmain]
    refine ⟨hinv, ?_, fun c hc => ?_, trivial⟩
    · rw [h.trace, memory_advanceRead, hfront]
    · obtain ⟨hroom, hsize⟩ := h.room c hc
      refine ⟨?_, hsize⟩
      have hle := h.inv.popped_le
      have hone := Trace.heldFor_le_one functions.length (if 0 < functions.length then
        some (t.manager.lockFreeQueue.loadSlot, 0) else none)
      rw [h.inv.queued_eq] at hroom
      rw [hinv.queued_eq, Trace.held]
      dsimp only
      omega

/-- The next call of a function. -/
theorem Refines.call (h : s.Refines functions.length t) {b i : ℕ}
    (hp : t.manager.popped = some (b, i)) :
    ∃ s' t', s.step functions .main = .ok s' ∧ t.step functions .call = .ok t' ∧
      s'.Refines functions.length t' := by
  obtain ⟨d, -, -, hi, -⟩ := h.inv.busy b i hp
  have hf : functions[i]? = some (functions.get ⟨i, hi⟩) := List.getElem?_eq_getElem hi
  have hstep : t.step functions .call = _ := step_call hp hf
  obtain ⟨t', ht', hinv⟩ := h.inv.call
  rw [hstep, Except.ok.injEq] at ht'
  subst ht'
  have hheld := h.held_buffer hp
  have hmain := h.main.eq_idle hp
  obtain ⟨trace, audio, main⟩ := s
  obtain rfl : trace = { t with manager := audio.memory t.manager } := h.trace
  subst hmain
  have hpopped : (audio.memory t.manager).popped = some (b, i) := (memory_popped _ _).trans hp
  have hcall := step_call (t := { t with manager := audio.memory t.manager }) hpopped hf
  dsimp only at hheld hcall
  rw [hheld, memory_outside, ← memory_called] at hcall
  refine ⟨_, _, step_main (by rw [hpopped]; rfl) hcall, hstep, hinv, rfl, fun c hc => ?_, trivial⟩
  obtain ⟨hroom, hsize⟩ := h.room c hc
  have hnext := Trace.heldFor_next_le functions.length functions.length b i
  rw [Trace.held, hp] at hroom
  exact ⟨Nat.lt_of_le_of_lt (Nat.add_le_add_left hnext _) hroom, hsize⟩

/-- Every access is invisible, or the end of a call of `process` or of `pop`, or a function's call. -/
theorem Refines.step (h : s.Refines functions.length t) {a : AccessStep}
    (ha : Room functions.length s a) :
    ∃ s', s.step functions a = .ok s' ∧ (s'.Refines functions.length t ∨
      ∃ b t', Trace.Room functions.length t b ∧ t.step functions b = .ok t' ∧
        s'.Refines functions.length t') := by
  cases a with
  | process c =>
    rw [AudioThreads.step]
    cases haudio : s.audio with
    | idle =>
      refine ⟨_, rfl, .inl ⟨h.inv, ?_, fun c' hc' => ?_, h.main⟩⟩
      · rw [h.trace, haudio]
        simp only [AudioPoint.memory, List.take_zero, LockFreeQueueManager.written_nil]
      · cases hc'
        have hroom : s.trace.Room functions.length (.process c) := ha
        rw [h.trace, haudio] at hroom
        exact hroom
    | filling => exact ⟨s, rfl, .inl h⟩
    | storing => exact ⟨s, rfl, .inl h⟩
    | advancing => exact ⟨s, rfl, .inl h⟩
  | audio =>
    obtain ⟨s', hs', hrefines⟩ := h.audio
    refine ⟨s', hs', hrefines.imp id ?_⟩
    rintro ⟨c, t', hroom, ht', hrefines⟩
    exact ⟨_, t', hroom, ht', hrefines⟩
  | main =>
    have hpopped : s.trace.manager.popped = t.manager.popped := by
      rw [h.trace]
      exact memory_popped _ _
    cases hp : t.manager.popped with
    | none =>
      refine ⟨_, if_neg (by rw [hpopped, hp]; simp), (h.pop hp).imp id ?_⟩
      rintro ⟨t', ht', hrefines⟩
      exact ⟨.pop, t', trivial, ht', hrefines⟩
    | some r =>
      obtain ⟨s', t', hs', ht', hrefines⟩ := h.call hp
      exact ⟨s', hs', .inr ⟨.call, t', trivial, ht', hrefines⟩⟩

end Steps

theorem refines_start (bufferSize : ℕ) (memory : ℕ → ℕ → ℚ) (outside : ω) (m : ℕ) :
    (start bufferSize memory outside).Refines m
      { manager := .init bufferSize memory outside } where
  inv := Trace.inv_init bufferSize memory outside m m
  trace := rfl
  room _ hc := by cases hc
  main := trivial

theorem Refines.steady {m : ℕ} {s : AudioThreads ω} {t : Trace ω} (h : s.Refines m t) :
    s.Steady := by
  intro b i hp
  have hp' : t.manager.popped = some (b, i) := by
    rw [← hp, h.trace]
    exact (memory_popped _ _).symm
  obtain ⟨d, hd, hb, hi, -⟩ := h.inv.busy b i hp'
  have hheld : t.held m = 1 := by
    rw [Trace.held, hp', Trace.heldFor, if_pos hi]
  have hlt : d < t.pushed.length := by
    have hle := h.inv.popped_le
    omega
  rw [h.held_buffer hp', h.trace, hd, Nat.add_sub_cancel, hb]
  exact ⟨_, List.getElem?_eq_getElem hlt,
    h.inv.buffers d _ (by omega) (List.getElem?_eq_getElem hlt)⟩

theorem Refines.sameOutcome {m : ℕ} {s : AudioThreads ω} {t : Trace ω} (h : s.Refines m t) :
    s.SameOutcome t where
  pushed := by rw [h.trace]
  pops := by rw [h.trace]
  handed := by rw [h.trace]
  outside := by rw [h.trace, memory_outside]
  memory hidle := by rw [h.trace, hidle, AudioPoint.memory]

theorem Refines.delivered {m : ℕ} {s : AudioThreads ω} {t : Trace ω} (h : s.Refines m t) :
    s.trace.Delivered m := by
  obtain ⟨hintact, horder, hcomplete, hpending⟩ := h.inv.delivered
  rw [h.trace]
  refine ⟨hintact, horder, ?_, ?_⟩
  · simpa only [Trace.due, memory_popped] using hcomplete
  · simpa only [Trace.queued, memory_size] using hpending

/-- In whatever order the accesses of the two threads come, a pool buffer being free whenever
`process` begins and no block being longer than a pool buffer: no access is outside the arrays, the
outcome is that of a run of whole calls, every block reaches every function as it was played, and the
buffer that `main` holds does not change while it is held. -/
theorem accesses_refine_calls (functions : List (AudioBuffer → ω → ω)) (bufferSize : ℕ)
    (memory : ℕ → ℕ → ℚ) (outside : ω) {steps : List AccessStep}
    (h : Admits (step functions) (Room functions.length) (start bufferSize memory outside) steps) :
    ∃ s calls t, run (step functions) (start bufferSize memory outside) steps = .ok s ∧
      Admits (Trace.step functions) (Trace.Room functions.length)
        { manager := .init bufferSize memory outside } calls ∧
      run (Trace.step functions) { manager := .init bufferSize memory outside } calls = .ok t ∧
      s.SameOutcome t ∧ s.trace.Delivered functions.length ∧ s.Steady := by
  have hstep (s : AudioThreads ω) (t : Trace ω) (a : AccessStep)
      (hR : s.Refines functions.length t) (ha : Room functions.length s a) := hR.step ha
  obtain ⟨s, calls, t, hs, hadmits, ht, hrefines⟩ :=
    simulates hstep (refines_start bufferSize memory outside functions.length) h
  exact ⟨s, calls, t, hs, hadmits, ht, hrefines.sameOutcome, hrefines.delivered, hrefines.steady⟩

/-- The second block is being copied while `main` takes the first. -/
def overlappingSteps : List AccessStep :=
  .process ⟨[1], [2], rfl⟩ :: List.replicate 6 .audio ++
    [.process ⟨[3], [4], rfl⟩, .audio, .main, .audio, .main, .audio, .main, .audio, .main, .audio,
      .main]

theorem accesses_refine_calls_overlapping :
    ∃ s calls t,
      run (step Trace.twoFunctions) (start 1 (fun _ _ => 0) ()) overlappingSteps = .ok s ∧
      Admits (Trace.step Trace.twoFunctions) (Trace.Room 2)
        { manager := .init 1 (fun _ _ => 0) () } calls ∧
      run (Trace.step Trace.twoFunctions) { manager := .init 1 (fun _ _ => 0) () } calls = .ok t ∧
      s.SameOutcome t ∧ s.trace.Delivered 2 ∧ s.Steady :=
  accesses_refine_calls Trace.twoFunctions 1 (fun _ _ => 0) () (by decide +kernel)

end AudioThreads

end AmpRack

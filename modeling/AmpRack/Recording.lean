import AmpRack.AudioQueue

/-!
# Recording

`Engine::startRecording` opens a file and switches `FileWriter::ready` on, `stopRecording` switches
it off; the writer thread consults the switch only when it gets to a block. A `Session` runs the
queue under these two operations and keeps the blocks that were played during each recording.

The file has what was played when every block of a recording has been written before the recording
stops, and no earlier block is still to be written while it runs.
-/

namespace AmpRack

open GuardedRun

/-- `recordings` are the blocks handed to the encoder of each recording, last recording first. -/
structure FileWriter where
  ready : Bool := false
  recordings : List (List Block) := []

def appendToHead {α : Type*} (x : α) : List (List α) → List (List α)
  | [] => []
  | r :: rs => (r ++ [x]) :: rs

namespace FileWriter

/-- Every file type hands the first `pos` samples to its encoder. -/
def diskWrite (buffer : AudioBuffer) (f : FileWriter) : FileWriter :=
  if !f.ready || buffer.pos == 0 then f
  else { f with recordings := appendToHead (buffer.data.take buffer.pos) f.recordings }

def startRecording (f : FileWriter) : FileWriter where
  ready := true
  recordings := [] :: f.recordings

def stopRecording (f : FileWriter) : FileWriter := { f with ready := false }

end FileWriter

theorem FileWriter.diskWrite_of_holds {b : AudioBuffer} {c : ProcessCall} (h : b.Holds c)
    (f : FileWriter) :
    diskWrite b f =
      if f.ready = true ∧ c.data ≠ [] then
        { f with recordings := appendToHead c.data f.recordings }
      else f := by
  have hpos : b.pos = c.data.length := h.pos.trans c.length_eq.symm
  have hzero : (b.pos == 0) = decide (c.data = []) := by
    rw [hpos]
    cases c.data <;> rfl
  have hdata := h.data
  by_cases hr : f.ready = true
  · by_cases hc : c.data = []
    · simp [diskWrite, hzero, hr, hc]
    · simp [diskWrite, hzero, hdata, hr, hc]
  · simp [diskWrite, hr]

/-- `Engine::check_notify` does not touch the file. -/
def checkNotify (_ : AudioBuffer) (f : FileWriter) : FileWriter := f

def recorderFunctions : List (AudioBuffer → FileWriter → FileWriter) :=
  [FileWriter.diskWrite, checkNotify]

/-- `played` are the blocks processed during each recording, last recording first, and `since` is
how many blocks had been queued when the last recording started. -/
structure Session where
  trace : Trace FileWriter
  played : List (List Block) := []
  since : ℕ := 0

inductive SessionStep
  | queue (a : QueueStep)
  | startRecording
  | stopRecording

namespace Session

def writer (s : Session) : FileWriter := s.trace.manager.outside

def setWriter (s : Session) (f : FileWriter) : Session :=
  { s with trace := { s.trace with manager := { s.trace.manager with outside := f } } }

def play (s : Session) : QueueStep → List (List Block)
  | .process c => if s.writer.ready then appendToHead c.data s.played else s.played
  | _ => s.played

def step (s : Session) : SessionStep → Except Fault Session
  | .queue a => (s.trace.step recorderFunctions a).map fun t =>
      { s with trace := t, played := s.play a }
  | .startRecording => .ok { s.setWriter s.writer.startRecording with
      played := [] :: s.played, since := s.trace.pushed.length }
  | .stopRecording => .ok (s.setWriter s.writer.stopRecording)

def init (bufferSize : ℕ) (memory : ℕ → ℕ → ℚ) : Session :=
  { trace := { manager := .init bufferSize memory {} } }

/-- Finished recordings have exactly the blocks played, the running one a prefix of them. -/
def Exact (s : Session) : Prop :=
  if s.writer.ready then
    ∃ written played rest, s.writer.recordings = written :: rest ∧ s.played = played :: rest ∧
      written <+: played
  else s.writer.recordings = s.played

/-- How many blocks `disk_write` has been called with. -/
def passed (t : Trace FileWriter) : ℕ := t.pops - t.held 1

/-- Recordings alternate; the pool has room for a block and the blocks have samples; `disk_write` meets
no block from before the recording that is running, and a recording stops after its last block. -/
def Drained (s : Session) : SessionStep → Prop
  | .queue (.process c) =>
    s.trace.Room 1 (.process c) ∧ (s.writer.ready = true → c.data ≠ [])
  | .queue .pop => True
  | .queue .call =>
    s.writer.ready = true → s.trace.held 1 = 1 →
      s.since ≤ passed s.trace ∨ ∀ c ∈ s.trace.pushed[passed s.trace]?, c.data = []
  | .startRecording => s.writer.ready = false
  | .stopRecording =>
    s.writer.ready = true ∧
      (s.trace.pushed.length ≤ passed s.trace ∨ s.trace.pushed.length ≤ s.since)

def blocks (cs : List ProcessCall) : List Block := cs.map (·.data)

/-- While recording, the file has the blocks of the recording that `disk_write` has got to. -/
structure Running (s : Session) : Prop where
  since_le : s.since ≤ s.trace.pushed.length
  nonempty : ∀ c ∈ s.trace.pushed.drop s.since, c.data ≠ []
  files : ∃ rest,
    s.writer.recordings = blocks ((s.trace.pushed.take (passed s.trace)).drop s.since) :: rest ∧
    s.played = blocks (s.trace.pushed.drop s.since) :: rest

structure Inv (s : Session) : Prop where
  trace : s.trace.Inv 1 recorderFunctions.length
  running : s.writer.ready = true → s.Running
  stopped : s.writer.ready = false → s.writer.recordings = s.played

theorem Inv.exact {s : Session} (h : s.Inv) : s.Exact := by
  cases hr : s.writer.ready with
  | true =>
    obtain ⟨rest, hrec, hplayed⟩ := (h.running hr).files
    rw [Exact, if_pos hr]
    refine ⟨_, _, rest, hrec, hplayed, ?_⟩
    exact ((List.take_prefix _ _).drop _).map _
  | false =>
    rw [Exact, if_neg (by rw [hr]; exact Bool.false_ne_true)]
    exact h.stopped hr

theorem inv_init (bufferSize : ℕ) (memory : ℕ → ℕ → ℚ) : (init bufferSize memory).Inv where
  trace := Trace.inv_init bufferSize memory ({} : FileWriter) _ _
  running := fun h => by cases h
  stopped := fun _ => rfl

variable {s : Session}

theorem passed_le (h : s.Inv) : passed s.trace ≤ s.trace.pushed.length :=
  (Nat.sub_le _ _).trans h.trace.popped_le

/-- A step that neither pushes nor writes keeps the invariant. -/
theorem Inv.of_idle (h : s.Inv) {t : Trace FileWriter} (ht : t.Inv 1 recorderFunctions.length)
    (hpushed : t.pushed = s.trace.pushed) (hpassed : passed t = passed s.trace)
    (houtside : t.manager.outside = s.writer) : Inv { s with trace := t } where
  trace := ht
  running := fun hr => by
    have hrun := h.running (by rw [← houtside]; exact hr)
    refine ⟨?_, ?_, ?_⟩
    · change s.since ≤ t.pushed.length
      rw [hpushed]
      exact hrun.since_le
    · change ∀ c ∈ t.pushed.drop s.since, c.data ≠ []
      rw [hpushed]
      exact hrun.nonempty
    · change ∃ rest, t.manager.outside.recordings =
          blocks ((t.pushed.take (passed t)).drop s.since) :: rest ∧
        s.played = blocks (t.pushed.drop s.since) :: rest
      rw [hpushed, hpassed, houtside]
      exact hrun.files
  stopped := fun hr => by
    change t.manager.outside.recordings = s.played
    rw [houtside]
    exact h.stopped (by rw [← houtside]; exact hr)

theorem Inv.process (h : s.Inv) (c : ProcessCall) (hg : Drained s (.queue (.process c))) :
    ∃ s', s.step (.queue (.process c)) = .ok s' ∧ s'.Inv := by
  obtain ⟨ht, hinv⟩ := h.trace.process c hg.1
  refine ⟨_, by rw [step, ht]; rfl, hinv, fun hr => ?_, fun hr => ?_⟩
  · have hrun := h.running hr
    obtain ⟨rest, hrec, hplayed⟩ := hrun.files
    have hdrop : (s.trace.pushed ++ [c]).drop s.since = s.trace.pushed.drop s.since ++ [c] :=
      List.drop_append_of_le_length hrun.since_le
    refine ⟨?_, ?_, rest, ?_, ?_⟩
    · change s.since ≤ (s.trace.pushed ++ [c]).length
      rw [List.length_append]
      exact hrun.since_le.trans (Nat.le_add_right _ _)
    · change ∀ c' ∈ (s.trace.pushed ++ [c]).drop s.since, c'.data ≠ []
      rw [hdrop]
      intro c' hc'
      rcases List.mem_append.mp hc' with hc' | hc'
      · exact hrun.nonempty c' hc'
      · rw [List.mem_singleton.mp hc']
        exact hg.2 hr
    · change s.writer.recordings =
        blocks (((s.trace.pushed ++ [c]).take (passed s.trace)).drop s.since) :: rest
      rw [List.take_append_of_le_length (passed_le h)]
      exact hrec
    · change s.play (.process c) = blocks ((s.trace.pushed ++ [c]).drop s.since) :: rest
      have hready : s.writer.ready = true := hr
      rw [hdrop, play, if_pos hready, hplayed, blocks, blocks, List.map_append]
      rfl
  · have hready : s.writer.ready = false := hr
    change s.writer.recordings = s.play (.process c)
    rw [play, hready, if_neg Bool.false_ne_true]
    exact h.stopped hready

theorem Inv.pop (h : s.Inv) : ∃ s', s.step (.queue .pop) = .ok s' ∧ s'.Inv := by
  obtain ⟨t, ht, hinv⟩ := h.trace.pop
  refine ⟨{ s with trace := t }, by rw [step, ht]; rfl, ?_⟩
  simp only [Trace.step, LockFreeQueueManager.pop] at ht
  cases hp : s.trace.manager.popped with
  | some r =>
    simp only [hp, Option.isSome_some, if_true, Except.ok.injEq] at ht
    exact h.of_idle hinv (by rw [← ht]) (by rw [← ht]) (by rw [← ht]; rfl)
  | none =>
    cases hq : s.trace.manager.lockFreeQueue.pop with
    | none =>
      simp only [hp, hq, Option.isSome_none, Bool.false_eq_true, if_false, Option.map_none,
        Except.ok.injEq] at ht
      exact h.of_idle hinv (by rw [← ht]) (by rw [← ht]) (by rw [← ht]; rfl)
    | some r =>
      simp only [hp, hq, Option.isSome_none, Bool.false_eq_true, if_false, Option.map_some,
        Except.ok.injEq] at ht
      refine h.of_idle hinv (by rw [← ht]) ?_ (by rw [← ht]; rfl)
      rw [← ht, passed, passed, Trace.held, Trace.held, hp]
      rfl

/-- `disk_write` gets to the block after those it has passed. -/
theorem Inv.write (h : s.Inv) {b : ℕ} (hp : s.trace.manager.popped = some (b, 0))
    (hg : Drained s (.queue .call)) {t : Trace FileWriter}
    (ht : t.Inv 1 recorderFunctions.length) (hpushed : t.pushed = s.trace.pushed)
    (hpops : t.pops = s.trace.pops) (hnext : t.manager.popped = some (b, 1))
    (houtside : t.manager.outside =
      FileWriter.diskWrite (s.trace.manager.pAudioBuffer b) s.writer) :
    Inv { s with trace := t } := by
  obtain ⟨d, hd, hb, -, -⟩ := h.trace.busy b 0 hp
  have hheld : s.trace.held 1 = 1 := by rw [Trace.held, hp]; rfl
  have hpassed : passed s.trace = d := by rw [passed, hheld, hd, Nat.add_sub_cancel]
  have hpassed' : passed t = d + 1 := by rw [passed, Trace.held, hnext, hpops, hd]; rfl
  have hdlt : d < s.trace.pushed.length := by have := h.trace.popped_le; omega
  have hget : s.trace.pushed[d]? = some s.trace.pushed[d] := List.getElem?_eq_getElem hdlt
  have hholds : (s.trace.manager.pAudioBuffer b).Holds s.trace.pushed[d] := by
    rw [hb]
    exact h.trace.buffers d _ (by omega) hget
  have hready : t.manager.outside.ready = s.writer.ready := by
    rw [houtside, FileWriter.diskWrite_of_holds hholds]
    split_ifs <;> rfl
  refine ⟨ht, fun hr => ?_, fun hr => ?_⟩
  · have hr' : s.writer.ready = true := hready.symm.trans hr
    have hrun := h.running hr'
    obtain ⟨rest, hrec, hplayed⟩ := hrun.files
    refine ⟨?_, ?_, rest, ?_, ?_⟩
    · change s.since ≤ t.pushed.length
      rw [hpushed]
      exact hrun.since_le
    · change ∀ c ∈ t.pushed.drop s.since, c.data ≠ []
      rw [hpushed]
      exact hrun.nonempty
    · change t.manager.outside.recordings = blocks ((t.pushed.take (passed t)).drop s.since) :: rest
      rw [hpassed] at hrec
      rw [houtside, FileWriter.diskWrite_of_holds hholds, hpushed, hpassed', List.take_add_one, hget]
      rcases Nat.lt_or_ge d s.since with hlt | hge
      · -- a block from before the recording has no samples
        have hempty : s.trace.pushed[d].data = [] := by
          rcases hg hr' hheld with hle | hall
          · omega
          · rw [hpassed] at hall
            exact hall _ hget
        have hnil : ((s.trace.pushed.take d) ++ (some s.trace.pushed[d]).toList).drop s.since =
            (s.trace.pushed.take d).drop s.since := by
          rw [List.drop_of_length_le, List.drop_of_length_le]
          · simp only [List.length_take]
            omega
          · simp only [List.length_append, List.length_take, Option.toList_some,
              List.length_singleton]
            omega
        rw [if_neg (fun hn => hn.2 hempty), hrec, hnil]
      · have hne : s.trace.pushed[d].data ≠ [] := by
          refine hrun.nonempty _ (List.mem_iff_getElem?.mpr ⟨d - s.since, ?_⟩)
          rw [List.getElem?_drop, Nat.add_sub_cancel' hge, hget]
        rw [if_pos ⟨hr', hne⟩, hrec, List.drop_append_of_le_length (by rw [List.length_take]; omega),
          blocks, blocks, List.map_append]
        rfl
    · change s.played = blocks (t.pushed.drop s.since) :: rest
      rw [hpushed]
      exact hplayed
  · have hr' : s.writer.ready = false := hready.symm.trans hr
    change t.manager.outside.recordings = s.played
    rw [houtside, FileWriter.diskWrite_of_holds hholds, hr',
      if_neg (fun hn => Bool.false_ne_true hn.1)]
    exact h.stopped hr'

theorem Inv.call (h : s.Inv) (hg : Drained s (.queue .call)) :
    ∃ s', s.step (.queue .call) = .ok s' ∧ s'.Inv := by
  obtain ⟨t, ht, hinv⟩ := h.trace.call
  refine ⟨{ s with trace := t }, by rw [step, ht]; rfl, ?_⟩
  simp only [Trace.step] at ht
  rcases hp : s.trace.manager.popped with _ | ⟨b, i⟩
  · simp only [hp, Except.ok.injEq] at ht
    exact h.of_idle hinv (by rw [← ht]) (by rw [← ht]) (by rw [← ht]; rfl)
  · obtain ⟨d, hd, hb, hi, -⟩ := h.trace.busy b i hp
    change i < 2 at hi
    obtain rfl | rfl : i = 0 ∨ i = 1 := by omega
    · simp only [hp, LockFreeQueueManager.call, recorderFunctions, Option.bind_some,
        List.getElem?_cons_zero, Option.map_some, Except.ok.injEq] at ht
      exact h.write hp hg hinv (by rw [← ht]) (by rw [← ht]) (by rw [← ht]; rfl) (by rw [← ht]; rfl)
    · simp only [hp, LockFreeQueueManager.call, recorderFunctions, Option.bind_some,
        List.getElem?_cons_succ, List.getElem?_cons_zero, Option.map_some, Except.ok.injEq] at ht
      refine h.of_idle hinv (by rw [← ht]) ?_ (by rw [← ht]; rfl)
      rw [← ht, passed, passed, Trace.held, Trace.held, hp]
      rfl

theorem Inv.start (h : s.Inv) (hg : Drained s .startRecording) :
    ∃ s', s.step .startRecording = .ok s' ∧ s'.Inv := by
  refine ⟨_, rfl, ⟨h.trace.ring, h.trace.popped_le, h.trace.sized, h.trace.counter,
    h.trace.window, h.trace.buffers, h.trace.busy, h.trace.idle, h.trace.intact, h.trace.order⟩, fun _ => ?_,
    fun hr => by cases hr⟩
  have hall : s.trace.pushed.drop s.trace.pushed.length = [] := List.drop_length
  refine ⟨le_rfl, fun c hc => ?_, s.played, ?_, ?_⟩
  · change c ∈ s.trace.pushed.drop s.trace.pushed.length at hc
    rw [hall] at hc
    cases hc
  · have hnil : (s.trace.pushed.take (passed s.trace)).drop s.trace.pushed.length = [] :=
      List.drop_of_length_le (by rw [List.length_take]; exact Nat.min_le_right _ _)
    change [] :: s.writer.recordings =
      blocks ((s.trace.pushed.take (passed s.trace)).drop s.trace.pushed.length) :: s.played
    rw [hnil, h.stopped hg]
    rfl
  · change [] :: s.played = blocks (s.trace.pushed.drop s.trace.pushed.length) :: s.played
    rw [hall]
    rfl

theorem Inv.stop (h : s.Inv) (hg : Drained s .stopRecording) :
    ∃ s', s.step .stopRecording = .ok s' ∧ s'.Inv := by
  refine ⟨_, rfl, ⟨h.trace.ring, h.trace.popped_le, h.trace.sized, h.trace.counter,
    h.trace.window, h.trace.buffers, h.trace.busy, h.trace.idle, h.trace.intact, h.trace.order⟩,
    fun hr => (by cases hr), fun _ => ?_⟩
  obtain ⟨rest, hrec, hplayed⟩ := (h.running hg.1).files
  change s.writer.recordings = s.played
  rw [hrec, hplayed]
  rcases hg.2 with hle | hle
  · rw [List.take_of_length_le hle]
  · have htake : (s.trace.pushed.take (passed s.trace)).length ≤ s.since := by
      rw [List.length_take]
      exact (Nat.min_le_right _ _).trans hle
    rw [List.drop_of_length_le htake, List.drop_of_length_le hle]

/-- Every recording of a drained run has exactly what was played between its start and its stop. -/
theorem exact_of_drained (bufferSize : ℕ) (memory : ℕ → ℕ → ℚ) {steps : List SessionStep}
    (h : Admits step Drained (init bufferSize memory) steps) :
    Always step Exact (init bufferSize memory) steps := by
  refine (always_of_admits (fun s a hs ha => ?_) (inv_init bufferSize memory) h).mono
    fun s hs => hs.exact
  cases a with
  | queue a =>
    cases a with
    | process c => exact hs.process c ha
    | pop => exact hs.pop
    | call => exact hs.call ha
  | startRecording => exact hs.start ha
  | stopRecording => exact hs.stop ha

instance (s : Session) (a : SessionStep) : Decidable (Drained s a) := by
  rcases a with (_ | _ | _) | _ | _ <;> unfold Drained <;> infer_instance

theorem exact_of_drained_one_block :
    Always step Exact (init 2 fun _ _ => 0)
      [.queue (.process ⟨[9], [9], rfl⟩), .queue .pop, .queue .call, .startRecording,
        .queue (.process ⟨[1, 2], [3, 4], rfl⟩), .queue .pop, .queue .call, .queue .call,
        .queue .pop, .queue .call, .stopRecording] :=
  exact_of_drained 2 (fun _ _ => 0) (by decide)

/-- A block still queued when recording starts gets into the file. -/
theorem early_block_recorded :
    ¬ Always step Exact (init 1 fun _ _ => 0)
      [.queue (.process ⟨[9], [9], rfl⟩), .startRecording, .queue .pop, .queue .call,
        .stopRecording] := by
  intro h
  obtain ⟨s, hs, hexact⟩ := h _ (List.prefix_refl _)
  have hrun : (run step (init 1 fun _ _ => 0)
      [.queue (.process ⟨[9], [9], rfl⟩), .startRecording, .queue .pop, .queue .call,
        .stopRecording]).map (fun s => (s.writer.ready, s.writer.recordings, s.played)) =
      .ok (false, [[[9]]], [[]]) := by decide
  rw [hs] at hrun
  injection hrun with hrun
  obtain ⟨hready, hrun⟩ := Prod.mk.inj hrun
  obtain ⟨hrecordings, hplayed⟩ := Prod.mk.inj hrun
  rw [Exact, hready, if_neg Bool.false_ne_true, hrecordings, hplayed] at hexact
  exact absurd hexact (by decide)

end Session

end AmpRack

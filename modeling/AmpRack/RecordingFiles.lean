import AmpRack.Mp3File
import AmpRack.TimeStamps

/-!
# The directory of recordings

From the audio thread to the files: `Engine::startRecording` names a file after the second that it is
called in, `disk_write` hands the blocks that come out of the queue to LAME, `stopRecording` flushes LAME
and closes the file. What `fwrite` is given is in the file when it is closed, and all files can be opened.
A `Studio` is a session with the directory beside it.
-/

namespace AmpRack

open GuardedRun

/-- LAME, with what it keeps from one block to the next. -/
structure Encoder (σ : Type*) where
  init : σ
  encode : σ → Block → σ × LameCall mp3BufferSize
  flush : σ → LameCall flushSize

variable {σ : Type*}

namespace Encoder

def write (e : Encoder σ) (r : σ × Mp3File) (block : Block) : σ × Mp3File :=
  ((e.encode r.1 block).1, r.2.encode (e.encode r.1 block).2)

def writeAll (e : Encoder σ) (blocks : List Block) : σ × Mp3File :=
  blocks.foldl e.write (e.init, {})

/-- The bytes of a file that LAME was given these blocks for. -/
def mp3 (e : Encoder σ) (blocks : List Block) : List UInt8 :=
  ((e.writeAll blocks).2.close (e.flush (e.writeAll blocks).1)).written

end Encoder

/-- `filename`, `lame` and `outputFile` are those of the last recording; `files` is what the disk has.
`began` are the times of the recordings, last recording first. -/
structure Studio (σ : Type*) where
  session : Session
  filename : List Char
  lame : σ
  outputFile : Mp3File := {}
  files : List Char → Option (List UInt8)
  began : List Tm := []

inductive StudioStep
  | queue (a : QueueStep)
  | startRecording (t : Tm)
  | stopRecording

/-- What the session makes of it. -/
def StudioStep.sessionStep : StudioStep → SessionStep
  | queue a => .queue a
  | startRecording _ => .startRecording
  | stopRecording => .stopRecording

/-- The name that `Engine::startRecording` and `setFileName` make of the time. -/
def recordingName (home : List Char) (t : Tm) : List Char :=
  home ++ '/' :: t.putTime ++ ".mp3".toList

/-- The buffer that the step calls `disk_write` with, which is the first of the functions. -/
def Session.blockWritten (s : Session) : QueueStep → Option AudioBuffer
  | .call => s.trace.manager.popped.bind fun r =>
      if r.2 = 0 then some (s.trace.manager.pAudioBuffer r.1) else none
  | _ => none

namespace Studio

def init (e : Encoder σ) (bufferSize : ℕ) (memory : ℕ → ℕ → ℚ)
    (files : List Char → Option (List UInt8)) : Studio σ where
  session := .init bufferSize memory
  filename := []
  lame := e.init
  files := files

def diskWrite (e : Encoder σ) (s : Studio σ) (buffer : AudioBuffer) : Studio σ :=
  if !s.session.writer.ready || buffer.pos == 0 then s
  else
    let r := e.write (s.lame, s.outputFile) (buffer.data.take buffer.pos)
    { s with lame := r.1, outputFile := r.2 }

/-- `fopen` leaves an empty file of the name. -/
def openFile (e : Encoder σ) (home : List Char) (s : Studio σ) (t : Tm) : Studio σ :=
  { s with
    filename := recordingName home t
    lame := e.init
    outputFile := {}
    files := Function.update s.files (recordingName home t) (some [])
    began := t :: s.began }

def closeFile (e : Encoder σ) (s : Studio σ) : Studio σ :=
  let file := s.outputFile.close (e.flush s.lame)
  { s with outputFile := file, files := Function.update s.files s.filename (some file.written) }

/-- What the step does to the files. -/
def act (e : Encoder σ) (home : List Char) (s : Studio σ) : StudioStep → Studio σ
  | .queue a => (s.session.blockWritten a).elim s (s.diskWrite e)
  | .startRecording t => s.openFile e home t
  | .stopRecording => s.closeFile e

def step (e : Encoder σ) (home : List Char) (s : Studio σ) (a : StudioStep) :
    Except Fault (Studio σ) :=
  (s.session.step a.sessionStep).map fun session => { s.act e home a with session := session }

/-- The writer thread keeps up (`Session.Drained`), and LAME has room for the blocks of a recording. -/
def PlayOk (s : Studio σ) (a : StudioStep) : Prop :=
  s.session.Drained a.sessionStep ∧
    match a with
    | .queue (.process c) => s.session.writer.ready = true → c.data.length ≤ blockSize
    | _ => True

instance (s : Studio σ) (a : StudioStep) : Decidable (s.PlayOk a) := by
  unfold PlayOk
  rcases a with (_ | _ | _) | _ | _ <;> infer_instance

end Studio

/-- The last of the recordings that began at `t`, of lists that have the last recording first. -/
def lastBegun {α : Type*} (began : List Tm) (recordings : List α) (t : Tm) : Option α :=
  ((began.zip recordings).find? fun r => r.1 = t).map (·.2)

namespace Studio

/-- The file of the second `t` is what LAME makes of the last of the recordings that began in it; with no
such recording it is as it was. -/
def Filed (e : Encoder σ) (home : List Char) (files : List Char → Option (List UInt8)) (s : Studio σ)
    (began : List Tm) (recordings : List (List Block)) (t : Tm) : Prop :=
  s.files (recordingName home t) =
    (lastBegun began recordings t).elim (files (recordingName home t)) fun blocks =>
      some (e.mp3 blocks)

/-- Between two recordings, the directory has for each second what was played during the last recording
that began in it, and all other files are as they were. -/
structure Kept (e : Encoder σ) (home : List Char) (files : List Char → Option (List UInt8))
    (s : Studio σ) : Prop where
  one_each : s.began.length = s.session.played.length
  recorded : s.session.writer.ready = false → ∀ t, s.Filed e home files s.began s.session.played t
  others : ∀ name, (∀ t, recordingName home t ≠ name) → s.files name = files name

/-- While recording, LAME and the open file have come as far as `disk_write` has, and the files of other
times are those of the recordings that are over. -/
structure Inv (e : Encoder σ) (home : List Char) (files : List Char → Option (List UInt8))
    (s : Studio σ) : Prop where
  session : s.session.Inv
  one_each : s.began.length = s.session.writer.recordings.length
  running : s.session.writer.ready = true →
    ∃ t ts blocks rest, s.began = t :: ts ∧ s.session.writer.recordings = blocks :: rest ∧
      s.filename = recordingName home t ∧ (s.lame, s.outputFile) = e.writeAll blocks ∧
      ∀ u, u ≠ t → s.Filed e home files ts rest u
  stopped : s.session.writer.ready = false →
    ∀ t, s.Filed e home files s.began s.session.writer.recordings t
  others : ∀ name, (∀ t, recordingName home t ≠ name) → s.files name = files name

end Studio

section Names

variable {home : List Char} {t u : Tm}

theorem recordingName_inj : recordingName home t = recordingName home u ↔ t = u := by
  constructor
  · intro h
    obtain ⟨hfront, -⟩ := List.append_inj' h rfl
    exact Tm.putTime_injective (List.cons.inj (List.append_cancel_left hfront)).2
  · rintro rfl
    rfl

variable {α : Type*} {began : List Tm} {recordings : List α}

theorem lastBegun_self (t : Tm) (began : List Tm) (r : α) (recordings : List α) :
    lastBegun (t :: began) (r :: recordings) t = some r := by
  rw [lastBegun, List.zip_cons_cons, List.find?_cons_of_pos (by exact decide_eq_true rfl), Option.map_some]

theorem lastBegun_of_ne (h : u ≠ t) (r : α) :
    lastBegun (t :: began) (r :: recordings) u = lastBegun began recordings u := by
  rw [lastBegun, List.zip_cons_cons, List.find?_cons_of_neg (by simpa using h.symm)]
  rfl

end Names

namespace Session

variable {s s' : Session}

theorem inv_step (h : s.Inv) (a : SessionStep) (hg : Drained s a) :
    ∃ s', s.step a = .ok s' ∧ s'.Inv := by
  cases a with
  | queue a =>
    cases a with
    | process c => exact h.process c hg
    | pop => exact h.pop
    | call => exact h.call hg
  | startRecording => exact h.start hg
  | stopRecording => exact h.stop hg

/-- A step of the queue touches the recorder only where it calls `disk_write`. -/
theorem writer_queue (a : QueueStep) (h : s.step (.queue a) = .ok s') :
    s'.writer = (s.blockWritten a).elim s.writer fun b => FileWriter.diskWrite b s.writer := by
  rw [step] at h
  cases a with
  | process c =>
    cases hprocess : s.trace.manager.process c with
    | error e =>
      rw [Trace.step, hprocess] at h
      cases h
    | ok r =>
      rw [Trace.step, hprocess] at h
      cases h
      exact LockFreeQueueManager.outside_process hprocess
  | pop =>
    cases hpop : s.trace.manager.pop recorderFunctions with
    | none =>
      simp only [Trace.step, hpop] at h
      cases h
      rfl
    | some m =>
      simp only [Trace.step, hpop] at h
      cases h
      rw [LockFreeQueueManager.pop] at hpop
      split at hpop
      · cases hpop
      · obtain ⟨r, -, rfl⟩ := Option.map_eq_some_iff.mp hpop
        rfl
  | call =>
    rw [blockWritten]
    rcases hpopped : s.trace.manager.popped with _ | ⟨b, i⟩
    · simp only [Trace.step, hpopped] at h
      cases h
      rfl
    · simp only [Trace.step, hpopped, LockFreeQueueManager.call, Option.bind_some] at h
      obtain rfl | rfl | hi : i = 0 ∨ i = 1 ∨ 2 ≤ i := by omega
      · cases h
        rfl
      · cases h
        rfl
      · have hnone : recorderFunctions[i]? = none := List.getElem?_eq_none hi
        rw [hnone] at h
        cases h
        rw [Option.bind_some, if_neg (by omega)]
        rfl

theorem length_played (h : s.Inv) : s.played.length = s.writer.recordings.length := by
  cases hr : s.writer.ready with
  | true =>
    obtain ⟨rest, hrecordings, hplayed⟩ := (h.running hr).files
    rw [hrecordings, hplayed, List.length_cons, List.length_cons]
  | false => rw [h.stopped hr]

end Session

namespace Studio

section Steps

variable {e : Encoder σ} {home : List Char} {files : List Char → Option (List UInt8)} {s : Studio σ}

theorem writeAll_concat (e : Encoder σ) (blocks : List Block) (block : Block) :
    e.writeAll (blocks ++ [block]) = e.write (e.writeAll blocks) block := by
  rw [Encoder.writeAll, List.foldl_append]
  rfl

theorem Inv.kept (h : s.Inv e home files) : s.Kept e home files where
  one_each := h.one_each.trans (Session.length_played h.session).symm
  recorded := fun hr t => by
    rw [← h.session.stopped hr]
    exact h.stopped hr t
  others := h.others

theorem inv_init (e : Encoder σ) (home : List Char) (bufferSize : ℕ) (memory : ℕ → ℕ → ℚ)
    (files : List Char → Option (List UInt8)) :
    (init e bufferSize memory files).Inv e home files where
  session := Session.inv_init bufferSize memory
  one_each := rfl
  running := fun h => by cases h
  stopped := fun _ _ => rfl
  others := fun _ _ => rfl

/-- Where neither the recorder nor the files change. -/
theorem Inv.of_session (h : s.Inv e home files) {session : Session} (hinv : session.Inv)
    (hwriter : session.writer = s.session.writer) :
    Inv e home files { s with session := session } where
  session := hinv
  one_each := by
    rw [hwriter]
    exact h.one_each
  running := by
    rw [hwriter]
    exact h.running
  stopped := by
    rw [hwriter]
    exact h.stopped
  others := h.others

theorem Inv.queue (h : s.Inv e home files) (a : QueueStep) (hg : s.PlayOk (.queue a)) :
    ∃ s', s.step e home (.queue a) = .ok s' ∧ s'.Inv e home files := by
  obtain ⟨session, hsession, hinv⟩ := Session.inv_step h.session _ hg.1
  have hwriter := Session.writer_queue a hsession
  refine ⟨_, by rw [step, hsession]; rfl, ?_⟩
  cases hb : s.session.blockWritten a with
  | none =>
    rw [hb] at hwriter
    simp only [act, hb, Option.elim_none]
    exact h.of_session hinv hwriter
  | some b =>
    rw [hb, Option.elim_some, FileWriter.diskWrite] at hwriter
    simp only [act, hb, Option.elim_some]
    rw [diskWrite]
    split_ifs at hwriter ⊢ with hskip
    · exact h.of_session hinv hwriter
    · have hready : s.session.writer.ready = true := by
        by_contra hn
        exact hskip (by simp [hn])
      obtain ⟨t, ts, blocks, rest, hbegan, hrecordings, hname, hlame, hfiled⟩ := h.running hready
      have hready' : session.writer.ready = true := by
        rw [hwriter]
        exact hready
      have hrecordings' : session.writer.recordings =
          (blocks ++ [b.data.take b.pos]) :: rest := by
        rw [hwriter, hrecordings]
        rfl
      refine ⟨hinv, ?_, fun _ => ?_, fun hstopped => ?_, h.others⟩
      · rw [hrecordings', hbegan]
        have hlength := h.one_each
        rw [hbegan, hrecordings] at hlength
        exact hlength
      · refine ⟨t, ts, _, rest, hbegan, hrecordings', hname, ?_, hfiled⟩
        rw [writeAll_concat, ← hlame]
      · rw [hready'] at hstopped
        cases hstopped

theorem Inv.startRecording (h : s.Inv e home files) (t : Tm) (hg : s.PlayOk (.startRecording t)) :
    ∃ s', s.step e home (.startRecording t) = .ok s' ∧ s'.Inv e home files := by
  obtain ⟨session, hsession, hinv⟩ := Session.inv_step h.session _ hg.1
  have hstopped : s.session.writer.ready = false := hg.1
  refine ⟨_, by rw [step, hsession]; rfl, ?_⟩
  cases hsession
  refine ⟨hinv, congrArg (· + 1) h.one_each, fun _ => ?_, fun hr => (by cases hr), fun name hname => ?_⟩
  · refine ⟨t, s.began, [], s.session.writer.recordings, rfl, rfl, rfl, rfl, fun u hu => ?_⟩
    have hne : recordingName home u ≠ recordingName home t := fun heq => hu (recordingName_inj.mp heq)
    exact (Function.update_of_ne hne _ _).trans (h.stopped hstopped u)
  · exact (Function.update_of_ne (hname t).symm _ _).trans (h.others name hname)

theorem Inv.stopRecording (h : s.Inv e home files) (hg : s.PlayOk .stopRecording) :
    ∃ s', s.step e home .stopRecording = .ok s' ∧ s'.Inv e home files := by
  obtain ⟨session, hsession, hinv⟩ := Session.inv_step h.session _ hg.1
  obtain ⟨t, ts, blocks, rest, hbegan, hrecordings, hname, hlame, hfiled⟩ := h.running hg.1.1
  obtain ⟨hstate, hfile⟩ := Prod.mk.inj hlame
  refine ⟨_, by rw [step, hsession]; rfl, ?_⟩
  cases hsession
  refine ⟨hinv, h.one_each, fun hr => (by cases hr), fun _ u => ?_, fun name hother => ?_⟩
  · change Function.update s.files s.filename (some (s.outputFile.close (e.flush s.lame)).written)
        (recordingName home u) = (lastBegun s.began s.session.writer.recordings u).elim _ _
    rw [hbegan, hrecordings, hname, hstate, hfile]
    obtain rfl | hu := eq_or_ne u t
    · rw [Function.update_self, lastBegun_self]
      rfl
    · have hne : recordingName home u ≠ recordingName home t := fun heq => hu (recordingName_inj.mp heq)
      rw [Function.update_of_ne hne, lastBegun_of_ne hu]
      exact hfiled u hu
  · have hne : name ≠ s.filename := by
      rw [hname]
      exact (hother t).symm
    exact (Function.update_of_ne hne _ _).trans (h.others name hother)

theorem Inv.step (h : s.Inv e home files) (a : StudioStep) (hg : s.PlayOk a) :
    ∃ s', s.step e home a = .ok s' ∧ s'.Inv e home files := by
  cases a with
  | queue a => exact h.queue a hg
  | startRecording t => exact h.startRecording t hg
  | stopRecording => exact h.stopRecording hg

end Steps

/-- As long as the writer thread keeps up, the directory has one file for every second in which a
recording began: the last of these recordings, with exactly what was played during it. -/
theorem run_keeps_last (e : Encoder σ) (home : List Char) (bufferSize : ℕ)
    (memory : ℕ → ℕ → ℚ) (files : List Char → Option (List UInt8)) {steps : List StudioStep}
    (h : Admits (step e home) PlayOk (init e bufferSize memory files) steps) :
    Always (step e home) (Kept e home files) (init e bufferSize memory files) steps :=
  (always_of_admits (fun _ a hs ha => hs.step a ha) (inv_init e home bufferSize memory files)
    h).mono fun _ hs => hs.kept

/-- An encoder that has no whole frame yet, and none to flush. -/
def quietEncoder : Encoder Unit where
  init := ()
  encode _ _ := ((), {
    returned := 0
    buffer := List.replicate mp3BufferSize 0
    length_eq := List.length_replicate
    returned_le := Int.natCast_nonneg _ })
  flush _ := Mp3Writer.emptyFlush

/-- The last second of a year. -/
def newYear : Tm where
  sec := 59
  min := 59
  hour := 23
  mday := 31
  mon := 11
  year := 125
  sec_le := by decide
  min_le := by decide
  hour_le := by decide
  mday_le := by decide
  mon_le := by decide

theorem run_keeps_last_twice :
    Always (step quietEncoder []) (Kept quietEncoder [] fun _ => none)
      (init quietEncoder 2 (fun _ _ => 0) fun _ => none)
      [.startRecording newYear, .stopRecording, .startRecording newYear,
        .queue (.process ⟨[1, 2], [3, 4], rfl⟩), .queue .pop, .queue .call, .queue .call,
        .stopRecording] :=
  run_keeps_last quietEncoder [] 2 (fun _ _ => 0) (fun _ => none) (by decide)

example : recordingName [] newYear = "/31-12-2025 23-59-59.mp3".toList := by decide

end Studio

end AmpRack

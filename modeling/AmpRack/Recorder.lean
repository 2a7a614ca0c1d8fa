import AmpRack.Recording
import Mathlib.Tactic.Linarith
import Mathlib.Tactic.NormNum

/-!
# The resources of a recording

`FileWriter::openFile` may fail at three places and `startRecording` sets `ready` in any case, so
`disk_write` and `closeFile` go on with whatever handles there are. A `Recorder` keeps them behind
the `FileWriter` of the recordings, each with the recording that it was opened for, and notes every
time that LAME or the output file is reached. The file type is MP3, as nothing sets another, and
`block_size` is never changed either.
-/

namespace AmpRack

open GuardedRun

def blockSize : ℕ := 384

/-- `(block_size * 1.25) + 7200`, as it is converted to an integer. -/
def mp3BufferSize : ℕ := blockSize * 5 / 4 + 7200

/-- The size of the buffer that `closeFile` flushes LAME into. -/
def flushSize : ℕ := 8192 * 3

/-- Which of the opening steps succeed: `sf_format_check`, `lame_init_params` and `fopen`. -/
structure Opening where
  formatCheck : Bool
  lameInitParams : Bool
  fopen : Bool
  deriving DecidableEq

/-- A handle, which can encode once `lame_init_params` has accepted its parameters. -/
structure Lame where
  recording : ℕ
  initialised : Bool

structure Mp3Buffer where
  recording : ℕ
  size : ℕ
  freed : Bool := false

/-- What there is when LAME or the output file is reached, the number of samples encoded, and the
capacity that LAME is told for a buffer of which `allocated` bytes are there. -/
structure Access where
  recording : ℕ
  lame : Option Lame
  outputFile : Option ℕ
  mp3Buffer : Option Mp3Buffer
  nsamples : ℕ
  capacity : ℕ
  allocated : ℕ

/-- All is open for the current recording, and LAME may write its documented worst case. -/
structure Access.Sound (a : Access) : Prop where
  lame : a.lame = some ⟨a.recording, true⟩
  outputFile : a.outputFile = some a.recording
  mp3Buffer : ∃ size, a.mp3Buffer = some ⟨a.recording, size, false⟩
  allocated : a.capacity ≤ a.allocated
  worstCase : (5 / 4 : ℚ) * a.nsamples + 7200 ≤ a.capacity

/-- `opening` is how the last `openFile` went. -/
structure Recorder where
  writer : FileWriter := {}
  lame : Option Lame := none
  outputFile : Option ℕ := none
  mp3Buffer : Option Mp3Buffer := none
  opening : Opening := ⟨true, true, true⟩
  accesses : List Access := []

inductive RecorderOp
  | toggle (opening : Opening)
  | diskWrite (buffer : AudioBuffer)

namespace Recorder

/-- The recordings are counted from one. -/
def recording (r : Recorder) : ℕ := r.writer.recordings.length

def openFile (r : Recorder) (o : Opening) : Recorder :=
  if o.formatCheck then
    { r with
      lame := some ⟨r.recording, o.lameInitParams⟩
      outputFile := if o.fopen then some r.recording else none
      mp3Buffer := some ⟨r.recording, mp3BufferSize, false⟩ }
  else r

def access (r : Recorder) (nsamples capacity allocated : ℕ) : Access :=
  ⟨r.recording, r.lame, r.outputFile, r.mp3Buffer, nsamples, capacity, allocated⟩

def reach (r : Recorder) (a : Access) : Recorder := { r with accesses := r.accesses ++ [a] }

/-- LAME is flushed into a buffer of its own. `mp3_buffer` keeps its address when it is freed. -/
def closeFile (r : Recorder) : Recorder :=
  { r.reach (r.access 0 flushSize flushSize) with
    lame := none
    outputFile := none
    mp3Buffer := r.mp3Buffer.map fun b => { b with freed := true } }

def startRecording (r : Recorder) (o : Opening) : Recorder :=
  { r with writer := r.writer.startRecording, opening := o }.openFile o

def stopRecording (r : Recorder) : Recorder :=
  { r with writer := r.writer.stopRecording }.closeFile

/-- The button starts and stops in turn. -/
def toggle (r : Recorder) (o : Opening) : Recorder :=
  if r.writer.ready then r.stopRecording else r.startRecording o

def diskWrite (r : Recorder) (buffer : AudioBuffer) : Recorder :=
  if !r.writer.ready || buffer.pos == 0 then r
  else
    { r with writer := r.writer.diskWrite buffer }.reach
      (r.access buffer.pos mp3BufferSize (r.mp3Buffer.elim 0 (·.size)))

def step (r : Recorder) : RecorderOp → Except Fault Recorder
  | .toggle o => .ok (r.toggle o)
  | .diskWrite buffer => .ok (r.diskWrite buffer)

def AccessesSound (r : Recorder) : Prop := ∀ a ∈ r.accesses, a.Sound

end Recorder

/-- No step of the opening failed. -/
def Opening.Succeeds (o : Opening) : Prop := o = ⟨true, true, true⟩

instance (o : Opening) : Decidable o.Succeeds := inferInstanceAs (Decidable (_ = _))

namespace Recorder

/-- A recording whose opening failed is neither stopped nor given a block, and no block is longer
than `block_size`. -/
def AccessOk (r : Recorder) : RecorderOp → Prop
  | .toggle _ => r.writer.ready = true → r.opening.Succeeds
  | .diskWrite buffer => r.writer.ready = true → buffer.pos ≠ 0 →
      r.opening.Succeeds ∧ buffer.pos ≤ blockSize

/-- The handles of a recording are those that its opening gave it; between two recordings only the
buffer's address is left. -/
structure Inv (r : Recorder) : Prop where
  stopped : r.writer.ready = false → r.lame = none ∧ r.outputFile = none
  running : r.writer.ready = true →
    r.lame = (if r.opening.formatCheck then some ⟨r.recording, r.opening.lameInitParams⟩ else none) ∧
    r.outputFile = (if r.opening.formatCheck && r.opening.fopen then some r.recording else none) ∧
    (r.opening.formatCheck = true → r.mp3Buffer = some ⟨r.recording, mp3BufferSize, false⟩)
  sound : r.AccessesSound

section Step

variable {r : Recorder} {o : Opening} {buffer : AudioBuffer}

theorem ready_diskWrite (buffer : AudioBuffer) (f : FileWriter) :
    (f.diskWrite buffer).ready = f.ready := by
  unfold FileWriter.diskWrite
  split_ifs <;> rfl

theorem length_recordings_diskWrite (buffer : AudioBuffer) (f : FileWriter) :
    (f.diskWrite buffer).recordings.length = f.recordings.length := by
  unfold FileWriter.diskWrite
  split_ifs
  · rfl
  · cases f.recordings <;> rfl

theorem inv_start : Inv {} :=
  ⟨fun _ => ⟨rfl, rfl⟩, fun h => (by cases h), fun _ ha => (by cases ha)⟩

/-- While recording, an access is sound when the opening succeeded and the capacity suits it. -/
theorem Inv.access_sound_iff (h : Inv r) (hr : r.writer.ready = true) (n c m : ℕ) :
    (r.access n c m).Sound ↔
      r.opening.Succeeds ∧ c ≤ m ∧ (5 / 4 : ℚ) * n + 7200 ≤ c := by
  obtain ⟨hlame, hfile, hbuffer⟩ := h.running hr
  cases ho : r.opening with
  | mk formatCheck lameInitParams fopen =>
    rw [ho] at hlame hfile hbuffer
    constructor
    · intro ha
      refine ⟨?_, ha.allocated, ha.worstCase⟩
      have h₁ : r.lame = some ⟨r.recording, true⟩ := ha.lame
      have h₂ : r.outputFile = some r.recording := ha.outputFile
      rw [hlame] at h₁
      rw [hfile] at h₂
      split_ifs at h₁ with hcheck
      split_ifs at h₂ with hopen
      simp only [Option.some.injEq, Lame.mk.injEq, true_and] at h₁
      rw [Bool.and_eq_true] at hopen
      obtain ⟨rfl, rfl⟩ : formatCheck = true ∧ fopen = true := hopen
      rw [h₁]
      rfl
    · rintro ⟨hsucceeds, hle, hworst⟩
      cases hsucceeds
      exact ⟨hlame, hfile, ⟨_, hbuffer rfl⟩, hle, hworst⟩

theorem accessesSound_reach {a : Access} (h : r.AccessesSound) :
    (r.reach a).AccessesSound ↔ a.Sound := by
  constructor
  · exact fun hr => hr a (List.mem_append_right _ List.mem_cons_self)
  · intro ha b hb
    rcases List.mem_append.mp hb with hb | hb
    · exact h b hb
    · rw [List.mem_singleton.mp hb]
      exact ha

theorem Inv.startRecording (h : Inv r) (hr : r.writer.ready = false) (o : Opening) :
    Inv (r.startRecording o) := by
  obtain ⟨hlame, hfile⟩ := h.stopped hr
  unfold Recorder.startRecording openFile
  by_cases hcheck : o.formatCheck = true
  · rw [if_pos hcheck]
    refine ⟨fun hr' => (by cases hr'), fun _ => ⟨(if_pos hcheck).symm, ?_, fun _ => rfl⟩, h.sound⟩
    simp only [hcheck, Bool.true_and]
    rfl
  · rw [if_neg hcheck]
    refine ⟨fun hr' => (by cases hr'), fun _ => ⟨?_, ?_, fun hc => absurd hc hcheck⟩, h.sound⟩
    · exact hlame.trans (if_neg hcheck).symm
    · simp only [hcheck, Bool.false_and, Bool.false_eq_true, if_false]
      exact hfile

/-- The samples of a block are what LAME's buffer was made for. -/
theorem worstCase_iff (n : ℕ) : (5 / 4 : ℚ) * n + 7200 ≤ mp3BufferSize ↔ n ≤ blockSize := by
  have hcapacity : (mp3BufferSize : ℚ) = 7680 := by
    rw [show mp3BufferSize = 7680 from rfl]
    norm_num
  have hblock : (blockSize : ℚ) = 384 := by
    rw [show blockSize = 384 from rfl]
    norm_num
  rw [hcapacity]
  constructor
  · intro h
    have hle : (n : ℚ) ≤ blockSize := by linarith
    exact Nat.cast_le.mp hle
  · intro h
    have hle : (n : ℚ) ≤ blockSize := Nat.cast_le.mpr h
    linarith

theorem Inv.stopRecording (h : Inv r) (hr : r.writer.ready = true) :
    (r.stopRecording).AccessesSound ↔ r.opening.Succeeds := by
  have hstop : (r.stopRecording).AccessesSound ↔ (r.access 0 flushSize flushSize).Sound :=
    accessesSound_reach h.sound
  rw [hstop, h.access_sound_iff hr]
  refine ⟨fun ha => ha.1, fun ho => ⟨ho, le_rfl, ?_⟩⟩
  norm_num [flushSize]

theorem Inv.diskWrite (h : Inv r) (hr : r.writer.ready = true) (hn : buffer.pos ≠ 0) :
    (r.diskWrite buffer).AccessesSound ↔ r.opening.Succeeds ∧ buffer.pos ≤ blockSize := by
  have hreach : ¬ (!r.writer.ready || buffer.pos == 0) = true := by simp [hr, hn]
  rw [Recorder.diskWrite, if_neg hreach]
  have hdisk : (({ r with writer := r.writer.diskWrite buffer } : Recorder).reach
      (r.access buffer.pos mp3BufferSize (r.mp3Buffer.elim 0 (·.size)))).AccessesSound ↔
      (r.access buffer.pos mp3BufferSize (r.mp3Buffer.elim 0 (·.size))).Sound :=
    accessesSound_reach h.sound
  rw [hdisk, h.access_sound_iff hr, worstCase_iff]
  refine and_congr_right fun ho => ⟨fun ha => ha.2, fun hle => ⟨?_, hle⟩⟩
  rw [(h.running hr).2.2 (by rw [ho])]
  exact le_rfl

/-- A step keeps the invariant as long as what it reaches is sound. -/
theorem Inv.step (h : Inv r) (op : RecorderOp) {r' : Recorder} (hr' : r.step op = .ok r')
    (hs : r'.AccessesSound) : Inv r' := by
  cases op with
  | toggle o =>
    cases hr'
    unfold Recorder.toggle at hs ⊢
    split_ifs at hs ⊢ with hr
    · exact ⟨fun _ => ⟨rfl, rfl⟩, fun hready => (by cases hready), hs⟩
    · exact h.startRecording (Bool.eq_false_iff.mpr hr) o
  | diskWrite buffer =>
    cases hr'
    unfold Recorder.diskWrite at hs ⊢
    split_ifs at hs ⊢ with hr
    · exact h
    · have hready := ready_diskWrite buffer r.writer
      have hrecording : (r.writer.diskWrite buffer).recordings.length = r.recording :=
        length_recordings_diskWrite buffer r.writer
      refine ⟨fun hr' => ?_, fun hr' => ?_, hs⟩
      · exact h.stopped (hready.symm.trans hr')
      · obtain ⟨hlame, hfile, hbuffer⟩ := h.running (hready.symm.trans hr')
        simp only [recording, reach, hrecording]
        exact ⟨hlame, hfile, hbuffer⟩

/-- A step is sound exactly when its guard holds. -/
theorem Inv.sound_iff (h : Inv r) (op : RecorderOp) {r' : Recorder} (hr' : r.step op = .ok r') :
    r'.AccessesSound ↔ AccessOk r op := by
  cases op with
  | toggle o =>
    cases hr'
    by_cases hr : r.writer.ready = true
    · rw [Recorder.toggle, if_pos hr, h.stopRecording hr]
      exact ⟨fun ho _ => ho, fun ho => ho hr⟩
    · rw [Recorder.toggle, if_neg hr]
      exact ⟨fun _ hready => absurd hready hr,
        fun _ => (h.startRecording (Bool.eq_false_iff.mpr hr) o).sound⟩
  | diskWrite buffer =>
    cases hr'
    by_cases hreach : r.writer.ready = true ∧ buffer.pos ≠ 0
    · rw [h.diskWrite hreach.1 hreach.2]
      exact ⟨fun ho _ _ => ho, fun ho => ho hreach.1 hreach.2⟩
    · have hnot : (!r.writer.ready || buffer.pos == 0) = true := by
        by_contra hn
        exact hreach (by simpa using hn)
      rw [Recorder.diskWrite, if_pos hnot]
      exact ⟨fun _ hr hn => absurd ⟨hr, hn⟩ hreach, fun _ => h.sound⟩

end Step

/-- A run reaches LAME and the output file soundly exactly when every recording that is stopped or
gets a block was opened without a failure, and no block written is longer than `block_size`. -/
theorem accessesSound_iff_accessOk (ops : List RecorderOp) :
    Always step AccessesSound {} ops ↔ Admits step AccessOk {} ops := by
  apply always_iff_admits (fun (r : Recorder) (h : r.Inv) => h.sound) ?_ ?_ inv_start
  · intro r op h hg
    obtain ⟨r', hr'⟩ : ∃ r', r.step op = .ok r' := by cases op <;> exact ⟨_, rfl⟩
    exact ⟨r', hr', h.step op hr' ((h.sound_iff op hr').mpr hg)⟩
  · exact fun r op r' h hr' hs => (h.sound_iff op hr').mp hs

/-- LAME is promised less than its worst case for a block of 1024 samples. -/
theorem long_block_unsound :
    ¬ Always step AccessesSound {}
      [.toggle ⟨true, true, true⟩, .diskWrite { pos := 1024, data := List.replicate 1024 0 }] := by
  intro h
  obtain ⟨r, hr, hsound⟩ := h _ (List.prefix_refl _)
  cases hr
  have hworst := (hsound _ List.mem_cons_self).worstCase
  exact absurd ((worstCase_iff 1024).mp hworst) (by decide)

end Recorder

end AmpRack

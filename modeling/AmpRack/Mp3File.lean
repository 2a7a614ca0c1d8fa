import AmpRack.Recorder

/-!
# The bytes of an MP3 file

LAME tells with every call how many bytes of the buffer it was given are its output. `disk_write`
hands that many to `fwrite`; `closeFile` does not look at what the flush returns and writes its
whole buffer. An `Mp3Writer` has the files beside the recorder, whose openings succeed here, and
with each the bytes that LAME produced for it.
-/

namespace AmpRack

open GuardedRun

/-- What a call of LAME returns, which is negative on an error, and what it leaves in the buffer. -/
structure LameCall (capacity : ℕ) where
  returned : ℤ
  buffer : List UInt8
  length_eq : buffer.length = capacity
  returned_le : returned ≤ capacity

/-- The bytes of the buffer that are LAME's. -/
def LameCall.produced {capacity : ℕ} (c : LameCall capacity) : List UInt8 :=
  c.buffer.take c.returned.toNat

/-- `written` are the bytes of the file, `produced` those of the calls that it was open for. -/
structure Mp3File where
  written : List UInt8 := []
  produced : List UInt8 := []

namespace Mp3File

def fwrite (f : Mp3File) (ptr : List UInt8) (size nmemb : ℕ) : Mp3File :=
  { f with written := f.written ++ ptr.take (size * nmemb) }

def produce {capacity : ℕ} (f : Mp3File) (c : LameCall capacity) : Mp3File :=
  { f with produced := f.produced ++ c.produced }

/-- The encoding of a block in `disk_write`. -/
def encode (f : Mp3File) (c : LameCall mp3BufferSize) : Mp3File :=
  if c.returned < 0 then f.produce c else (f.produce c).fwrite c.buffer c.returned.toNat 1

/-- `closeFile`. -/
def close (f : Mp3File) (c : LameCall flushSize) : Mp3File :=
  (f.produce c).fwrite c.buffer flushSize 1

def Exact (f : Mp3File) : Prop := f.written = f.produced

end Mp3File

/-- `outputFile` is the file that is open. -/
structure Mp3Writer where
  recorder : Recorder := {}
  outputFile : Option Mp3File := none
  finished : List Mp3File := []

inductive Mp3Op
  | toggle (flush : LameCall flushSize)
  | diskWrite (buffer : AudioBuffer) (call : LameCall mp3BufferSize)

/-- What the recorder makes of it. -/
def Mp3Op.recorderOp : Mp3Op → RecorderOp
  | toggle _ => .toggle ⟨true, true, true⟩
  | diskWrite buffer _ => .diskWrite buffer

namespace Mp3Writer

def toggle (w : Mp3Writer) (flush : LameCall flushSize) : Mp3Writer :=
  { recorder := w.recorder.toggle ⟨true, true, true⟩
    outputFile := if w.recorder.writer.ready then none else some {}
    finished :=
      if w.recorder.writer.ready then (w.outputFile.map (·.close flush)).toList ++ w.finished
      else w.finished }

def diskWrite (w : Mp3Writer) (buffer : AudioBuffer) (call : LameCall mp3BufferSize) : Mp3Writer :=
  { w with
    recorder := w.recorder.diskWrite buffer
    outputFile :=
      if !w.recorder.writer.ready || buffer.pos == 0 then w.outputFile
      else w.outputFile.map (·.encode call) }

def step (w : Mp3Writer) : Mp3Op → Except Fault Mp3Writer
  | .toggle flush => .ok (w.toggle flush)
  | .diskWrite buffer call => .ok (w.diskWrite buffer call)

/-- Every file has the bytes that LAME produced for it, in their order. -/
structure FilesExact (w : Mp3Writer) : Prop where
  outputFile : ∀ f ∈ w.outputFile, f.Exact
  finished : ∀ f ∈ w.finished, f.Exact

/-- A recording that is stopped has a flush that fills its buffer. -/
def FlushOk (w : Mp3Writer) : Mp3Op → Prop
  | .toggle flush => w.recorder.writer.ready = true → flush.returned = flushSize
  | .diskWrite _ _ => True

/-- A file is open as long as the recorder is ready. -/
structure Inv (w : Mp3Writer) : Prop where
  exact : w.FilesExact
  open_eq : w.outputFile.isSome = w.recorder.writer.ready

end Mp3Writer

namespace Mp3File

variable {f : Mp3File}

theorem exact_encode (h : f.Exact) (c : LameCall mp3BufferSize) : (f.encode c).Exact := by
  unfold encode
  split_ifs with hneg
  · have hnothing : c.produced = [] := by
      rw [LameCall.produced, Int.toNat_of_nonpos hneg.le, List.take_zero]
    rw [Exact, produce, hnothing, List.append_nil]
    exact h
  · rw [Exact, fwrite, produce, LameCall.produced, Nat.mul_one, h]

/-- All of the buffer is LAME's only if the flush returned as much. -/
theorem exact_close_iff (h : f.Exact) (c : LameCall flushSize) :
    (f.close c).Exact ↔ c.returned = flushSize := by
  have hlength : c.buffer.take (flushSize * 1) = c.buffer :=
    List.take_of_length_le (by rw [c.length_eq, Nat.mul_one])
  have hexact : (f.close c).Exact ↔ c.buffer = c.buffer.take c.returned.toNat := by
    rw [Exact, close, fwrite, produce, hlength, h]
    exact List.append_right_inj f.produced
  rw [hexact, eq_comm, List.take_eq_self_iff, c.length_eq]
  have hle := c.returned_le
  constructor
  · intro hge
    have hpos : 0 < flushSize := by decide
    omega
  · intro heq
    rw [heq]
    exact le_rfl

end Mp3File

namespace Mp3Writer

variable {w w' : Mp3Writer} {op : Mp3Op}

/-- The recorder goes its own way. -/
theorem recorder_step (h : w.step op = .ok w') :
    w.recorder.step op.recorderOp = .ok w'.recorder := by
  cases op with
  | toggle flush =>
    cases h
    rfl
  | diskWrite buffer call =>
    cases h
    rfl

theorem ready_toggle (r : Recorder) (o : Opening) :
    (r.toggle o).writer.ready = !r.writer.ready := by
  unfold Recorder.toggle
  split_ifs with hr
  · rw [hr]
    rfl
  · rw [Bool.eq_false_iff.mpr hr, Recorder.startRecording, Recorder.openFile]
    split_ifs <;> rfl

theorem ready_diskWrite (r : Recorder) (buffer : AudioBuffer) :
    (r.diskWrite buffer).writer.ready = r.writer.ready := by
  unfold Recorder.diskWrite
  split_ifs
  · rfl
  · exact Recorder.ready_diskWrite buffer r.writer

theorem inv_start : Inv {} := ⟨⟨by simp, by simp⟩, rfl⟩

theorem inv_diskWrite (h : Inv w) (buffer : AudioBuffer) (call : LameCall mp3BufferSize) :
    Inv (w.diskWrite buffer call) := by
  refine ⟨⟨?_, h.exact.finished⟩, ?_⟩
  · intro f hf
    unfold diskWrite at hf
    simp only at hf
    split_ifs at hf
    · exact h.exact.outputFile f hf
    · obtain ⟨g, hg, rfl⟩ := Option.mem_map.mp hf
      exact Mp3File.exact_encode (h.exact.outputFile g hg) call
  · refine Eq.trans ?_ (h.open_eq.trans (ready_diskWrite w.recorder buffer).symm)
    unfold diskWrite
    simp only
    split_ifs
    · rfl
    · exact Option.isSome_map

/-- The file that is stopped is the only one that a stop can spoil. -/
theorem filesExact_toggle_iff (h : Inv w) (flush : LameCall flushSize) :
    FilesExact (w.toggle flush) ↔ (w.recorder.writer.ready = true → flush.returned = flushSize) := by
  unfold toggle
  by_cases hr : w.recorder.writer.ready = true
  · have hopen := h.open_eq
    rw [hr] at hopen
    obtain ⟨f, hf⟩ := Option.isSome_iff_exists.mp hopen
    have hexact := h.exact.outputFile f hf
    simp only [if_pos hr, hf, Option.map_some, Option.toList_some, List.singleton_append]
    constructor
    · intro hfiles _
      exact (Mp3File.exact_close_iff hexact flush).mp (hfiles.finished _ List.mem_cons_self)
    · intro hflush
      refine ⟨by simp, fun g hg => ?_⟩
      rcases List.mem_cons.mp hg with rfl | hg
      · exact (Mp3File.exact_close_iff hexact flush).mpr (hflush hr)
      · exact h.exact.finished g hg
  · simp only [if_neg hr]
    refine iff_of_true ⟨?_, h.exact.finished⟩ fun hready => absurd hready hr
    rintro _ ⟨⟩
    rfl

theorem open_toggle (w : Mp3Writer) (flush : LameCall flushSize) :
    (w.toggle flush).outputFile.isSome = (w.toggle flush).recorder.writer.ready := by
  have hready : (w.toggle flush).recorder.writer.ready = !w.recorder.writer.ready :=
    ready_toggle w.recorder _
  rw [hready, toggle]
  cases w.recorder.writer.ready <;> rfl

theorem exists_step (w : Mp3Writer) (op : Mp3Op) : ∃ w', w.step op = .ok w' := by
  cases op <;> exact ⟨_, rfl⟩

theorem Inv.filesExact_iff (h : Inv w) (hs : w.step op = .ok w') :
    FilesExact w' ↔ FlushOk w op := by
  cases op with
  | toggle flush =>
    cases hs
    exact filesExact_toggle_iff h flush
  | diskWrite buffer call =>
    cases hs
    exact iff_of_true (inv_diskWrite h buffer call).exact trivial

theorem Inv.step (h : Inv w) (hs : w.step op = .ok w') (hexact : FilesExact w') : Inv w' := by
  cases op with
  | toggle flush =>
    cases hs
    exact ⟨hexact, open_toggle w flush⟩
  | diskWrite buffer call =>
    cases hs
    exact inv_diskWrite h buffer call

/-- In a run all files are what LAME produced exactly when every flush fills its buffer of 24576
bytes. -/
theorem filesExact_iff_flushOk (ops : List Mp3Op) :
    Always step FilesExact {} ops ↔ Admits step FlushOk {} ops := by
  apply always_iff_admits (fun (w : Mp3Writer) (h : w.Inv) => h.exact) ?_ ?_ inv_start
  · intro w op h hg
    obtain ⟨w', hs⟩ := exists_step w op
    exact ⟨w', hs, h.step hs ((h.filesExact_iff hs).mpr hg)⟩
  · exact fun w op w' h hs hexact => (h.filesExact_iff hs).mp hexact

/-- LAME has nothing left for the flush. -/
def emptyFlush : LameCall flushSize where
  returned := 0
  buffer := List.replicate flushSize 0
  length_eq := List.length_replicate
  returned_le := Int.natCast_nonneg _

/-- A recording without a block has a file of 24576 bytes, none of them LAME's. -/
theorem empty_recording_not_exact :
    ¬ Always step FilesExact {} [.toggle emptyFlush, .toggle emptyFlush] := by
  intro h
  obtain ⟨w, hw, hexact⟩ := h _ (List.prefix_refl _)
  cases hw
  have hclosed : (Mp3File.close {} emptyFlush).Exact := hexact.finished _ List.mem_cons_self
  have hflush := (Mp3File.exact_close_iff (f := {}) rfl emptyFlush).mp hclosed
  exact absurd hflush (by decide)

end Mp3Writer

end AmpRack

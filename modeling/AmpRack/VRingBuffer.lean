import AmpRack.Custody
import AmpRack.GuardedRun
import AmpRack.JackRing
import AmpRack.MachineInts
import AmpRack.WordBytes

/-!
# The ring of buffers

A `vringbuffer_t` lets a realtime thread hand buffers to a disk thread and get them back. It has three
byte rings of pointers: `for_writer1` has buffers that no one has used yet, `for_writer2` those that came
back, `for_reader` those with samples. A third thread makes new buffers. Each ring has one thread that
writes and one that reads, so a call on a ring is one step here; the steps of the three threads may come
in any order. A pointer is eight bytes, `NULL` is zero.
-/

namespace AmpRack

open Custody GuardedRun MachineInts WordBytes

def pointerBytes (p : UInt64) : List UInt8 := toBytes 8 p.toNat

namespace JackRing

/-- `jack_ringbuffer_write` of a pointer; what it returns is not looked at. -/
def writePointer (rb : JackRing) (p : UInt64) : Option JackRing :=
  (rb.write (pointerBytes p)).map fun r => r.1

/-- `jack_ringbuffer_read` into a pointer that is `NULL`. -/
def readPointer (rb : JackRing) : Option (JackRing × UInt64 × ℕ) :=
  (rb.read 8).map fun r => (r.1, UInt64.ofNat (ofBytes r.2.1), r.2.2)

end JackRing

/-- `vringbuffer_t`. -/
structure VRingBuffer where
  forWriter1 : JackRing
  forWriter2 : JackRing
  forReader : JackRing
  elementSize : UInt64
  currNumElements : ℕ
  maxNumElements : ℕ

namespace VRingBuffer

/-- `vringbuffer_create`, up to its call of `vringbuffer_increase_writer1`; nothing clears the memory of
the rings. -/
def create (maxNumElements : ℕ) (elementSize : UInt64) (garbage : ℕ → UInt8) : VRingBuffer where
  forWriter1 := .create (8 * maxNumElements) garbage
  forWriter2 := .create (8 * maxNumElements) garbage
  forReader := .create (8 * maxNumElements) garbage
  elementSize := elementSize
  currNumElements := 0
  maxNumElements := maxNumElements

/-- `vringbuffer_reading_size`. -/
def readingSize (vrb : VRingBuffer) : ℕ := vrb.forReader.readSpace / 8

/-- How many elements there may be more, when `num_elements` are asked for. -/
def clamped (vrb : VRingBuffer) (numElements : ℕ) : ℕ :=
  if vrb.maxNumElements < numElements + vrb.currNumElements then
    vrb.maxNumElements - vrb.currNumElements
  else numElements

/-- The numbers are added as `int`s. -/
def clamp (vrb : VRingBuffer) (numElements : ℕ) : Option ℕ :=
  if FitsInt (numElements + vrb.currNumElements) then some (vrb.clamped numElements) else none

/-- The elements lie behind each other in the memory that is allocated for them. -/
def elements (vrb : VRingBuffer) (dasBuffer : UInt64) (numElements : ℕ) : List UInt64 :=
  (List.range numElements).map fun i => dasBuffer + UInt64.ofNat i * vrb.elementSize

end VRingBuffer

/-- The ring of buffers with its threads. `allocated` are the elements that there are, `returned` those
that the realtime thread has handed over, `received` those that the receiver's callback has used. -/
structure BufferThreads where
  vrb : VRingBuffer
  /-- What `vringbuffer_increase_writer1` has still to write, and its `num_elements`. -/
  increase : Option (List UInt64 × ℕ) := none
  /-- `vringbuffer_get_writing` has found nothing in `for_writer2`. -/
  missed : Bool := false
  /-- The buffers that the realtime thread has. -/
  writing : List UInt64 := []
  /-- The variable of `receiver_func`. -/
  buffer : UInt64 := 0
  /-- The callback has used the buffer. -/
  used : Bool := false
  allocated : List UInt64 := []
  returned : List UInt64 := []
  received : List UInt64 := []

inductive BufferStep
  /-- `vringbuffer_get_writing`, which looks into `for_writer2` first. -/
  | getWriting
  | getFresh
  /-- `vringbuffer_return_writing` of the `i`-th buffer that the thread has. -/
  | returnWriting (i : ℕ)
  /-- One turn of the loop in `receiver_func`, up to what its callback returns. -/
  | receive (uses : Bool)
  | returnReading
  /-- `vringbuffer_increase_writer1`, with what `my_malloc` returns. -/
  | increase (numElements : ℕ) (malloc : Option UInt64)
  | store

namespace BufferThreads

/-- The pointer that is returned; the realtime thread goes by whether it is `NULL`. -/
def hold (s : BufferThreads) (ret : UInt64) : BufferThreads :=
  if ret = 0 then s else { s with writing := s.writing ++ [ret] }

def getWriting (s : BufferThreads) : Option BufferThreads :=
  if s.missed then some s
  else do
    let (rb, ret, n) ← s.vrb.forWriter2.readPointer
    let s := { s with vrb := { s.vrb with forWriter2 := rb } }
    return if n = 0 then { s with missed := true } else s.hold ret

def getFresh (s : BufferThreads) : Option BufferThreads :=
  if s.missed then do
    let (rb, ret, _) ← s.vrb.forWriter1.readPointer
    return { s with vrb := { s.vrb with forWriter1 := rb }, missed := false }.hold ret
  else some s

def returnWriting (s : BufferThreads) (i : ℕ) : Option BufferThreads :=
  if s.missed then some s
  else
    match s.writing[i]? with
    | none => some s
    | some data => do
      let rb ← s.vrb.forReader.writePointer data
      return { s with
        vrb := { s.vrb with forReader := rb }
        writing := s.writing.eraseIdx i
        returned := s.returned ++ [data] }

/-- `vringbuffer_get_reading`, unless the buffer of the last turn is still there. -/
def getReading (s : BufferThreads) : Option BufferThreads :=
  if s.buffer = 0 then do
    let (rb, ret, _) ← s.vrb.forReader.readPointer
    return { s with vrb := { s.vrb with forReader := rb }, buffer := ret }
  else some s

/-- With nothing to read the thread sleeps; a callback that did not use the buffer leaves it for the next
turn. -/
def receive (s : BufferThreads) (uses : Bool) : Option BufferThreads :=
  if s.used then some s
  else if s.vrb.readingSize = 0 then some s
  else do
    let s ← s.getReading
    return if uses then { s with used := true, received := s.received ++ [s.buffer] } else s

def returnReading (s : BufferThreads) : Option BufferThreads :=
  if s.used then do
    let rb ← s.vrb.forWriter2.writePointer s.buffer
    return { s with vrb := { s.vrb with forWriter2 := rb }, buffer := 0, used := false }
  else some s

/-- `vringbuffer_increase_writer1` up to its loop. -/
def beginIncrease (s : BufferThreads) (numElements : ℕ) (malloc : Option UInt64) :
    Option BufferThreads :=
  if s.increase.isSome then some s
  else do
    let numElements ← s.vrb.clamp numElements
    if numElements = 0 then return s
    match malloc with
    | none => return s
    | some dasBuffer =>
      let elements := s.vrb.elements dasBuffer numElements
      return { s with
        increase := some (elements, numElements)
        allocated := s.allocated ++ elements }

/-- One turn of the loop, or what comes behind it. -/
def store (s : BufferThreads) : Option BufferThreads :=
  match s.increase with
  | none => some s
  | some (pointer :: pointers, numElements) => do
    let rb ← s.vrb.forWriter1.writePointer pointer
    return { s with
      vrb := { s.vrb with forWriter1 := rb }
      increase := some (pointers, numElements) }
  | some ([], numElements) =>
    some { s with
      vrb := { s.vrb with currNumElements := s.vrb.currNumElements + numElements }
      increase := none }

def next (s : BufferThreads) : BufferStep → Option BufferThreads
  | .getWriting => s.getWriting
  | .getFresh => s.getFresh
  | .returnWriting i => s.returnWriting i
  | .receive uses => s.receive uses
  | .returnReading => s.returnReading
  | .increase numElements malloc => s.beginIncrease numElements malloc
  | .store => s.store

/-- A `memcpy` that leaves the memory of a ring is a fault, and so is a sum that no `int` holds. -/
def step (s : BufferThreads) (a : BufferStep) : Except Unit BufferThreads :=
  (s.next a).elim (.error ()) .ok

/-- An `int` holds the number of elements there would be; allocated memory is new, and no element of it
is `NULL`. -/
def IncreaseOk (s : BufferThreads) : BufferStep → Prop
  | .increase numElements malloc =>
    FitsInt (numElements + s.vrb.currNumElements) ∧ ∀ dasBuffer ∈ malloc,
      let elements := s.vrb.elements dasBuffer (s.vrb.clamped numElements)
      elements.Nodup ∧ ∀ p ∈ elements, p ≠ 0 ∧ p ∉ s.allocated
  | _ => True

/-- What `vringbuffer_increase_writer1` has still to write. -/
def coming (s : BufferThreads) : List UInt64 := s.increase.elim [] fun r => r.1

/-- The buffer that the receiver has. -/
def reading (s : BufferThreads) : List UInt64 := if s.buffer = 0 then [] else [s.buffer]

end BufferThreads

/-- Where an element can be: on its way into `for_writer1`, in one of the three rings, or with one of the
two threads. -/
inductive BufferPlace
  | coming
  | writer1
  | writer2
  | reader
  | writing
  | reading
  deriving DecidableEq

instance : Fintype BufferPlace where
  elems := {.coming, .writer1, .writer2, .reader, .writing, .reading}
  complete := fun p => by cases p <;> decide

namespace BufferThreads

/-- The rings have whole pointers, every element is at exactly one place, and what the realtime thread
hands over reaches the callback in its order. -/
structure Holds (s : BufferThreads) (c : BufferPlace → List UInt64) : Prop where
  writer1 : s.vrb.forWriter1.Represents ((c .writer1).flatMap pointerBytes)
  writer2 : s.vrb.forWriter2.Represents ((c .writer2).flatMap pointerBytes)
  reader : s.vrb.forReader.Represents ((c .reader).flatMap pointerBytes)
  coming : c .coming = s.coming
  writing : c .writing = s.writing
  reading : c .reading = s.reading
  total : total c = s.allocated
  order : s.returned = s.received ++ (if s.used then [] else s.reading) ++ c .reader

def Circulates (s : BufferThreads) : Prop :=
  ∃ c, s.Holds c ∧ (∀ i, (c i).Nodup) ∧ ∀ i j, i ≠ j → (c i).Disjoint (c j)

end BufferThreads

section Pointers

variable {rb : JackRing} {ps : List UInt64} {q : List UInt8}

@[simp] theorem length_pointerBytes (p : UInt64) : (pointerBytes p).length = 8 := length_toBytes 8 _

theorem ofNat_ofBytes_pointerBytes (p : UInt64) : UInt64.ofNat (ofBytes (pointerBytes p)) = p := by
  have hlt : p.toNat < 256 ^ 8 := p.toNat_lt
  rw [pointerBytes, ofBytes_toBytes, Nat.mod_eq_of_lt hlt, UInt64.ofNat_toNat]

theorem length_pointers (ps : List UInt64) : (ps.flatMap pointerBytes).length = 8 * ps.length :=
  length_flatMap_word length_pointerBytes ps

namespace JackRing

/-- Nothing is read from a ring without a pointer, and `NULL` is left. -/
theorem Represents.readPointer_nil (h : rb.Represents []) :
    ∃ rb', rb.readPointer = some (rb', 0, 0) ∧ rb'.Represents [] ∧ rb'.size = rb.size := by
  obtain ⟨rb', hread, hrepresents, hsize⟩ := h.read_eq 8
  exact ⟨rb', by rw [readPointer, hread]; rfl, hrepresents, hsize⟩

theorem Represents.readPointer_cons {p : UInt64}
    (h : rb.Represents ((p :: ps).flatMap pointerBytes)) :
    ∃ rb', rb.readPointer = some (rb', p, 8) ∧ rb'.Represents (ps.flatMap pointerBytes) ∧
      rb'.size = rb.size := by
  obtain ⟨rb', hread, hrepresents, hsize⟩ := h.read_eq 8
  have hlength : min 8 ((p :: ps).flatMap pointerBytes).length = 8 := by
    rw [length_pointers, List.length_cons]
    omega
  rw [drop_flatMap_word length_pointerBytes] at hrepresents
  rw [take_flatMap_word length_pointerBytes, hlength] at hread
  exact ⟨rb', by rw [readPointer, hread, Option.map_some, ofNat_ofBytes_pointerBytes],
    hrepresents, hsize⟩

/-- A pointer goes in as far as there is room. -/
theorem Represents.writePointer_eq (h : rb.Represents q) (p : UInt64) :
    ∃ rb', rb.writePointer p = some rb' ∧
      rb'.Represents (q ++ (pointerBytes p).take (rb.size - 1 - q.length)) ∧ rb'.size = rb.size := by
  obtain ⟨rb', hwrite, hrepresents, hsize⟩ := h.write_eq (pointerBytes p)
  exact ⟨rb', by rw [writePointer, hwrite, Option.map_some], hrepresents, hsize⟩

theorem Represents.writePointer_whole (h : rb.Represents (ps.flatMap pointerBytes)) (p : UInt64)
    (hroom : 8 * (ps.length + 1) < rb.size) :
    ∃ rb', rb.writePointer p = some rb' ∧ rb'.Represents ((ps ++ [p]).flatMap pointerBytes) ∧
      rb'.size = rb.size := by
  obtain ⟨rb', hwrite, hrepresents, hsize⟩ := h.writePointer_eq p
  have hall : (pointerBytes p).take (rb.size - 1 - (ps.flatMap pointerBytes).length) =
      pointerBytes p := by
    apply List.take_of_length_le
    rw [length_pointerBytes, length_pointers]
    omega
  rw [hall] at hrepresents
  exact ⟨rb', hwrite, by rwa [flatMap_concat_word], hsize⟩

theorem Represents.readSpace_pointers (h : rb.Represents (ps.flatMap pointerBytes)) :
    rb.readSpace / 8 = ps.length := by
  rw [h.readSpace_eq, length_pointers, Nat.mul_div_cancel_left _ (by decide)]

end JackRing

end Pointers

end AmpRack

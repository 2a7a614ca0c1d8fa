import AmpRack.JackRing

/-!
# Runs of calls on the byte ring

A caller may copy (`read`, `peek`, `write`) or work in the memory itself, through the vectors and
`advance`. Under any mix of the two the ring is a bounded queue of bytes.
-/

namespace AmpRack

open RingSpans

namespace JackRing

/-- A reader that works in the memory: the read vector, then `jack_ringbuffer_read_advance`. -/
def consume (rb : JackRing) (cnt : ℕ) : Option (JackRing × List UInt8 × ℕ) := do
  let (v1, v2) := rb.getReadVector
  let first ← load rb.size rb.buf v1.pos v1.len
  let second ← load rb.size rb.buf v2.pos v2.len
  let n := min cnt (v1.len + v2.len)
  return (rb.readAdvance n, (first ++ second).take n, n)

/-- A writer that works in the memory: the write vector, then `jack_ringbuffer_write_advance`. -/
def produce (rb : JackRing) (src : List UInt8) : Option (JackRing × ℕ) := do
  let (v1, v2) := rb.getWriteVector
  let n := min src.length (v1.len + v2.len)
  let buf ← store rb.size rb.buf v1.pos (src.take v1.len)
  let buf ← store rb.size buf v2.pos ((src.drop v1.len).take v2.len)
  return (({ rb with buf := buf } : JackRing).writeAdvance n, n)

section Vectors

variable {rb : JackRing} {q : List UInt8}

theorem vector_eq_split (rb : JackRing) (ptr n : ℕ) :
    rb.vector ptr n = (⟨ptr, (rb.split ptr n).1⟩, ⟨0, (rb.split ptr n).2⟩) := by
  rw [vector, split]
  split_ifs
  · rfl
  · rfl

theorem Represents.consume_eq (h : rb.Represents q) (cnt : ℕ) :
    ∃ rb', rb.consume cnt = some (rb', q.take cnt, min cnt q.length) ∧
      rb'.Represents (q.drop cnt) ∧ rb'.size = rb.size := by
  obtain ⟨n1, n2, hsplit, hsum, hend, hsecond⟩ := h.split_spec h.readPtr_lt h.length_lt
  have hback : load rb.size rb.buf 0 n2 = some ((q.drop n1).take n2) := by
    obtain rfl | hn2 := Nat.eq_zero_or_pos n2
    · rfl
    · have hload := h.load_back (m := n2) hsum.le (hsecond hn2.ne')
      rwa [h.and_mask, hsecond hn2.ne', Nat.mod_self] at hload
  have hall : q.take n1 ++ (q.drop n1).take n2 = q := by
    rw [← List.take_add, hsum, List.take_length]
  simp only [consume, getReadVector, vector_eq_split, h.readSpace_eq, hsplit, hsum,
    h.load_front (show n1 ≤ q.length by omega) hend, hback, Option.bind_eq_bind, Option.bind_some, hall]
  refine ⟨rb.readAdvance (min cnt q.length), by rw [← List.take_eq_take_min]; rfl, ?_, rfl⟩
  have hmoved := h.readAdvance (Nat.min_le_right cnt q.length)
  rwa [drop_min_length] at hmoved

/-- Bytes that are stored around the end, and the write pointer moved past both parts at once. -/
theorem Represents.append_around (h : rb.Represents q) {xs ys : List UInt8}
    (hend : rb.writePtr + xs.length ≤ rb.size) (haround : ys = [] ∨ rb.writePtr + xs.length = rb.size)
    (hroom : q.length + (xs.length + ys.length) < rb.size) :
    (({ rb with buf := put (put rb.buf rb.writePtr xs) 0 ys } : JackRing).writeAdvance
      (xs.length + ys.length)).Represents (q ++ (xs ++ ys)) := by
  have hfirst := h.append xs hend (by omega)
  obtain rfl | hturn := haround
  · rw [put_nil, List.append_nil, List.length_nil, Nat.add_zero]
    exact hfirst
  · have hzero : (rb.writePtr + xs.length) &&& rb.sizeMask = 0 := by
      rw [h.and_mask, hturn, Nat.mod_self]
    have hboth := hfirst.append ys (by dsimp only; omega)
      (by rw [List.length_append]; dsimp only; omega)
    dsimp only at hboth
    rw [hzero, Nat.zero_add, List.append_assoc] at hboth
    have hptr : (rb.writePtr + (xs.length + ys.length)) &&& rb.sizeMask = ys.length &&& rb.sizeMask := by
      rw [h.and_mask, h.and_mask, ← Nat.add_assoc, hturn, Nat.add_mod_left]
    rw [writeAdvance]
    dsimp only
    rwa [hptr]

theorem Represents.produce_eq (h : rb.Represents q) (src : List UInt8) :
    ∃ rb', rb.produce src = some (rb', min src.length (rb.size - 1 - q.length)) ∧
      rb'.Represents (q ++ src.take (rb.size - 1 - q.length)) ∧ rb'.size = rb.size := by
  have hlen := h.length_lt
  obtain ⟨n1, n2, hsplit, hsum, hend, hsecond⟩ :=
    h.split_spec h.writePtr_lt (show rb.size - 1 - q.length < rb.size by omega)
  have hlen1 : (src.take n1).length ≤ n1 := List.length_take_le _ _
  have hlen2 : ((src.drop n1).take n2).length ≤ n2 := List.length_take_le _ _
  have hlens : (src.take n1).length + ((src.drop n1).take n2).length = min src.length (n1 + n2) := by
    simp only [List.length_take, List.length_drop]
    omega
  have haround : (src.drop n1).take n2 = [] ∨ rb.writePtr + (src.take n1).length = rb.size := by
    obtain hshort | hlong := Nat.le_total src.length n1
    · rw [List.drop_eq_nil_of_le hshort, List.take_nil]
      exact Or.inl rfl
    · obtain rfl | hn2 := Nat.eq_zero_or_pos n2
      · exact Or.inl (List.take_zero ..)
      · rw [List.length_take_of_le hlong]
        exact Or.inr (hsecond hn2.ne')
  simp only [produce, getWriteVector, vector_eq_split, h.writeSpace_eq, hsplit]
  rw [store, if_pos (by omega), Option.bind_eq_bind, Option.bind_some, store, if_pos (by omega),
    Option.bind_some, ← hsum, ← hlens, List.take_add]
  exact ⟨_, rfl, h.append_around (by omega) haround (by omega), rfl⟩

end Vectors

end JackRing

inductive RingCall
  | readSpace
  | writeSpace
  | read (cnt : ℕ)
  | peek (cnt : ℕ)
  | write (src : List UInt8)
  | consume (cnt : ℕ)
  | produce (src : List UInt8)
  | reset

namespace JackRing

/-- One call: the ring after it, the bytes it hands out and the number it returns. -/
def call (rb : JackRing) : RingCall → Option (JackRing × List UInt8 × ℕ)
  | .readSpace => some (rb, [], rb.readSpace)
  | .writeSpace => some (rb, [], rb.writeSpace)
  | .read cnt => rb.read cnt
  | .peek cnt => (rb.peek cnt).map fun r => (rb, r)
  | .write src => (rb.write src).map fun r => (r.1, [], r.2)
  | .consume cnt => rb.consume cnt
  | .produce src => (rb.produce src).map fun r => (r.1, [], r.2)
  | .reset => some (rb.reset, [], 0)

def callAll (rb : JackRing) : List RingCall → Option (JackRing × List (List UInt8 × ℕ))
  | [] => some (rb, [])
  | c :: calls => do
    let (rb, result) ← rb.call c
    let (rb, results) ← rb.callAll calls
    return (rb, result :: results)

/-- The bytes that a ring made for `sz` can hold. -/
def capacity (sz : ℕ) : ℕ := 2 ^ powerOfTwo sz - 1

end JackRing

namespace ByteQueue

/-- What the same call means for a queue of at most `cap` bytes. -/
def call (cap : ℕ) (q : List UInt8) : RingCall → List UInt8 × List UInt8 × ℕ
  | .readSpace => (q, [], q.length)
  | .writeSpace => (q, [], cap - q.length)
  | .read cnt | .consume cnt => (q.drop cnt, q.take cnt, min cnt q.length)
  | .peek cnt => (q, q.take cnt, min cnt q.length)
  | .write src | .produce src =>
    (q ++ src.take (cap - q.length), [], min src.length (cap - q.length))
  | .reset => ([], [], 0)

def callAll (cap : ℕ) (q : List UInt8) : List RingCall → List UInt8 × List (List UInt8 × ℕ)
  | [] => (q, [])
  | c :: calls =>
    let (q, result) := call cap q c
    let (q, results) := callAll cap q calls
    (q, result :: results)

end ByteQueue

namespace JackRing

section Runs

variable {rb : JackRing} {q : List UInt8}

theorem Represents.reset (h : rb.Represents q) : rb.reset.Represents [] where
  power := h.power
  readPtr_lt := Nat.zero_lt_of_lt h.readPtr_lt
  writePtr_eq := (Nat.zero_mod _).symm
  length_lt := Nat.zero_lt_of_lt h.readPtr_lt
  content := rfl

/-- One call does to the ring what it means for the queue. -/
theorem Represents.call (h : rb.Represents q) (c : RingCall) :
    ∃ rb', rb.call c = some (rb', (ByteQueue.call (rb.size - 1) q c).2) ∧
      rb'.Represents (ByteQueue.call (rb.size - 1) q c).1 ∧ rb'.size = rb.size := by
  cases c with
  | readSpace => exact ⟨rb, by rw [JackRing.call, h.readSpace_eq]; rfl, h, rfl⟩
  | writeSpace => exact ⟨rb, by rw [JackRing.call, h.writeSpace_eq]; rfl, h, rfl⟩
  | read cnt => exact h.read_eq cnt
  | peek cnt => exact ⟨rb, by rw [JackRing.call, h.peek_eq]; rfl, h, rfl⟩
  | write src =>
    obtain ⟨rb', hwrite, hrepresents, hsize⟩ := h.write_eq src
    exact ⟨rb', by rw [JackRing.call, hwrite]; rfl, hrepresents, hsize⟩
  | consume cnt => exact h.consume_eq cnt
  | produce src =>
    obtain ⟨rb', hproduce, hrepresents, hsize⟩ := h.produce_eq src
    exact ⟨rb', by rw [JackRing.call, hproduce]; rfl, hrepresents, hsize⟩
  | reset => exact ⟨rb.reset, rfl, h.reset, rfl⟩

theorem Represents.callAll (h : rb.Represents q) (calls : List RingCall) :
    ∃ rb', rb.callAll calls = some (rb', (ByteQueue.callAll (rb.size - 1) q calls).2) ∧
      rb'.Represents (ByteQueue.callAll (rb.size - 1) q calls).1 := by
  induction calls generalizing rb q with
  | nil => exact ⟨rb, rfl, h⟩
  | cons c calls ih =>
    obtain ⟨rb1, hcall, hrepresents, hsize⟩ := h.call c
    obtain ⟨rb2, hcalls, hlast⟩ := ih hrepresents
    rw [hsize] at hcalls hlast
    refine ⟨rb2, ?_, hlast⟩
    rw [JackRing.callAll, hcall, Option.bind_eq_bind, Option.bind_some]
    dsimp only
    rw [hcalls]
    rfl

/-- Whatever is called, and in whichever order, the ring answers as a queue of bytes with a fixed
capacity, one byte less than its memory, and no `memcpy` leaves the memory. -/
theorem callAll_eq_queue (sz : ℕ) (hsz : sz ≤ 2 ^ 30) (garbage : ℕ → UInt8) (calls : List RingCall) :
    sz ≤ capacity sz + 1 ∧
      ∃ rb, (create sz garbage).callAll calls =
        some (rb, (ByteQueue.callAll (capacity sz) [] calls).2) ∧
        rb.Represents (ByteQueue.callAll (capacity sz) [] calls).1 := by
  constructor
  · have hle : sz ≤ 2 ^ powerOfTwo sz := le_powerFrom 30 1 (by omega)
    rw [capacity]
    omega
  · exact (represents_create sz garbage).callAll calls

/-- Five bytes into a ring for four, and then around its end. -/
theorem callAll_eq_queue_around :
    4 ≤ capacity 4 + 1 ∧
      ∃ rb, (create 4 fun _ => 0).callAll
          [.write [1, 2, 3, 4, 5], .read 2, .produce [6, 7, 8], .consume 9] =
        some (rb, (ByteQueue.callAll (capacity 4) []
          [.write [1, 2, 3, 4, 5], .read 2, .produce [6, 7, 8], .consume 9]).2) ∧
        rb.Represents (ByteQueue.callAll (capacity 4) []
          [.write [1, 2, 3, 4, 5], .read 2, .produce [6, 7, 8], .consume 9]).1 :=
  callAll_eq_queue 4 (by decide) _ _

end Runs

end JackRing

end AmpRack

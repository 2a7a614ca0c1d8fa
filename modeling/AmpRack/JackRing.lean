import AmpRack.RingSpans
import Mathlib.Data.Nat.Bitwise

/-!
# The byte ring

`jack_ringbuffer` keeps bytes in a memory whose size is a power of two, between a read and a write
pointer. One byte always stays free, so that equal pointers mean an empty ring. A read or a write
that comes around the end is two calls of `memcpy`; a `memcpy` that would leave the memory is `none`.
-/

namespace AmpRack

open RingSpans

structure JackRing where
  buf : ℕ → UInt8
  writePtr : ℕ
  readPtr : ℕ
  size : ℕ
  sizeMask : ℕ

/-- A span of the memory, as `jack_ringbuffer_data_t` has it. -/
structure RingData where
  pos : ℕ
  len : ℕ
  deriving DecidableEq

namespace JackRing

/-- The loop that looks for the power of two, from `power_of_two` on. `1 << 31` is no `int`. -/
def powerFrom (sz : ℕ) : ℕ → ℕ → ℕ
  | 0, p => p
  | fuel + 1, p => if 2 ^ p < sz then powerFrom sz fuel (p + 1) else p

def powerOfTwo (sz : ℕ) : ℕ := powerFrom sz 30 1

/-- `jack_ringbuffer_create`; the memory is not cleared. -/
def create (sz : ℕ) (garbage : ℕ → UInt8) : JackRing where
  buf := garbage
  writePtr := 0
  readPtr := 0
  size := 2 ^ powerOfTwo sz
  sizeMask := 2 ^ powerOfTwo sz - 1

/-- `jack_ringbuffer_reset`. -/
def reset (rb : JackRing) : JackRing := { rb with readPtr := 0, writePtr := 0 }

/-- `jack_ringbuffer_read_space`. The difference may wrap below zero, and wraps back when the size is
added. -/
def readSpace (rb : JackRing) : ℕ :=
  if rb.readPtr < rb.writePtr then rb.writePtr - rb.readPtr
  else (rb.writePtr + rb.size - rb.readPtr) &&& rb.sizeMask

/-- `jack_ringbuffer_write_space`. -/
def writeSpace (rb : JackRing) : ℕ :=
  if rb.readPtr < rb.writePtr then ((rb.readPtr + rb.size - rb.writePtr) &&& rb.sizeMask) - 1
  else if rb.writePtr < rb.readPtr then rb.readPtr - rb.writePtr - 1
  else rb.size - 1

/-- The lengths of the two calls of `memcpy` for `n` bytes from `ptr` on. -/
def split (rb : JackRing) (ptr n : ℕ) : ℕ × ℕ :=
  if rb.size < ptr + n then (rb.size - ptr, (ptr + n) &&& rb.sizeMask) else (n, 0)

/-- `jack_ringbuffer_peek`; the bytes that are copied to `dest`, and the result. -/
def peek (rb : JackRing) (cnt : ℕ) : Option (List UInt8 × ℕ) :=
  if rb.readSpace = 0 then some ([], 0)
  else do
    let toRead := min cnt rb.readSpace
    let (n1, n2) := rb.split rb.readPtr toRead
    let first ← load rb.size rb.buf rb.readPtr n1
    if n2 = 0 then return (first, toRead)
    let second ← load rb.size rb.buf ((rb.readPtr + n1) &&& rb.sizeMask) n2
    return (first ++ second, toRead)

/-- `jack_ringbuffer_read`. -/
def read (rb : JackRing) (cnt : ℕ) : Option (JackRing × List UInt8 × ℕ) :=
  if rb.readSpace = 0 then some (rb, [], 0)
  else do
    let toRead := min cnt rb.readSpace
    let (n1, n2) := rb.split rb.readPtr toRead
    let first ← load rb.size rb.buf rb.readPtr n1
    let rb := { rb with readPtr := (rb.readPtr + n1) &&& rb.sizeMask }
    if n2 = 0 then return (rb, first, toRead)
    let second ← load rb.size rb.buf rb.readPtr n2
    return ({ rb with readPtr := (rb.readPtr + n2) &&& rb.sizeMask }, first ++ second, toRead)

/-- `jack_ringbuffer_write` of the bytes of `src`. -/
def write (rb : JackRing) (src : List UInt8) : Option (JackRing × ℕ) :=
  if rb.writeSpace = 0 then some (rb, 0)
  else do
    let toWrite := min src.length rb.writeSpace
    let (n1, n2) := rb.split rb.writePtr toWrite
    let buf ← store rb.size rb.buf rb.writePtr (src.take n1)
    let rb := { rb with buf := buf, writePtr := (rb.writePtr + n1) &&& rb.sizeMask }
    if n2 = 0 then return (rb, toWrite)
    let buf ← store rb.size rb.buf rb.writePtr ((src.drop n1).take n2)
    return ({ rb with buf := buf, writePtr := (rb.writePtr + n2) &&& rb.sizeMask }, toWrite)

/-- `jack_ringbuffer_read_advance`. -/
def readAdvance (rb : JackRing) (cnt : ℕ) : JackRing :=
  { rb with readPtr := (rb.readPtr + cnt) &&& rb.sizeMask }

/-- `jack_ringbuffer_write_advance`. -/
def writeAdvance (rb : JackRing) (cnt : ℕ) : JackRing :=
  { rb with writePtr := (rb.writePtr + cnt) &&& rb.sizeMask }

/-- The two spans that `n` bytes from `ptr` on take. -/
def vector (rb : JackRing) (ptr n : ℕ) : RingData × RingData :=
  if rb.size < ptr + n then (⟨ptr, rb.size - ptr⟩, ⟨0, (ptr + n) &&& rb.sizeMask⟩)
  else (⟨ptr, n⟩, ⟨0, 0⟩)

/-- `jack_ringbuffer_get_read_vector`. -/
def getReadVector (rb : JackRing) : RingData × RingData := rb.vector rb.readPtr rb.readSpace

/-- `jack_ringbuffer_get_write_vector`. -/
def getWriteVector (rb : JackRing) : RingData × RingData := rb.vector rb.writePtr rb.writeSpace

/-- The ring holds the bytes `q`, the oldest first. -/
structure Represents (rb : JackRing) (q : List UInt8) : Prop where
  power : ∃ k, rb.size = 2 ^ k ∧ rb.sizeMask = 2 ^ k - 1
  readPtr_lt : rb.readPtr < rb.size
  writePtr_eq : rb.writePtr = (rb.readPtr + q.length) % rb.size
  length_lt : q.length < rb.size
  content : window rb.size rb.buf rb.readPtr q.length = q

section Space

variable {rb : JackRing} {q : List UInt8}

theorem le_powerFrom {sz : ℕ} (fuel p : ℕ) (h : sz ≤ 2 ^ (p + fuel)) :
    sz ≤ 2 ^ powerFrom sz fuel p := by
  induction fuel generalizing p with
  | zero => exact h
  | succ fuel ih =>
    rw [powerFrom]
    split_ifs with hlt
    · apply ih
      rwa [Nat.add_assoc, Nat.add_comm 1]
    · exact Nat.le_of_not_lt hlt

/-- A power of two is found itself. -/
theorem powerFrom_two_pow {k : ℕ} (fuel p : ℕ) (hp : p ≤ k) (hk : k ≤ p + fuel) :
    powerFrom (2 ^ k) fuel p = k := by
  induction fuel generalizing p with
  | zero => exact Nat.le_antisymm hp hk
  | succ fuel ih =>
    rw [powerFrom]
    split_ifs with hlt
    · have hpk : p < k := (Nat.pow_lt_pow_iff_right (by decide)).mp hlt
      exact ih (p + 1) hpk (by omega)
    · have hkp : k ≤ p := by
        by_contra hn
        exact hlt (Nat.pow_lt_pow_right (by decide) (by omega))
      exact Nat.le_antisymm hp hkp

theorem represents_create (sz : ℕ) (garbage : ℕ → UInt8) : (create sz garbage).Represents [] where
  power := ⟨_, rfl, rfl⟩
  readPtr_lt := Nat.two_pow_pos _
  writePtr_eq := (Nat.zero_mod _).symm
  length_lt := Nat.two_pow_pos _
  content := rfl

theorem Represents.and_mask (h : rb.Represents q) (n : ℕ) : n &&& rb.sizeMask = n % rb.size := by
  obtain ⟨k, hsize, hmask⟩ := h.power
  rw [hsize, hmask, Nat.and_two_pow_sub_one_eq_mod]

theorem Represents.writePtr_lt (h : rb.Represents q) : rb.writePtr < rb.size := by
  rw [h.writePtr_eq]
  exact Nat.mod_lt _ (Nat.zero_lt_of_lt h.readPtr_lt)

theorem Represents.writeAdvance_zero (h : rb.Represents q) : rb.writeAdvance 0 = rb := by
  rw [writeAdvance, Nat.add_zero, h.and_mask, Nat.mod_eq_of_lt h.writePtr_lt]

theorem Represents.readSpace_eq (h : rb.Represents q) : rb.readSpace = q.length := by
  have hr := h.readPtr_lt
  have hw := h.writePtr_eq
  have hlen := h.length_lt
  rw [readSpace, h.and_mask]
  obtain hlt | hge := Nat.lt_or_ge (rb.readPtr + q.length) rb.size
  · rw [Nat.mod_eq_of_lt hlt] at hw
    split_ifs with hptr
    · omega
    · obtain hzero : q.length = 0 := by omega
      rw [hw, hzero, Nat.add_zero, Nat.add_sub_cancel_left, Nat.mod_self]
  · rw [Nat.mod_eq_sub_mod hge, Nat.mod_eq_of_lt (by omega)] at hw
    rw [if_neg (by omega), Nat.mod_eq_of_lt (by omega)]
    omega

theorem Represents.writeSpace_eq (h : rb.Represents q) :
    rb.writeSpace = rb.size - 1 - q.length := by
  have hr := h.readPtr_lt
  have hw := h.writePtr_eq
  have hlen := h.length_lt
  rw [writeSpace, h.and_mask]
  obtain hlt | hge := Nat.lt_or_ge (rb.readPtr + q.length) rb.size
  · rw [Nat.mod_eq_of_lt hlt] at hw
    split_ifs with hptr
    · rw [Nat.mod_eq_of_lt (by omega)]
      omega
    · omega
    · omega
  · rw [Nat.mod_eq_sub_mod hge, Nat.mod_eq_of_lt (by omega)] at hw
    rw [if_neg (by omega)]
    split_ifs
    · omega
    · omega

end Space

section Spans

variable {rb : JackRing} {q : List UInt8} {ptr n : ℕ}

/-- The first span ends inside the memory, and where there is a second one, it ends at the end. -/
theorem Represents.split_spec (h : rb.Represents q) (hptr : ptr < rb.size) (hn : n < rb.size) :
    ∃ n1 n2, rb.split ptr n = (n1, n2) ∧ n1 + n2 = n ∧ ptr + n1 ≤ rb.size ∧
      (n2 ≠ 0 → ptr + n1 = rb.size) := by
  rw [split, h.and_mask]
  split_ifs with hover
  · rw [Nat.mod_eq_sub_mod hover.le, Nat.mod_eq_of_lt (by omega)]
    exact ⟨_, _, rfl, by omega, by omega, by omega⟩
  · exact ⟨_, _, rfl, rfl, by omega, by omega⟩

theorem Represents.load_front (h : rb.Represents q) (hn : n ≤ q.length)
    (hend : rb.readPtr + n ≤ rb.size) : load rb.size rb.buf rb.readPtr n = some (q.take n) := by
  rw [load_window hend, ← take_window hn, h.content]

/-- Moving the read pointer drops the oldest bytes. -/
theorem Represents.readAdvance (h : rb.Represents q) (hn : n ≤ q.length) :
    (rb.readAdvance n).Represents (q.drop n) where
  power := h.power
  readPtr_lt := by
    rw [JackRing.readAdvance, h.and_mask]
    exact Nat.mod_lt _ (Nat.zero_lt_of_lt h.readPtr_lt)
  writePtr_eq := by
    rw [JackRing.readAdvance, h.and_mask, h.writePtr_eq]
    dsimp only
    rw [Nat.mod_add_mod, List.length_drop, Nat.add_assoc, Nat.add_sub_cancel' hn]
  length_lt := by
    rw [List.length_drop]
    exact (Nat.sub_le _ _).trans_lt h.length_lt
  content := by
    rw [JackRing.readAdvance, h.and_mask]
    dsimp only
    rw [window_mod, List.length_drop, ← drop_window hn, h.content]

/-- Bytes that are stored from the write pointer on, and the write pointer moved past them. -/
theorem Represents.append (h : rb.Represents q) (xs : List UInt8)
    (hend : rb.writePtr + xs.length ≤ rb.size) (hroom : q.length + xs.length < rb.size) :
    ({ rb with
      buf := put rb.buf rb.writePtr xs
      writePtr := (rb.writePtr + xs.length) &&& rb.sizeMask } : JackRing).Represents (q ++ xs) where
  power := h.power
  readPtr_lt := h.readPtr_lt
  writePtr_eq := by
    dsimp only
    rw [h.and_mask, h.writePtr_eq, Nat.mod_add_mod, List.length_append, Nat.add_assoc]
  length_lt := by rwa [List.length_append]
  content := window_extend h.content h.writePtr_eq hend hroom.le

end Spans

section Operations

variable {rb : JackRing} {q : List UInt8}

/-- The bytes of the second span, once the read pointer has come to the end. -/
theorem Represents.load_back (h : rb.Represents q) {n m : ℕ} (hnm : n + m ≤ q.length)
    (hend : rb.readPtr + n = rb.size) :
    load rb.size rb.buf ((rb.readPtr + n) &&& rb.sizeMask) m = some ((q.drop n).take m) := by
  have hmoved := h.readAdvance (n := n) (by omega)
  have hzero : (rb.readPtr + n) &&& rb.sizeMask = 0 := by rw [h.and_mask, hend, Nat.mod_self]
  refine hmoved.load_front (n := m) (by rw [List.length_drop]; omega) ?_
  have hlen := h.length_lt
  dsimp only [JackRing.readAdvance]
  omega

theorem take_take_drop (q : List UInt8) {cnt n m : ℕ} (h : n + m = min cnt q.length) :
    q.take n ++ (q.drop n).take m = q.take cnt := by
  rw [← List.take_add, h, ← List.take_eq_take_min]

theorem drop_min_length (q : List UInt8) (cnt : ℕ) : q.drop (min cnt q.length) = q.drop cnt := by
  obtain hcnt | hcnt := Nat.le_total cnt q.length
  · rw [Nat.min_eq_left hcnt]
  · rw [Nat.min_eq_right hcnt, List.drop_length, List.drop_eq_nil_of_le hcnt]

theorem Represents.peek_eq (h : rb.Represents q) (cnt : ℕ) :
    rb.peek cnt = some (q.take cnt, min cnt q.length) := by
  rw [peek, h.readSpace_eq]
  split_ifs with hzero
  · rw [List.length_eq_zero_iff.mp hzero, List.take_nil, List.length_nil, Nat.min_zero]
  · have hle : min cnt q.length ≤ q.length := Nat.min_le_right _ _
    obtain ⟨n1, n2, hsplit, hsum, hend, hsecond⟩ :=
      h.split_spec h.readPtr_lt (hle.trans_lt h.length_lt)
    simp only [hsplit]
    rw [h.load_front (by omega) hend, Option.bind_eq_bind, Option.bind_some, ← take_take_drop q hsum]
    split_ifs with hn2
    · rw [hn2, List.take_zero, List.append_nil]
      rfl
    · rw [h.load_back (by omega) (hsecond hn2), Option.bind_some]
      rfl

/-- `jack_ringbuffer_read` takes the oldest bytes, as many as there are up to the count. -/
theorem Represents.read_eq (h : rb.Represents q) (cnt : ℕ) :
    ∃ rb', rb.read cnt = some (rb', q.take cnt, min cnt q.length) ∧
      rb'.Represents (q.drop cnt) ∧ rb'.size = rb.size := by
  rw [read, h.readSpace_eq]
  split_ifs with hzero
  · have hnil := List.length_eq_zero_iff.mp hzero
    subst hnil
    exact ⟨rb, by rw [List.take_nil, List.length_nil, Nat.min_zero], by rwa [List.drop_nil], rfl⟩
  · have hle : min cnt q.length ≤ q.length := Nat.min_le_right _ _
    obtain ⟨n1, n2, hsplit, hsum, hend, hsecond⟩ :=
      h.split_spec h.readPtr_lt (hle.trans_lt h.length_lt)
    simp only [hsplit]
    have hfirst : (rb.readAdvance n1).Represents (q.drop n1) := h.readAdvance (by omega)
    rw [h.load_front (by omega) hend, Option.bind_eq_bind, Option.bind_some, ← take_take_drop q hsum]
    rw [← drop_min_length q cnt, ← hsum]
    split_ifs with hn2
    · rw [hn2, List.take_zero, List.append_nil]
      exact ⟨rb.readAdvance n1, rfl, hfirst, rfl⟩
    · rw [h.load_back (by omega) (hsecond hn2), Option.bind_some]
      refine ⟨(rb.readAdvance n1).readAdvance n2, rfl, ?_, rfl⟩
      rw [← List.drop_drop]
      exact hfirst.readAdvance (by rw [List.length_drop]; omega)

/-- `jack_ringbuffer_write` appends the bytes, as many as there is room for. -/
theorem Represents.write_eq (h : rb.Represents q) (src : List UInt8) :
    ∃ rb', rb.write src = some (rb', min src.length (rb.size - 1 - q.length)) ∧
      rb'.Represents (q ++ src.take (rb.size - 1 - q.length)) ∧ rb'.size = rb.size := by
  have hlen := h.length_lt
  rw [write, h.writeSpace_eq]
  split_ifs with hzero
  · refine ⟨rb, by rw [hzero, Nat.min_zero], ?_, rfl⟩
    rwa [hzero, List.take_zero, List.append_nil]
  · obtain ⟨n1, n2, hsplit, hsum, hend, hsecond⟩ := h.split_spec h.writePtr_lt
      (show min src.length (rb.size - 1 - q.length) < rb.size by omega)
    simp only [hsplit]
    have hlen1 : (src.take n1).length = n1 := List.length_take_of_le (by omega)
    have hlen2 : ((src.drop n1).take n2).length = n2 :=
      List.length_take_of_le (by rw [List.length_drop]; omega)
    have hfirst := h.append (src.take n1) (by omega) (by omega)
    rw [hlen1] at hfirst
    have htake : src.take (rb.size - 1 - q.length) = src.take n1 ++ (src.drop n1).take n2 := by
      rw [← List.take_add, hsum, Nat.min_comm, ← List.take_eq_take_min]
    rw [store, if_pos (by omega), Option.bind_eq_bind, Option.bind_some, htake, ← List.append_assoc]
    split_ifs with hn2
    · rw [hn2, List.take_zero, List.append_nil]
      exact ⟨_, rfl, hfirst, rfl⟩
    · have hzero' : (rb.writePtr + n1) &&& rb.sizeMask = 0 := by
        rw [h.and_mask, hsecond hn2, Nat.mod_self]
      have hboth := hfirst.append ((src.drop n1).take n2)
        (by dsimp only; omega) (by rw [List.length_append]; dsimp only; omega)
      rw [store, if_pos (by omega), Option.bind_some]
      rw [hlen2] at hboth
      exact ⟨_, rfl, hboth, rfl⟩

end Operations

end JackRing

end AmpRack

import AmpRack.VRingBuffer

/-!
# Buffers that circulate

An element of a ring of buffers goes from `for_writer1` to the realtime thread, through `for_reader` to the
receiver, back through `for_writer2`, and so on. None is lost or there twice, because a ring never has to
refuse a pointer: all elements fit into each of the three. That fails for one kind of
`max_num_elements` only, as the byte that a ring keeps free is missing when its size comes out even.
-/

namespace AmpRack

open Custody GuardedRun MachineInts WordBytes

namespace BufferThreads

/-- No element is there twice or `NULL`, and all of them fit into each of the rings. -/
structure Bounds (s : BufferThreads) : Prop where
  nodup : s.allocated.Nodup
  ne_null : ∀ p ∈ s.allocated, p ≠ 0
  count : s.allocated.length = s.vrb.currNumElements + s.increase.elim 0 fun r => r.2
  count_le : s.allocated.length ≤ s.vrb.maxNumElements
  writer1 : 8 * s.vrb.maxNumElements < s.vrb.forWriter1.size
  writer2 : 8 * s.vrb.maxNumElements < s.vrb.forWriter2.size
  reader : 8 * s.vrb.maxNumElements < s.vrb.forReader.size

structure Inv (s : BufferThreads) (c : BufferPlace → List UInt64) : Prop where
  holds : s.Holds c
  bounds : s.Bounds
  used : s.used = true → s.buffer ≠ 0

section Steps

variable {s : BufferThreads} {c : BufferPlace → List UInt64}

theorem Inv.circulates (h : s.Inv c) : s.Circulates := by
  have hnodup : (total c).Nodup := by
    rw [h.holds.total]
    exact Multiset.coe_nodup.mpr h.bounds.nodup
  exact ⟨c, h.holds, nodup_of_total hnodup, fun i j hij => disjoint_of_total hnodup hij⟩

theorem Inv.ne_null_of_mem (h : s.Inv c) {i : BufferPlace} {p : UInt64} (hp : p ∈ c i) : p ≠ 0 := by
  apply h.bounds.ne_null
  rw [← Multiset.mem_coe, ← h.holds.total]
  exact mem_total.mpr ⟨i, hp⟩

/-- A place that an element comes to had room for it. -/
theorem Inv.length_lt (h : s.Inv c) {i j : BufferPlace} {p : UInt64}
    {c' : BufferPlace → List UInt64} (hpass : Passes i j p c c') :
    (c j).length + 1 ≤ s.vrb.maxNumElements := by
  have hle := length_le_card_total c' j
  rw [hpass.total_eq, h.holds.total, Multiset.coe_card] at hle
  rw [← List.length_cons (a := p), ← hpass.target.length_eq]
  exact hle.trans h.bounds.count_le

theorem hold_of_ne {p : UInt64} (hp : p ≠ 0) :
    s.hold p = { s with writing := s.writing ++ [p] } := if_neg hp

/-- The realtime thread takes a buffer that came back. -/
theorem Inv.getWriting (h : s.Inv c) : ∃ s', s.getWriting = some s' ∧ ∃ c', s'.Inv c' := by
  rw [BufferThreads.getWriting]
  split_ifs with hmissed
  · exact ⟨s, rfl, c, h⟩
  · have hring := h.holds.writer2
    cases hc : c .writer2 with
    | nil =>
      rw [hc] at hring
      obtain ⟨rb, hread, hrb, hsize⟩ := hring.readPointer_nil
      rw [hread]
      refine ⟨_, rfl, c, ?_, ?_, h.used⟩
      · exact { h.holds with writer2 := by rw [hc]; exact hrb }
      · exact { h.bounds with writer2 := h.bounds.writer2.trans_eq hsize.symm }
    | cons p ps =>
      rw [hc] at hring
      obtain ⟨rb, hread, hrb, hsize⟩ := hring.readPointer_cons
      have hp : p ≠ 0 := h.ne_null_of_mem (i := .writer2) (by rw [hc]; exact List.mem_cons_self)
      have hpass : Passes .writer2 .writing p c (pass c .writer2 .writing ps p) :=
        passes_pass (by decide) (by rw [hc])
      rw [hread]
      refine ⟨_, rfl, pass c .writer2 .writing ps p, ?_⟩
      simp only [Nat.reduceEqDiff, if_false, hold_of_ne hp]
      refine ⟨?_, ?_, h.used⟩
      · exact { h.holds with
          writer2 := hrb
          writing := congrArg (· ++ [p]) h.holds.writing
          total := hpass.total_eq.trans h.holds.total }
      · exact { h.bounds with writer2 := h.bounds.writer2.trans_eq hsize.symm }

/-- It takes a new one where none came back. -/
theorem Inv.getFresh (h : s.Inv c) : ∃ s', s.getFresh = some s' ∧ ∃ c', s'.Inv c' := by
  rw [BufferThreads.getFresh]
  split_ifs with hmissed
  · have hring := h.holds.writer1
    cases hc : c .writer1 with
    | nil =>
      rw [hc] at hring
      obtain ⟨rb, hread, hrb, hsize⟩ := hring.readPointer_nil
      rw [hread]
      refine ⟨_, rfl, c, ?_, ?_, h.used⟩
      · exact { h.holds with writer1 := by rw [hc]; exact hrb }
      · exact { h.bounds with writer1 := h.bounds.writer1.trans_eq hsize.symm }
    | cons p ps =>
      rw [hc] at hring
      obtain ⟨rb, hread, hrb, hsize⟩ := hring.readPointer_cons
      have hp : p ≠ 0 := h.ne_null_of_mem (i := .writer1) (by rw [hc]; exact List.mem_cons_self)
      have hpass : Passes .writer1 .writing p c (pass c .writer1 .writing ps p) :=
        passes_pass (by decide) (by rw [hc])
      rw [hread]
      refine ⟨_, rfl, pass c .writer1 .writing ps p, ?_⟩
      simp only [hold_of_ne hp]
      refine ⟨?_, ?_, h.used⟩
      · exact { h.holds with
          writer1 := hrb
          writing := congrArg (· ++ [p]) h.holds.writing
          total := hpass.total_eq.trans h.holds.total }
      · exact { h.bounds with writer1 := h.bounds.writer1.trans_eq hsize.symm }
  · exact ⟨s, rfl, c, h⟩

theorem Inv.returnWriting (h : s.Inv c) (i : ℕ) :
    ∃ s', s.returnWriting i = some s' ∧ ∃ c', s'.Inv c' := by
  rw [BufferThreads.returnWriting]
  split_ifs with hmissed
  · exact ⟨s, rfl, c, h⟩
  · cases hi : s.writing[i]? with
    | none => exact ⟨s, rfl, c, h⟩
    | some data =>
      have hperm : (c .writing).Perm (data :: s.writing.eraseIdx i) := by
        obtain ⟨hlt, rfl⟩ := List.getElem?_eq_some_iff.mp hi
        rw [h.holds.writing]
        exact (List.getElem_cons_eraseIdx_perm hlt).symm
      have hpass : Passes .writing .reader data c (pass c .writing .reader (s.writing.eraseIdx i) data) :=
        passes_pass (by decide) hperm
      have hroom := h.length_lt hpass
      obtain ⟨rb, hwrite, hrb, hsize⟩ := h.holds.reader.writePointer_whole data
        (lt_of_le_of_lt (Nat.mul_le_mul_left 8 hroom) h.bounds.reader)
      simp only [hwrite, Option.bind_eq_bind, Option.bind_some]
      refine ⟨_, rfl, pass c .writing .reader (s.writing.eraseIdx i) data, ?_, ?_, h.used⟩
      · exact { h.holds with
          reader := hrb
          writing := rfl
          total := hpass.total_eq.trans h.holds.total
          order := (congrArg (· ++ [data]) h.holds.order).trans (List.append_assoc _ _ _) }
      · exact { h.bounds with reader := h.bounds.reader.trans_eq hsize.symm }

/-- The buffer of the turn: the one that is still there, or the oldest in the ring. -/
theorem Inv.getReading (h : s.Inv c) (hused : s.used = false) (hsome : s.vrb.readingSize ≠ 0) :
    ∃ s', s.getReading = some s' ∧ s'.buffer ≠ 0 ∧ s'.used = false ∧ ∃ c', s'.Inv c' := by
  rw [BufferThreads.getReading]
  split_ifs with hbuffer
  · have hring := h.holds.reader
    cases hc : c .reader with
    | nil =>
      rw [VRingBuffer.readingSize, hring.readSpace_pointers, hc] at hsome
      exact absurd rfl hsome
    | cons p ps =>
      rw [hc] at hring
      obtain ⟨rb, hread, hrb, hsize⟩ := hring.readPointer_cons
      have hp : p ≠ 0 := h.ne_null_of_mem (i := .reader) (by rw [hc]; exact List.mem_cons_self)
      have hnone : s.reading = [] := if_pos hbuffer
      have hpass : Passes .reader .reading p c (pass c .reader .reading ps p) :=
        passes_pass (by decide) (by rw [hc])
      rw [hread]
      refine ⟨_, rfl, hp, hused, pass c .reader .reading ps p, ?_, ?_, fun _ => hp⟩
      · exact { h.holds with
          reader := hrb
          reading := by
            change c .reading ++ [p] = if p = 0 then [] else [p]
            rw [h.holds.reading, hnone, if_neg hp, List.nil_append]
          total := hpass.total_eq.trans h.holds.total
          order := by
            change s.returned = s.received ++ (if s.used then [] else if p = 0 then [] else [p]) ++ ps
            rw [h.holds.order, hused, hc, hnone, if_neg hp, List.append_assoc, List.append_assoc]
            rfl }
      · exact { h.bounds with reader := h.bounds.reader.trans_eq hsize.symm }
  · exact ⟨s, rfl, hbuffer, hused, c, h⟩

theorem Inv.receive (h : s.Inv c) (uses : Bool) : ∃ s', s.receive uses = some s' ∧ ∃ c', s'.Inv c' := by
  rw [BufferThreads.receive]
  by_cases hused : s.used = true
  · rw [if_pos hused]
    exact ⟨s, rfl, c, h⟩
  · rw [if_neg hused]
    by_cases hsize : s.vrb.readingSize = 0
    · rw [if_pos hsize]
      exact ⟨s, rfl, c, h⟩
    · obtain ⟨s', hs', hbuffer, hused', c', h'⟩ := h.getReading (Bool.eq_false_iff.mpr hused) hsize
      rw [if_neg hsize, hs']
      cases uses with
      | false => exact ⟨s', rfl, c', h'⟩
      | true =>
        refine ⟨_, rfl, c', ?_, ?_, fun _ => hbuffer⟩
        · exact { h'.holds with
            order := by
              change s'.returned = (s'.received ++ [s'.buffer]) ++ [] ++ c' .reader
              rw [h'.holds.order, hused', BufferThreads.reading, if_neg hbuffer, List.append_nil]
              rfl }
        · exact { h'.bounds with }

theorem Inv.returnReading (h : s.Inv c) : ∃ s', s.returnReading = some s' ∧ ∃ c', s'.Inv c' := by
  rw [BufferThreads.returnReading]
  split_ifs with hused
  · have hbuffer := h.used hused
    have hreading : c .reading = [s.buffer] := h.holds.reading.trans (if_neg hbuffer)
    have hpass : Passes .reading .writer2 s.buffer c (pass c .reading .writer2 [] s.buffer) :=
      passes_pass (by decide) (by rw [hreading])
    have hroom := h.length_lt hpass
    obtain ⟨rb, hwrite, hrb, hsize⟩ := h.holds.writer2.writePointer_whole s.buffer
      (lt_of_le_of_lt (Nat.mul_le_mul_left 8 hroom) h.bounds.writer2)
    rw [hwrite]
    refine ⟨_, rfl, pass c .reading .writer2 [] s.buffer, ?_, ?_, fun hfalse => (by cases hfalse)⟩
    · exact { h.holds with
        writer2 := hrb
        reading := rfl
        total := hpass.total_eq.trans h.holds.total
        order := by
          change s.returned = s.received ++ [] ++ c .reader
          rw [h.holds.order, if_pos hused] }
    · exact { h.bounds with writer2 := h.bounds.writer2.trans_eq hsize.symm }
  · exact ⟨s, rfl, c, h⟩

theorem length_elements (vrb : VRingBuffer) (dasBuffer : UInt64) (n : ℕ) :
    (vrb.elements dasBuffer n).length = n := by
  rw [VRingBuffer.elements, List.length_map, List.length_range]

theorem clamp_of_fits {vrb : VRingBuffer} {n : ℕ} (h : FitsInt (n + vrb.currNumElements)) :
    vrb.clamp n = some (vrb.clamped n) := if_pos h

theorem beginIncrease_some (hnone : s.increase = none) {n : ℕ}
    (hfits : FitsInt (n + s.vrb.currNumElements)) (hn : s.vrb.clamped n ≠ 0) (dasBuffer : UInt64) :
    s.beginIncrease n (some dasBuffer) =
      some { s with
        increase := some (s.vrb.elements dasBuffer (s.vrb.clamped n), s.vrb.clamped n)
        allocated := s.allocated ++ s.vrb.elements dasBuffer (s.vrb.clamped n) } := by
  unfold BufferThreads.beginIncrease
  rw [hnone, clamp_of_fits hfits]
  exact if_neg hn

theorem clamped_add_le (vrb : VRingBuffer) (n : ℕ) (h : vrb.currNumElements ≤ vrb.maxNumElements) :
    vrb.currNumElements + vrb.clamped n ≤ vrb.maxNumElements := by
  rw [VRingBuffer.clamped]
  split_ifs <;> omega

/-- New elements are those that `vringbuffer_increase_writer1` has to write. -/
theorem Inv.enter (h : s.Inv c) (hnone : s.increase = none) {elements : List UInt64} {n : ℕ}
    (hnodup : elements.Nodup) (hnew : ∀ p ∈ elements, p ≠ 0 ∧ p ∉ s.allocated)
    (hlength : elements.length = n) (hn : s.vrb.currNumElements + n ≤ s.vrb.maxNumElements) :
    Inv { s with increase := some (elements, n), allocated := s.allocated ++ elements }
      (Function.update c .coming elements) := by
  have hcoming : c .coming = [] := by
    rw [h.holds.coming, coming, hnone]
    rfl
  have henters : Enters .coming elements c (Function.update c .coming elements) := by
    constructor
    · rw [Function.update_self, hcoming, List.append_nil]
    · exact fun k hk => Function.update_of_ne hk _ _
  have hcount : s.allocated.length = s.vrb.currNumElements := by
    rw [h.bounds.count, hnone]
    rfl
  have hall : (s.allocated ++ elements).length = s.vrb.currNumElements + n := by
    rw [List.length_append, hcount, hlength]
  refine ⟨?_, ?_, h.used⟩
  · exact { h.holds with
      coming := rfl
      total := by
        rw [henters.total_eq, h.holds.total, Multiset.coe_add]
        exact Multiset.coe_eq_coe.mpr List.perm_append_comm }
  · exact { h.bounds with
      nodup := h.bounds.nodup.append hnodup fun p hold hp => (hnew p hp).2 hold
      ne_null := by
        intro p hp
        rcases List.mem_append.mp hp with hp | hp
        · exact h.bounds.ne_null p hp
        · exact (hnew p hp).1
      count := hall
      count_le := hall.trans_le hn }

theorem Inv.beginIncrease (h : s.Inv c) (n : ℕ) (malloc : Option UInt64)
    (hg : s.IncreaseOk (.increase n malloc)) :
    ∃ s', s.beginIncrease n malloc = some s' ∧ ∃ c', s'.Inv c' := by
  obtain ⟨hfits, hnew⟩ := hg
  by_cases hidle : s.increase.isSome = true ∨ s.vrb.clamped n = 0 ∨ malloc = none
  · have hsame : s.beginIncrease n malloc = some s := by
      rw [BufferThreads.beginIncrease, clamp_of_fits hfits]
      rcases hidle with hbusy | hzero | rfl
      · exact if_pos hbusy
      · simp [hzero]
      · simp
    exact ⟨s, hsame, c, h⟩
  · push Not at hidle
    obtain ⟨hbusy, hn, hmalloc⟩ := hidle
    obtain ⟨dasBuffer, rfl⟩ := Option.ne_none_iff_exists'.mp hmalloc
    have hnone : s.increase = none := Option.not_isSome_iff_eq_none.mp hbusy
    have hcount := h.bounds.count
    rw [hnone, Option.elim_none, Nat.add_zero] at hcount
    have hclamp := clamped_add_le s.vrb n (hcount ▸ h.bounds.count_le)
    obtain ⟨hnodup, hfresh⟩ := hnew dasBuffer rfl
    exact ⟨_, beginIncrease_some hnone hfits hn dasBuffer, _,
      h.enter hnone hnodup hfresh (length_elements _ _ _) hclamp⟩

theorem Inv.store (h : s.Inv c) : ∃ s', s.store = some s' ∧ ∃ c', s'.Inv c' := by
  unfold BufferThreads.store
  have hcoming := h.holds.coming
  have hcount := h.bounds.count
  rw [BufferThreads.coming] at hcoming
  rcases hincrease : s.increase with _ | ⟨_ | ⟨pointer, pointers⟩, n⟩
  · exact ⟨s, rfl, c, h⟩
  · rw [hincrease] at hcoming hcount
    refine ⟨_, rfl, c, ?_, ?_, h.used⟩
    · exact { h.holds with coming := hcoming }
    · exact { h.bounds with count := hcount }
  · rw [hincrease] at hcoming hcount
    have hpass : Passes .coming .writer1 pointer c (pass c .coming .writer1 pointers pointer) :=
      passes_pass (by decide) (by rw [hcoming]; rfl)
    have hroom := h.length_lt hpass
    obtain ⟨rb, hwrite, hrb, hsize⟩ := h.holds.writer1.writePointer_whole pointer
      (lt_of_le_of_lt (Nat.mul_le_mul_left 8 hroom) h.bounds.writer1)
    simp only [hwrite, Option.bind_eq_bind, Option.bind_some]
    refine ⟨_, rfl, pass c .coming .writer1 pointers pointer, ?_, ?_, h.used⟩
    · exact { h.holds with
        writer1 := hrb
        coming := rfl
        total := hpass.total_eq.trans h.holds.total }
    · exact { h.bounds with
        count := hcount
        writer1 := h.bounds.writer1.trans_eq hsize.symm }

/-- Every step of a thread goes through and keeps the invariant. -/
theorem Inv.step (h : s.Inv c) (a : BufferStep) (hg : s.IncreaseOk a) :
    ∃ s', s.step a = .ok s' ∧ ∃ c', s'.Inv c' := by
  have hnext : ∃ s', s.next a = some s' ∧ ∃ c', s'.Inv c' := by
    cases a with
    | getWriting => exact h.getWriting
    | getFresh => exact h.getFresh
    | returnWriting i => exact h.returnWriting i
    | receive uses => exact h.receive uses
    | returnReading => exact h.returnReading
    | increase n malloc => exact h.beginIncrease n malloc hg
    | store => exact h.store
  obtain ⟨s', hs', hinv⟩ := hnext
  exact ⟨s', by rw [BufferThreads.step, hs']; rfl, hinv⟩

end Steps

/-- The threads after `vringbuffer_create`, whose own increase is the first of a run. -/
def create (maxNumElements : ℕ) (elementSize : UInt64) (garbage : ℕ → UInt8) : BufferThreads :=
  { vrb := .create maxNumElements elementSize garbage }

theorem inv_create {max : ℕ} (hsize : 8 * max < 2 ^ JackRing.powerOfTwo (8 * max))
    (elementSize : UInt64) (garbage : ℕ → UInt8) :
    (create max elementSize garbage).Inv fun _ => [] where
  holds := {
    writer1 := JackRing.represents_create _ _
    writer2 := JackRing.represents_create _ _
    reader := JackRing.represents_create _ _
    coming := rfl
    writing := rfl
    reading := rfl
    total := total_eq_zero fun _ => rfl
    order := rfl }
  bounds := {
    nodup := List.nodup_nil
    ne_null := fun p hp => (by cases hp)
    count := rfl
    count_le := Nat.zero_le _
    writer1 := hsize
    writer2 := hsize
    reader := hsize }
  used := fun h => (by cases h)

section Torn

variable {s : BufferThreads} {q : List UInt8}

/-- What did not fit is not made up for by what comes behind it. -/
theorem take_append_take {n : ℕ} (hq : q.length ≤ n) (x y : List UInt8) :
    (q ++ x.take (n - q.length) ++ y).take n = (q ++ (x ++ y)).take n := by
  have hfirst : q ++ x.take (n - q.length) = (q ++ x).take n := by
    rw [List.take_append, List.take_of_length_le hq]
  have hleft : n - ((q ++ x).take n).length = n - (q ++ x).length := by
    rw [List.length_take]
    omega
  rw [hfirst, ← List.append_assoc, List.take_append, List.take_take, Nat.min_self, hleft,
    ← List.take_append]

/-- Pointers that are stored go into `for_writer1` as far as there is room for their bytes. -/
theorem run_store (n : ℕ) (ps : List UInt64) (hs : s.increase = some (ps, n))
    (hq : s.vrb.forWriter1.Represents q) :
    ∃ s', run step s (List.replicate ps.length .store) = .ok s' ∧
      s'.vrb.forWriter1.Represents ((q ++ ps.flatMap pointerBytes).take (s.vrb.forWriter1.size - 1)) := by
  induction ps generalizing s q with
  | nil =>
    have hlt := hq.length_lt
    refine ⟨s, rfl, ?_⟩
    rwa [List.flatMap_nil, List.append_nil, List.take_of_length_le (by omega)]
  | cons p ps ih =>
    have hlt := hq.length_lt
    obtain ⟨rb, hwrite, hrb, hsize⟩ := hq.writePointer_eq p
    have hstep : s.step .store = .ok { s with
        vrb := { s.vrb with forWriter1 := rb }
        increase := some (ps, n) } := by
      rw [step, next, store, hs]
      simp only [hwrite]
      rfl
    obtain ⟨s', hrun, hs'⟩ := ih (s := { s with
      vrb := { s.vrb with forWriter1 := rb }
      increase := some (ps, n) }) rfl hrb
    refine ⟨s', (run_cons_ok hstep _).trans hrun, ?_⟩
    dsimp only at hs'
    rwa [hsize, take_append_take (by omega), ← List.flatMap_cons] at hs'

theorem clamped_create (max : ℕ) (elementSize : UInt64) (garbage : ℕ → UInt8) :
    (create max elementSize garbage).vrb.clamped max = max := if_neg (lt_irrefl max)

theorem fitsInt_create {max : ℕ} (hmax : 8 * max ≤ 2 ^ 30) (elementSize : UInt64)
    (garbage : ℕ → UInt8) :
    FitsInt (max + (create max elementSize garbage).vrb.currNumElements) := by
  change FitsInt (max + (0 : ℕ))
  constructor <;> omega

/-- The memory that starts at the address 8, with elements of 8 bytes. -/
theorem elements_ok {max : ℕ} (hmax : 8 * max ≤ 2 ^ 30) (garbage : ℕ → UInt8) :
    (create max 8 garbage).IncreaseOk (.increase max (some 8)) := by
  have htoNat : ∀ i < max, (8 + UInt64.ofNat i * 8).toNat = 8 + i * 8 := by
    intro i hi
    rw [UInt64.toNat_add, UInt64.toNat_mul, UInt64.toNat_ofNat']
    change (8 + i % 2 ^ 64 * 8 % 2 ^ 64) % 2 ^ 64 = _
    omega
  refine ⟨fitsInt_create hmax 8 garbage, fun dasBuffer hdas => ?_⟩
  cases hdas
  dsimp only
  rw [clamped_create, VRingBuffer.elements]
  constructor
  · refine List.nodup_range.map_on fun i hi j hj hij => ?_
    have heq := congrArg UInt64.toNat hij
    rw [List.mem_range] at hi hj
    change (8 + UInt64.ofNat i * 8).toNat = (8 + UInt64.ofNat j * 8).toNat at heq
    rw [htoNat i hi, htoNat j hj] at heq
    omega
  · intro p hp
    obtain ⟨i, hi, rfl⟩ := List.mem_map.mp hp
    refine ⟨fun hzero => ?_, List.not_mem_nil⟩
    have heq := congrArg UInt64.toNat hzero
    change (8 + UInt64.ofNat i * 8).toNat = 0 at heq
    rw [htoNat i (List.mem_range.mp hi)] at heq
    omega

/-- Where a ring has no more memory than the pointers of all elements take, the byte that stays free is
missing when all of them are stored. -/
theorem not_circulates_of_size {max : ℕ} (hmax : 8 * max ≤ 2 ^ 30) (hpos : 0 < max)
    (hsize : 2 ^ JackRing.powerOfTwo (8 * max) = 8 * max) (garbage : ℕ → UInt8) :
    ∃ steps, Admits step IncreaseOk (create max 8 garbage) steps ∧
      ¬ Always step Circulates (create max 8 garbage) steps := by
  have hok := elements_ok hmax garbage
  have hclamp := clamped_create max 8 garbage
  obtain ⟨ps, hps⟩ : ∃ ps, (create max 8 garbage).vrb.elements 8 max = ps := ⟨_, rfl⟩
  have hlength : ps.length = max := hps ▸ length_elements _ _ _
  have hbegin : (create max 8 garbage).step (.increase max (some 8)) =
      .ok { create max 8 garbage with increase := some (ps, max), allocated := ps } := by
    rw [step, next, beginIncrease_some rfl (fitsInt_create hmax 8 garbage)
      (by rw [hclamp]; exact hpos.ne'), hclamp, hps]
    rfl
  refine ⟨.increase max (some 8) :: List.replicate ps.length .store, ?_, ?_⟩
  · refine (admits_cons _ _ _).mpr ⟨hok, fun s' _ bs a hprefix t _ => ?_⟩
    have hmem : a ∈ List.replicate ps.length BufferStep.store :=
      hprefix.subset (List.mem_append_right bs List.mem_cons_self)
    rw [List.eq_of_mem_replicate hmem]
    trivial
  · intro halways
    obtain ⟨s', hrun, hs'⟩ := run_store
      (s := { create max 8 garbage with increase := some (ps, max), allocated := ps })
      max ps rfl (JackRing.represents_create _ _)
    obtain ⟨c, hholds, -⟩ := halways.last ((run_cons_ok hbegin _).trans hrun)
    have hbytes := hs'.readSpace_eq
    rw [hholds.writer1.readSpace_eq, length_pointers, List.nil_append, List.length_take,
      length_pointers, hlength] at hbytes
    have hring : (create max 8 garbage).vrb.forWriter1.size = 8 * max := hsize
    dsimp only at hbytes
    rw [hring] at hbytes
    omega

end Torn

/-- The rings have room for all pointers, with a byte to spare, unless `max` is a power of two. -/
theorem size_iff {max : ℕ} (hmax : 8 * max ≤ 2 ^ 30) :
    8 * max < 2 ^ JackRing.powerOfTwo (8 * max) ↔ ∀ k, max ≠ 2 ^ k := by
  constructor
  · rintro hlt k rfl
    have hpow : 8 * 2 ^ k = 2 ^ (k + 3) := by ring
    rw [hpow] at hlt hmax
    have hk : k + 3 ≤ 30 := (Nat.pow_le_pow_iff_right (by decide)).mp hmax
    rw [JackRing.powerOfTwo, JackRing.powerFrom_two_pow 30 1 (by omega) (by omega)] at hlt
    exact lt_irrefl _ hlt
  · intro hne
    have hle : 8 * max ≤ 2 ^ JackRing.powerOfTwo (8 * max) := JackRing.le_powerFrom 30 1 (by omega)
    refine lt_of_le_of_ne hle fun heq => ?_
    obtain hsmall | ⟨k, hk⟩ : JackRing.powerOfTwo (8 * max) < 3 ∨
        ∃ k, JackRing.powerOfTwo (8 * max) = 3 + k := by
      obtain hlt | hge := Nat.lt_or_ge (JackRing.powerOfTwo (8 * max)) 3
      · exact Or.inl hlt
      · exact Or.inr (Nat.exists_eq_add_of_le hge)
    · have hlt : 2 ^ JackRing.powerOfTwo (8 * max) < 2 ^ 3 := Nat.pow_lt_pow_right (by decide) hsmall
      have hpos : 0 < 2 ^ JackRing.powerOfTwo (8 * max) := Nat.two_pow_pos _
      omega
    · rw [hk, Nat.pow_add] at heq
      exact hne k (Nat.eq_of_mul_eq_mul_left (by decide) heq)

/-- Whatever the three threads do and in whatever order, every buffer is at exactly one place and reaches
the callback in its turn, for all numbers of elements but the powers of two: with such a number a pointer
is torn when all elements are in one ring. -/
theorem circulates_iff (max : ℕ) (hmax : 8 * max ≤ 2 ^ 30) :
    (∀ elementSize garbage steps, Admits step IncreaseOk (create max elementSize garbage) steps →
      Always step Circulates (create max elementSize garbage) steps) ↔
    ∀ k, max ≠ 2 ^ k := by
  rw [← size_iff hmax]
  constructor
  · intro hall
    have hle : 8 * max ≤ 2 ^ JackRing.powerOfTwo (8 * max) := JackRing.le_powerFrom 30 1 (by omega)
    obtain hlt | heq := lt_or_eq_of_le hle
    · exact hlt
    · have hpos : 0 < max := by
        have htwo : 0 < 2 ^ JackRing.powerOfTwo (8 * max) := Nat.two_pow_pos _
        omega
      obtain ⟨steps, hadmits, hnot⟩ := not_circulates_of_size hmax hpos heq.symm fun _ => 0
      exact absurd (hall 8 _ steps hadmits) hnot
  · intro hsize elementSize garbage steps hadmits
    have hstart : ∃ c, (create max elementSize garbage).Inv c := ⟨_, inv_create hsize _ _⟩
    have hinv : Always step (fun s => ∃ c, s.Inv c) (create max elementSize garbage) steps :=
      always_of_admits (fun s a ⟨c, h⟩ ha => h.step a ha) hstart hadmits
    exact hinv.mono fun s ⟨c, h⟩ => h.circulates

/-- Forty seconds at 48000 samples a second are 5000 buffers of 384 samples. -/
theorem circulates_iff_forty_seconds :
    (∀ elementSize garbage steps, Admits step IncreaseOk (create 5000 elementSize garbage) steps →
      Always step Circulates (create 5000 elementSize garbage) steps) ↔ ∀ k, 5000 ≠ 2 ^ k :=
  circulates_iff 5000 (by decide)

end BufferThreads

end AmpRack

import AmpRack.JackRing

/-!
# Two threads on the byte ring

One thread writes, another reads. Each copies byte by byte, and moves its own pointer only after a
`memcpy` is through; the other pointer it reads once, when its call begins. The steps of the two
threads may come in any order.
-/

namespace AmpRack

open RingSpans

/-- A call of `jack_ringbuffer_write` on its way: the bytes of this `memcpy` that are copied, those
that are left, and the bytes of the second `memcpy`. -/
structure WriteCall where
  copied : ℕ
  left : List UInt8
  next : List UInt8

/-- A call of `jack_ringbuffer_read` on its way. -/
structure ReadCall where
  copied : ℕ
  left : ℕ
  next : ℕ

/-- The ring with its two threads. `accepted` are the bytes that calls of `jack_ringbuffer_write` take,
`delivered` those that have been copied to a reader's `dest`. -/
structure RingThreads where
  ring : JackRing
  writer : Option WriteCall := none
  reader : Option ReadCall := none
  accepted : List UInt8 := []
  delivered : List UInt8 := []

inductive RingStep
  /-- The writer calls `jack_ringbuffer_write`. -/
  | write (src : List UInt8)
  | writer
  /-- The reader calls `jack_ringbuffer_read`. -/
  | read (cnt : ℕ)
  | reader

namespace RingThreads

/-- The call looks at the pointers, and cuts the bytes it takes into its two spans. -/
def beginWrite (t : RingThreads) (src : List UInt8) : RingThreads :=
  if t.ring.writeSpace = 0 then t
  else
    let toWrite := min src.length t.ring.writeSpace
    let (n1, n2) := t.ring.split t.ring.writePtr toWrite
    { t with
      writer := some ⟨0, src.take n1, (src.drop n1).take n2⟩
      accepted := t.accepted ++ src.take toWrite }

/-- A byte of a `memcpy`, or the write pointer behind it. -/
def stepWrite (t : RingThreads) (c : WriteCall) : Option RingThreads :=
  match c.left with
  | b :: left => do
    let buf ← store t.ring.size t.ring.buf (t.ring.writePtr + c.copied) [b]
    return { t with ring := { t.ring with buf := buf }, writer := some ⟨c.copied + 1, left, c.next⟩ }
  | [] =>
    some { t with
      ring := t.ring.writeAdvance c.copied
      writer := if c.next = [] then none else some ⟨0, c.next, []⟩ }

def beginRead (t : RingThreads) (cnt : ℕ) : RingThreads :=
  if t.ring.readSpace = 0 then t
  else
    let toRead := min cnt t.ring.readSpace
    let (n1, n2) := t.ring.split t.ring.readPtr toRead
    { t with reader := some ⟨0, n1, n2⟩ }

def stepRead (t : RingThreads) (c : ReadCall) : Option RingThreads :=
  match c.left with
  | left + 1 => do
    let bytes ← load t.ring.size t.ring.buf (t.ring.readPtr + c.copied) 1
    return { t with delivered := t.delivered ++ bytes, reader := some ⟨c.copied + 1, left, c.next⟩ }
  | 0 =>
    some { t with
      ring := t.ring.readAdvance c.copied
      reader := if c.next = 0 then none else some ⟨0, c.next, 0⟩ }

/-- A thread that is in a call makes no other, and one that is in none has no step to do. A `memcpy`
that leaves the memory is `none`. -/
def step (t : RingThreads) : RingStep → Option RingThreads
  | .write src => some (if t.writer.isNone then t.beginWrite src else t)
  | .writer =>
    match t.writer with
    | none => some t
    | some c => t.stepWrite c
  | .read cnt => some (if t.reader.isNone then t.beginRead cnt else t)
  | .reader =>
    match t.reader with
    | none => some t
    | some c => t.stepRead c

def run (t : RingThreads) (steps : List RingStep) : Option RingThreads := steps.foldlM step t

/-- The bytes that the writer has taken but not yet copied. -/
def pending (t : RingThreads) : List UInt8 := t.writer.elim [] fun c => c.left ++ c.next

/-- What is left of a span ends inside the memory, and at its end where another span follows. -/
structure SpanFits (size ptr left next : ℕ) : Prop where
  le : ptr + left ≤ size
  eq : next ≠ 0 → ptr + left = size

/-- How far the writer has come, with `copied` behind the write pointer. -/
def WriterAt (writer : Option WriteCall) (writePtr size : ℕ) (copied : List UInt8) : Prop :=
  match writer with
  | none => copied = []
  | some c => copied.length = c.copied ∧
    SpanFits size (writePtr + c.copied) c.left.length c.next.length

/-- How far the reader has come, with `taken` behind the read pointer and `published` before it. -/
def ReaderAt (reader : Option ReadCall) (readPtr size : ℕ)
    (taken published delivered : List UInt8) : Prop :=
  match reader with
  | none => delivered = taken
  | some c => delivered = taken ++ published.take c.copied ∧
    c.copied + c.left + c.next ≤ published.length ∧
    SpanFits size (readPtr + c.copied) c.left c.next

/-- The bytes `taken` have been read and left behind, `published` stand between the pointers, `copied`
behind the write pointer. Both calls stay inside the spans they cut when they began. -/
structure Inv (t : RingThreads) (taken published copied : List UInt8) : Prop where
  holds : (t.ring.writeAdvance copied.length).Represents (published ++ copied)
  writePtr_eq : t.ring.writePtr = (t.ring.readPtr + published.length) % t.ring.size
  accepted_eq : t.accepted = taken ++ (published ++ copied) ++ t.pending
  room : (published ++ copied).length + t.pending.length < t.ring.size
  writer : WriterAt t.writer t.ring.writePtr t.ring.size copied
  reader : ReaderAt t.reader t.ring.readPtr t.ring.size taken published t.delivered

section Steps

variable {t : RingThreads} {taken published copied : List UInt8}

theorem Inv.and_mask (h : t.Inv taken published copied) (n : ℕ) :
    n &&& t.ring.sizeMask = n % t.ring.size :=
  h.holds.and_mask n

/-- What a call sees is the ring with the published bytes. -/
theorem Inv.represents (h : t.Inv taken published copied) : t.ring.Represents published where
  power := h.holds.power
  readPtr_lt := h.holds.readPtr_lt
  writePtr_eq := h.writePtr_eq
  length_lt := by
    have hlen := h.holds.length_lt
    rw [List.length_append] at hlen
    exact Nat.lt_of_le_of_lt (Nat.le_add_right _ _) hlen
  content := by
    have hcontent := congrArg (List.take published.length) h.holds.content
    rwa [List.take_left' rfl, take_window (by rw [List.length_append]; omega)] at hcontent

theorem Inv.beginWrite (h : t.Inv taken published copied) (hidle : t.writer = none)
    (src : List UInt8) : (t.beginWrite src).Inv taken published copied := by
  have hcopied : copied = [] := by simpa only [WriterAt, hidle] using h.writer
  have hpending : t.pending = [] := by rw [pending, hidle, Option.elim_none]
  have hlen := h.represents.length_lt
  rw [RingThreads.beginWrite, h.represents.writeSpace_eq]
  split_ifs with hfull
  · exact h
  · obtain ⟨n1, n2, hsplit, hsum, hend, hsecond⟩ := h.represents.split_spec h.represents.writePtr_lt
      (show min src.length (t.ring.size - 1 - published.length) < t.ring.size by omega)
    have hlen1 : (src.take n1).length = n1 := List.length_take_of_le (by omega)
    have hlen2 : ((src.drop n1).take n2).length = n2 :=
      List.length_take_of_le (by rw [List.length_drop]; omega)
    simp only [hsplit]
    subst hcopied
    refine ⟨h.holds, h.writePtr_eq, ?_, ?_, ⟨rfl, ?_, ?_⟩, h.reader⟩
    · have haccepted := h.accepted_eq
      rw [hpending, List.append_nil] at haccepted
      dsimp only [pending, Option.elim_some]
      rw [haccepted, ← hsum, List.take_add]
    · dsimp only [pending, Option.elim_some]
      rw [List.append_nil, List.length_append, hlen1, hlen2]
      omega
    · rw [hlen1, Nat.add_zero]
      exact hend
    · rw [hlen1, hlen2, Nat.add_zero]
      exact hsecond

theorem Inv.beginRead (h : t.Inv taken published copied) (hidle : t.reader = none) (cnt : ℕ) :
    (t.beginRead cnt).Inv taken published copied := by
  have hdelivered : t.delivered = taken := by simpa only [ReaderAt, hidle] using h.reader
  have hlen := h.represents.length_lt
  rw [RingThreads.beginRead, h.represents.readSpace_eq]
  split_ifs with hnone
  · exact h
  · obtain ⟨n1, n2, hsplit, hsum, hend, hsecond⟩ := h.represents.split_spec h.represents.readPtr_lt
      (show min cnt published.length < t.ring.size by omega)
    simp only [hsplit]
    refine ⟨h.holds, h.writePtr_eq, h.accepted_eq, h.room, h.writer, ?_, ?_, ?_, ?_⟩
    · rw [List.take_zero, List.append_nil, hdelivered]
    · dsimp only
      omega
    · rw [Nat.add_zero]
      exact hend
    · rw [Nat.add_zero]
      exact hsecond

/-- More published bytes do not disturb the reader. -/
theorem ReaderAt.publish {reader : Option ReadCall} {readPtr size : ℕ} {delivered : List UInt8}
    (h : ReaderAt reader readPtr size taken published delivered) (copied : List UInt8) :
    ReaderAt reader readPtr size taken (published ++ copied) delivered := by
  cases reader with
  | none => exact h
  | some c =>
    obtain ⟨hdelivered, hlen, hfits⟩ := h
    refine ⟨?_, ?_, hfits⟩
    · rwa [List.take_append_of_le_length (by omega)]
    · rw [List.length_append]
      omega

/-- The writer copies one byte behind the write pointer. -/
theorem Inv.copyByte (h : t.Inv taken published copied) {n : ℕ} {b : UInt8} {left next : List UInt8}
    (hbusy : t.writer = some ⟨n, b :: left, next⟩) :
    ∃ t', t.stepWrite ⟨n, b :: left, next⟩ = some t' ∧ t'.Inv taken published (copied ++ [b]) := by
  have hwriter := h.writer
  have hroom := h.room
  have haccepted := h.accepted_eq
  rw [pending, hbusy, Option.elim_some] at hroom haccepted
  rw [hbusy] at hwriter
  obtain ⟨hcopied, hle, heq⟩ := hwriter
  dsimp only at hcopied hle heq hroom haccepted
  subst hcopied
  rw [List.length_cons] at hle heq
  rw [List.cons_append, List.length_cons] at hroom
  have hptr : (t.ring.writePtr + copied.length) &&& t.ring.sizeMask =
      t.ring.writePtr + copied.length := by rw [h.and_mask, Nat.mod_eq_of_lt (by omega)]
  have happend := h.holds.append [b]
    (by simp only [JackRing.writeAdvance, hptr, List.length_singleton]; omega)
    (by simp only [JackRing.writeAdvance, List.length_singleton]; omega)
  simp only [JackRing.writeAdvance, hptr, List.length_singleton] at happend
  have hstep : t.stepWrite ⟨copied.length, b :: left, next⟩ = some { t with
      ring := { t.ring with buf := put t.ring.buf (t.ring.writePtr + copied.length) [b] }
      writer := some ⟨copied.length + 1, left, next⟩ } := by
    have hstore : store t.ring.size t.ring.buf (t.ring.writePtr + copied.length) [b] =
        some (put t.ring.buf (t.ring.writePtr + copied.length) [b]) :=
      if_pos (by rw [List.length_singleton]; omega)
    simp only [RingThreads.stepWrite, hstore, Option.bind_eq_bind, Option.bind_some]
    rfl
  refine ⟨_, hstep, ?_, h.writePtr_eq, ?_, ?_, ⟨?_, ?_, ?_⟩, h.reader⟩
  · rw [List.append_assoc] at happend
    rw [List.length_append]
    exact happend
  · dsimp only [pending, Option.elim_some]
    rw [haccepted]
    simp only [List.append_assoc, List.cons_append, List.nil_append]
  · dsimp only [pending, Option.elim_some]
    rw [← List.append_assoc, List.length_append, List.length_singleton]
    omega
  · rw [List.length_append, List.length_singleton]
  · dsimp only
    omega
  · intro hnext
    have hend := heq hnext
    dsimp only
    omega

/-- The writer moves its pointer past the bytes it has copied. -/
theorem Inv.publish (h : t.Inv taken published copied) {n : ℕ} {next : List UInt8}
    (hbusy : t.writer = some ⟨n, [], next⟩) :
    ∃ t', t.stepWrite ⟨n, [], next⟩ = some t' ∧ t'.Inv taken (published ++ copied) [] := by
  have hwriter := h.writer
  have hroom := h.room
  have haccepted := h.accepted_eq
  rw [pending, hbusy, Option.elim_some] at hroom haccepted
  rw [hbusy] at hwriter
  obtain ⟨hcopied, hle, heq⟩ := hwriter
  dsimp only at hcopied hle heq hroom haccepted
  subst hcopied
  rw [List.nil_append] at hroom haccepted
  rw [List.length_nil, Nat.add_zero] at heq
  have hpending : (if next = [] then none else some (⟨0, next, []⟩ : WriteCall)).elim []
      (fun c => c.left ++ c.next) = next := by
    split_ifs with hnil
    · exact hnil.symm
    · exact List.append_nil next
  refine ⟨_, rfl, ?_, ?_, ?_, ?_, ?_, h.reader.publish copied⟩
  · rw [List.append_nil, List.length_nil, h.holds.writeAdvance_zero]
    exact h.holds
  · exact h.holds.writePtr_eq
  · rw [pending, hpending, List.append_nil]
    exact haccepted
  · rw [pending, hpending, List.append_nil]
    exact hroom
  · dsimp only
    split_ifs with hnil
    · rfl
    · refine ⟨rfl, ?_, fun hne => absurd rfl hne⟩
      have hend := heq (List.length_pos_iff.mpr hnil).ne'
      rw [JackRing.writeAdvance, h.and_mask]
      dsimp only
      rw [hend, Nat.mod_self]
      rw [List.length_append] at hroom
      omega

/-- The reader copies one of the published bytes. -/
theorem Inv.takeByte (h : t.Inv taken published copied) {n left next : ℕ}
    (hbusy : t.reader = some ⟨n, left + 1, next⟩) :
    ∃ t', t.stepRead ⟨n, left + 1, next⟩ = some t' ∧ t'.Inv taken published copied := by
  have hreader := h.reader
  rw [hbusy] at hreader
  obtain ⟨hdelivered, hlen, hle, heq⟩ := hreader
  dsimp only at hdelivered hlen hle heq
  have hptr : (t.ring.readPtr + n) &&& t.ring.sizeMask = t.ring.readPtr + n := by
    rw [h.and_mask, Nat.mod_eq_of_lt (by omega)]
  have hload := (h.represents.readAdvance (n := n) (by omega)).load_front (n := 1)
    (by rw [List.length_drop]; omega)
    (by rw [JackRing.readAdvance, hptr]; dsimp only; omega)
  simp only [JackRing.readAdvance, hptr] at hload
  have hstep : t.stepRead ⟨n, left + 1, next⟩ = some { t with
      delivered := t.delivered ++ (published.drop n).take 1
      reader := some ⟨n + 1, left, next⟩ } := by
    simp only [RingThreads.stepRead, hload, Option.bind_eq_bind, Option.bind_some]
    rfl
  refine ⟨_, hstep, h.holds, h.writePtr_eq, h.accepted_eq, h.room, h.writer, ?_, ?_, ?_, ?_⟩
  · dsimp only
    rw [hdelivered, List.append_assoc, ← List.take_add]
  · dsimp only
    omega
  · dsimp only
    omega
  · intro hnext
    have hend := heq hnext
    dsimp only
    omega

/-- The reader moves its pointer past the bytes it has copied. -/
theorem Inv.release (h : t.Inv taken published copied) {n next : ℕ}
    (hbusy : t.reader = some ⟨n, 0, next⟩) :
    ∃ t', t.stepRead ⟨n, 0, next⟩ = some t' ∧
      t'.Inv (taken ++ published.take n) (published.drop n) copied := by
  have hreader := h.reader
  rw [hbusy] at hreader
  obtain ⟨hdelivered, hlen, hle, heq⟩ := hreader
  dsimp only at hdelivered hlen hle heq
  have hheld : (t.ring.writeAdvance copied.length).readAdvance n =
    (t.ring.readAdvance n).writeAdvance copied.length := rfl
  have hmoved := h.represents.readAdvance (n := n) (by omega)
  have hsplit : published ++ copied = published.take n ++ (published.drop n ++ copied) := by
    rw [← List.append_assoc, List.take_append_drop]
  have hroom := h.room
  rw [List.length_append] at hroom
  refine ⟨_, rfl, ?_, ?_, ?_, ?_, h.writer, ?_⟩
  · rw [← hheld, ← List.drop_append_of_le_length (by omega)]
    exact h.holds.readAdvance (by rw [List.length_append]; omega)
  · exact hmoved.writePtr_eq
  · rw [h.accepted_eq, hsplit, ← List.append_assoc taken]
    rfl
  · rw [List.length_append, List.length_drop]
    show published.length - n + copied.length + t.pending.length < t.ring.size
    omega
  · dsimp only
    split_ifs with hnone
    · exact hdelivered
    · refine ⟨?_, ?_, ?_, fun hne => absurd rfl hne⟩
      · rw [List.take_zero, List.append_nil, hdelivered]
      · rw [List.length_drop]
        dsimp only
        omega
      · have hend := heq hnone
        rw [JackRing.readAdvance, h.and_mask]
        dsimp only
        rw [Nat.add_zero] at hend
        rw [hend, Nat.mod_self]
        omega

theorem Inv.stepWrite (h : t.Inv taken published copied) {c : WriteCall} (hbusy : t.writer = some c) :
    ∃ t' published' copied', t.stepWrite c = some t' ∧ t'.Inv taken published' copied' := by
  obtain ⟨n, left, next⟩ := c
  cases left with
  | nil =>
    obtain ⟨t', hstep, hinv⟩ := h.publish hbusy
    exact ⟨t', _, _, hstep, hinv⟩
  | cons b left =>
    obtain ⟨t', hstep, hinv⟩ := h.copyByte hbusy
    exact ⟨t', _, _, hstep, hinv⟩

theorem Inv.stepRead (h : t.Inv taken published copied) {c : ReadCall} (hbusy : t.reader = some c) :
    ∃ t' taken' published', t.stepRead c = some t' ∧ t'.Inv taken' published' copied := by
  obtain ⟨n, left, next⟩ := c
  cases left with
  | zero =>
    obtain ⟨t', hstep, hinv⟩ := h.release hbusy
    exact ⟨t', _, _, hstep, hinv⟩
  | succ left =>
    obtain ⟨t', hstep, hinv⟩ := h.takeByte hbusy
    exact ⟨t', _, _, hstep, hinv⟩

theorem Inv.step (h : t.Inv taken published copied) (a : RingStep) :
    ∃ t' taken' published' copied', t.step a = some t' ∧ t'.Inv taken' published' copied' := by
  cases a with
  | write src =>
    rw [RingThreads.step]
    split_ifs with hidle
    · exact ⟨_, _, _, _, rfl, h.beginWrite (Option.isNone_iff_eq_none.mp hidle) src⟩
    · exact ⟨_, _, _, _, rfl, h⟩
  | read cnt =>
    rw [RingThreads.step]
    split_ifs with hidle
    · exact ⟨_, _, _, _, rfl, h.beginRead (Option.isNone_iff_eq_none.mp hidle) cnt⟩
    · exact ⟨_, _, _, _, rfl, h⟩
  | writer =>
    rw [RingThreads.step]
    cases hbusy : t.writer with
    | none => exact ⟨_, _, _, _, rfl, h⟩
    | some c =>
      obtain ⟨t', published', copied', hstep, hinv⟩ := h.stepWrite hbusy
      exact ⟨t', _, _, _, hstep, hinv⟩
  | reader =>
    rw [RingThreads.step]
    cases hbusy : t.reader with
    | none => exact ⟨_, _, _, _, rfl, h⟩
    | some c =>
      obtain ⟨t', taken', published', hstep, hinv⟩ := h.stepRead hbusy
      exact ⟨t', _, _, _, hstep, hinv⟩

theorem Inv.run (h : t.Inv taken published copied) (steps : List RingStep) :
    ∃ t' taken' published' copied', t.run steps = some t' ∧ t'.Inv taken' published' copied' := by
  induction steps generalizing t taken published copied with
  | nil => exact ⟨t, _, _, _, rfl, h⟩
  | cons a steps ih =>
    obtain ⟨t1, _, _, _, hstep, h1⟩ := h.step a
    obtain ⟨t2, _, _, _, hrun, h2⟩ := ih h1
    refine ⟨t2, _, _, _, ?_, h2⟩
    rw [RingThreads.run, List.foldlM_cons, hstep]
    exact hrun

/-- What the reader has is a part of the front of what the writer took. -/
theorem Inv.delivered_isPrefix (h : t.Inv taken published copied) : t.delivered <+: t.accepted := by
  have hreader := h.reader
  rw [h.accepted_eq, List.append_assoc]
  cases hbusy : t.reader with
  | none =>
    rw [hbusy] at hreader
    rw [show t.delivered = taken from hreader]
    exact List.prefix_append _ _
  | some c =>
    rw [hbusy] at hreader
    rw [hreader.1]
    apply (List.prefix_append_right_inj taken).mpr
    rw [List.append_assoc]
    exact (List.take_prefix c.copied published).trans (List.prefix_append _ _)

end Steps

def start (sz : ℕ) (garbage : ℕ → UInt8) : RingThreads := { ring := JackRing.create sz garbage }

theorem inv_start (sz : ℕ) (garbage : ℕ → UInt8) : (start sz garbage).Inv [] [] [] where
  holds := by
    have hempty := JackRing.represents_create sz garbage
    rw [List.append_nil, List.length_nil, start, hempty.writeAdvance_zero]
    exact hempty
  writePtr_eq := (Nat.zero_mod _).symm
  accepted_eq := rfl
  room := Nat.two_pow_pos _
  writer := rfl
  reader := rfl

/-- In whatever order the two threads take their steps: every `memcpy` stays in the memory, the bytes
the reader gets are the first ones that the writer took, in their order and unchanged, and when both
threads rest, all the other ones stand in the ring. -/
theorem run_delivers (sz : ℕ) (garbage : ℕ → UInt8) (steps : List RingStep) :
    ∃ t, (start sz garbage).run steps = some t ∧ t.delivered <+: t.accepted ∧
      (t.writer = none → t.reader = none →
        t.ring.Represents (t.accepted.drop t.delivered.length)) := by
  obtain ⟨t, taken, published, copied, hrun, hinv⟩ := (inv_start sz garbage).run steps
  refine ⟨t, hrun, hinv.delivered_isPrefix, fun hwriter hreader => ?_⟩
  have hcopied : copied = [] := by simpa only [WriterAt, hwriter] using hinv.writer
  have hdelivered : t.delivered = taken := by simpa only [ReaderAt, hreader] using hinv.reader
  have haccepted := hinv.accepted_eq
  rw [pending, hwriter, Option.elim_none, hcopied, List.append_nil, List.append_nil] at haccepted
  rw [haccepted, hdelivered, List.drop_left]
  exact hinv.represents

end RingThreads

end AmpRack

import AmpRack.BoundedWriter
import AmpRack.MachineInts

/-!
# The messages of the host

`AmpAtom` writes a message into an atom port with the LV2 forge, which is code of its own: a forge
here is any state with the calls the host makes. What the host relies on is `Forge.Lawful`.
-/

namespace AmpRack

open BoundedWriter MachineInts

def sizeofAtom : ℕ := 8

def sizeofAtomSequence : ℕ := 16

/-- The calls of the forge that write. -/
inductive ForgeCall
  | sequenceHead (unit : ℕ)
  | frameTime (frames : ℤ)
  | object (id otype : ℕ)
  | key (key : ℕ)
  | urid (id : ℕ)
  | path (text : List UInt8) (len : ℕ)
  | pop

namespace ForgeCall

/-- A value and what fills it up to eight bytes. -/
def padded (size : ℕ) : List ℕ := [size, padding 8 size]

/-- The pieces in which a call writes. A path is a header, the text, a zero and the padding. -/
def pieces : ForgeCall → List ℕ
  | sequenceHead _ => padded sizeofAtomSequence
  | frameTime _ => padded 8
  | object _ _ => padded (sizeofAtom + 8)
  | key _ => padded 8
  | urid _ => padded (sizeofAtom + 4)
  | path _ len => [sizeofAtom, len, 1, padding 8 (len + 1)]
  | pop => []

end ForgeCall

/-- The forge of LV2, with the number of bytes it has written since it was given its buffer. -/
structure Forge (σ : Type) where
  init : σ
  setBuffer : σ → ℕ → σ
  call : σ → ForgeCall → σ
  capacity : σ → ℕ
  offset : σ → ℕ

/-- The size of the buffer is kept in 32 bits. A piece that would pass it is refused, with the rest
of its call. -/
structure Forge.Lawful {σ : Type} (F : Forge σ) : Prop where
  capacity_setBuffer : ∀ f size, F.capacity (F.setBuffer f size) = size % 2 ^ 32
  offset_setBuffer : ∀ f size, F.offset (F.setBuffer f size) = 0
  capacity_call : ∀ f c, F.capacity (F.call f c) = F.capacity f
  offset_call : ∀ f c, F.offset (F.call f c) = writeItem (F.capacity f) (F.offset f) c.pieces

/-- A forge that only counts. -/
def Forge.counting : Forge (ℕ × ℕ) where
  init := (0, 0)
  setBuffer _ size := (size % 2 ^ 32, 0)
  call f c := (f.1, writeItem f.1 f.2 c.pieces)
  capacity := Prod.fst
  offset := Prod.snd

theorem Forge.counting_lawful : Forge.counting.Lawful :=
  ⟨fun _ _ => rfl, fun _ _ => rfl, fun _ _ => rfl, fun _ _ => rfl⟩

/-- What `mapURIs` found out. -/
structure HostURIs where
  patchSet : ℕ
  patchProperty : ℕ
  patchValue : ℕ

def strlen (text : List UInt8) : ℕ := (text.takeWhile (· ≠ 0)).length

namespace AmpAtom

variable {σ : Type}

/-- The forge is given more than the size of the port. -/
def start (F : Forge σ) (portSize : ℤ) : σ :=
  F.setBuffer F.init (sizeOfInt (portSize + sizeofAtom))

/-- What stands before the path. -/
def setHead (uris : HostURIs) (uri : ℕ) : List ForgeCall :=
  [.sequenceHead 0, .frameTime 0, .object 1 uris.patchSet, .key uris.patchProperty, .urid uri,
    .key uris.patchValue]

/-- The length that is given with a path has 32 bits. -/
def pathLength (filename : List UInt8) : ℕ := (strlen filename + 1) % 2 ^ 32

def setMessage (uris : HostURIs) (uri : ℕ) (filename : List UInt8) : List ForgeCall :=
  setHead uris uri ++ [.path filename (pathLength filename), .pop]

def resetMessage : List ForgeCall := [.sequenceHead 0, .frameTime 0, .object 1 0, .pop]

/-- `AmpAtom::write_control`; the forge as it leaves it. -/
def writeControl (F : Forge σ) (uris : HostURIs) (portSize : ℤ) (uri : ℕ) (filename : List UInt8) :
    σ :=
  (setMessage uris uri filename).foldl F.call (start F portSize)

/-- `AmpAtom::resetAtom`. -/
def resetAtom (F : Forge σ) (portSize : ℤ) : σ := resetMessage.foldl F.call (start F portSize)

section Run

variable {F : Forge σ}

/-- A run of the forge writes the items of its calls. -/
theorem offset_foldl (hF : F.Lawful) (f : σ) (calls : List ForgeCall) :
    F.offset (calls.foldl F.call f) =
      writeItems (F.capacity f) (F.offset f) (calls.map ForgeCall.pieces) := by
  induction calls generalizing f with
  | nil => rfl
  | cons c calls ih =>
    rw [List.foldl_cons, ih, hF.capacity_call, hF.offset_call, List.map_cons, writeItems_cons]

/-- The forge has eight bytes more than the port. -/
theorem offset_start (hF : F.Lawful) {size : ℕ} (hsize : size < 2 ^ 31) (calls : List ForgeCall) :
    F.offset (calls.foldl F.call (start F size)) =
      writeItems (size + 8) 0 (calls.map ForgeCall.pieces) := by
  have hcapacity : sizeOfInt (size + sizeofAtom) % 2 ^ 32 = size + 8 := by
    unfold sizeOfInt sizeofAtom
    omega
  rw [offset_foldl hF, start, hF.capacity_setBuffer, hF.offset_setBuffer, hcapacity]

/-- An overrun is no longer than that. -/
theorem offset_start_le (hF : F.Lawful) {size : ℕ} (hsize : size < 2 ^ 31)
    (calls : List ForgeCall) : F.offset (calls.foldl F.call (start F size)) ≤ size + 8 := by
  rw [offset_start hF hsize]
  exact writeItems_le (Nat.zero_le _) _

end Run

section Reset

variable {F : Forge σ}

/-- A reset takes 40 bytes. -/
theorem offset_resetAtom (hF : F.Lawful) {size : ℕ} (hsize : size < 2 ^ 31) (hroom : 32 ≤ size) :
    F.offset (resetAtom F size) = 40 := by
  have hsum : (resetMessage.map ForgeCall.pieces).flatten.sum = 40 := by decide
  rw [resetAtom, offset_start hF hsize, writeItems_of_fits (by omega), hsum]

end Reset

section Control

variable {F : Forge σ}

/-- What stands before the path is written whole, or there is no room behind it for a header. -/
theorem setHead_full_or_short (uris : HostURIs) (uri capacity : ℕ) :
    writeItems capacity 0 ((setHead uris uri).map ForgeCall.pieces) = 72 ∨
      capacity < writeItems capacity 0 ((setHead uris uri).map ForgeCall.pieces) + 8 := by
  let front : List ForgeCall :=
    [.sequenceHead 0, .frameTime 0, .object 1 uris.patchSet, .key uris.patchProperty, .urid uri]
  have hsplit : (setHead uris uri).map ForgeCall.pieces =
      front.map ForgeCall.pieces ++ [ForgeCall.padded 8] := rfl
  have hfront : (front.map ForgeCall.pieces).flatten = [16, 0, 8, 0, 16, 0, 8, 0, 12, 4] := rfl
  have hpieces : ∀ n ∈ (front.map ForgeCall.pieces).flatten, n ≤ 16 := by
    rw [hfront]
    decide
  have hsum : (front.map ForgeCall.pieces).flatten.sum = 64 := rfl
  have hkey : ∀ n ∈ ForgeCall.padded 8, n ≤ 8 := by decide
  rw [hsplit, writeItems_append, writeItems_cons]
  rcases writeItems_full_or_short capacity 0 hpieces with hfull | hshort
  · rw [hfull, hsum, Nat.zero_add]
    exact (writeItem_full_or_short capacity 64 (ForgeCall.padded 8)).imp_right
      fun ⟨n, hn, hlt⟩ => hlt.trans_le (Nat.add_le_add_left (hkey n hn) _)
  · exact .inr (lt_writeItem_add (by omega) _)

/-- The path is the last item. -/
theorem offset_writeControl (hF : F.Lawful) {size : ℕ} (hsize : size < 2 ^ 31) (uris : HostURIs)
    (uri : ℕ) (filename : List UInt8) : F.offset (writeControl F uris size uri filename) =
      writeItem (size + 8) (writeItems (size + 8) 0 ((setHead uris uri).map ForgeCall.pieces))
        (ForgeCall.path filename (pathLength filename)).pieces := by
  rw [writeControl, offset_start hF hsize, setMessage, List.map_append, writeItems_append]
  rfl

/-- A message for which the port is not long enough up to the header of the path overruns it. -/
theorem lt_offset_writeControl (hF : F.Lawful) {size : ℕ} (hsize : size < 80) (uris : HostURIs)
    (uri : ℕ) (filename : List UInt8) :
    size < F.offset (writeControl F uris size uri filename) := by
  rw [offset_writeControl hF (by omega)]
  have hpath := le_writeItem (size + 8)
    (writeItems (size + 8) 0 ((setHead uris uri).map ForgeCall.pieces))
    (ForgeCall.path filename (pathLength filename)).pieces
  rcases setHead_full_or_short uris uri (size + 8) with hfull | hshort
  · rw [hfull] at hpath ⊢
    have hheader := lt_writeItem_add (show size + 8 < 72 + 8 + 8 by omega)
      [pathLength filename, 1, padding 8 (pathLength filename + 1)]
    exact Nat.lt_of_add_lt_add_right hheader
  · omega

/-- With the header of the path in the port, the message stays inside exactly when all of it does,
or when the forge refuses the text. -/
theorem offset_writeControl_le_iff (hF : F.Lawful) {size : ℕ} (hlow : 80 ≤ size)
    (hsize : size < 2 ^ 31) (uris : HostURIs) (uri : ℕ) (filename : List UInt8) :
    F.offset (writeControl F uris size uri filename) ≤ size ↔
      80 + alignUp 8 (pathLength filename + 1) ≤ size ∨ size + 8 < 80 + pathLength filename := by
  have hsum : ((setHead uris uri).map ForgeCall.pieces).flatten.sum = 72 := rfl
  have hhead : writeItems (size + 8) 0 ((setHead uris uri).map ForgeCall.pieces) = 72 := by
    rw [writeItems_of_fits (by omega), hsum]
  rw [offset_writeControl hF hsize, hhead]
  generalize pathLength filename = len
  have hpad := padding_lt (a := 8) (by decide) (len + 1)
  rw [← add_padding (by decide)]
  change writeItem (size + 8) 72 (8 :: len :: _) ≤ size ↔ _
  rw [writeItem_of_fit (by omega)]
  by_cases htext : size + 8 < 80 + len
  · rw [writeItem_of_refused htext]
    exact ⟨fun _ => .inr htext, fun _ => hlow⟩
  · rw [writeItem_of_fit (by omega)]
    have hsum : [1, padding 8 (len + 1)].sum = 1 + padding 8 (len + 1) := by
      simp only [List.sum_cons, List.sum_nil, Nat.add_zero]
    by_cases hall : 72 + 8 + len + [1, padding 8 (len + 1)].sum ≤ size + 8
    · rw [writeItem_of_fits hall]
      omega
    · rcases writeItem_full_or_short (size + 8) (72 + 8 + len) [1, padding 8 (len + 1)] with
        hfull | ⟨n, hn, hshort⟩
      · rw [hfull]
        omega
      · -- what is missing is shorter than the eight bytes that the port has not
        have hn8 : n < 8 := by
          rcases List.mem_pair.mp hn with rfl | rfl
          · decide
          · exact hpad
        omega

end Control

end AmpAtom

end AmpRack

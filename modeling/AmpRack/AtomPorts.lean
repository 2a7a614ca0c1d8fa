import AmpRack.AtomForge
import AmpRack.PresetLoader

/-!
# The buffers of the atom ports

`Plugin::load` allocates a buffer for the first atom input of the description and one for the first
atom output. Messages go into both of them. The forge is told the size of the first, and eight bytes
more, whichever it writes into.
-/

namespace AmpRack

open TextScan JsonText BoundedWriter

/-- `malloc`, for which a size below zero is more than there is. -/
def malloc (size : ℤ) : Option ℕ := if size < 0 then none else some size.toNat

/-- The atom ports of a plugin. Of a buffer it is the number of bytes that were allocated. -/
structure AtomPorts where
  filePort : Option ℕ := none
  filePortSize : ℤ := 8192
  notifyPort : Option ℕ := none

/-- What a message took of the buffer it was written into. -/
structure PortWrite where
  allocated : ℕ
  written : ℕ

namespace AtomPorts

section Load

/-- `(int) jsonPort.find ("minimumSize").value ()`. -/
def minimumSize (jsonPort : Json) : Option ℤ := (jsonPort.get? "minimumSize".toList).bind getInt

/-- A second atom input uses the buffer of the first. -/
def allocateFilePort (s : AtomPorts) (jsonPort : Json) : Option AtomPorts :=
  match s.filePort with
  | some _ => some s
  | none => do
    let portSize :=
      ((← minimumSize jsonPort) + sizeofAtomSequence + sizeofAtom + 1).bmod (2 ^ 32)
    let filePort ← malloc portSize
    return { s with filePort := some filePort, filePortSize := portSize }

def allocateNotifyPort (s : AtomPorts) (jsonPort : Json) : Option AtomPorts :=
  match s.notifyPort with
  | some _ => some s
  | none => do
    let notifyPort ← malloc ((← minimumSize jsonPort) + sizeofAtomSequence + sizeofAtom + 1)
    return { s with notifyPort := some notifyPort }

/-- One turn of the loop of `Plugin::load`, of which `LoadedPorts.loadPort` has the audio ports and
the controls; `none` when it throws, and when it writes to a buffer that it was not given. -/
def loadPort (junk : ℕ → Indeterminate) (s : AtomPorts) (el : Text × Json) : Option AtomPorts :=
  if el.1 = "-1".toList then some s
  else do
    let jsonPort ← parse (dump el.2)
    let _ ← (jsonPort.get? "name".toList).bind Json.toText
    let port ← (jsonPort.get? "index".toList).bind Json.toInt
    if jsonPort.contains "AudioPort" then return s
    else if jsonPort.contains "InputPort" && jsonPort.contains "ControlPort" then do
      let _ ← PluginControl.ofJson (junk port.toNat) jsonPort
      return s
    else if jsonPort.contains "OutputPort" && jsonPort.contains "ControlPort" then return s
    else if jsonPort.contains "AtomPort" && jsonPort.contains "InputPort" then do
      let s' ← s.allocateFilePort jsonPort
      let _ ← PluginControl.ofJson (junk port.toNat) jsonPort
      return s'
    else if jsonPort.contains "AtomPort" && jsonPort.contains "OutputPort" then
      s.allocateNotifyPort jsonPort
    else return s

/-- The atom ports as `Plugin::load` leaves them. -/
def load (junk : ℕ → Indeterminate) (j : Json) : Option AtomPorts := do
  let info ← j.get? "-1".toList
  let _ ← (info.get? "pluginName".toList).bind Json.toText
  let _ ← (info.get? "prefix".toList).elim (some []) Json.toText
  match j with
  | .obj members => members.foldlM (loadPort junk) {}
  | _ => return {}

end Load

section Messages

variable {σ : Type}

/-- `Plugin::setAtomPortValue`, for the control with this `urid`. -/
def setAtomPortValue (F : Forge σ) (uris : HostURIs) (s : AtomPorts) (urid : ℕ)
    (text : List UInt8) : List PortWrite :=
  match s.filePort with
  | none => []
  | some size => [⟨size, F.offset (AmpAtom.writeControl F uris s.filePortSize urid text)⟩]

/-- `Plugin::check_notify`. Whether there is a path in the file port is up to what it holds. -/
def checkNotify (F : Forge σ) (s : AtomPorts) (hasFilePath : Bool) : List PortWrite :=
  match s.notifyPort, s.filePort with
  | some notifySize, some size =>
    if hasFilePath then
      [⟨size, F.offset (AmpAtom.resetAtom F s.filePortSize)⟩,
        ⟨notifySize, F.offset (AmpAtom.resetAtom F s.filePortSize)⟩]
    else []
  | _, _ => []

/-- Neither the text nor a reset is written past the end of a buffer. -/
def StaysInside (F : Forge σ) (uris : HostURIs) (s : AtomPorts) (urid : ℕ) (text : List UInt8) :
    Prop :=
  ∀ hasFilePath, ∀ w ∈ s.setAtomPortValue F uris urid text ++ s.checkNotify F hasFilePath,
    w.written ≤ w.allocated

end Messages

section Description

/-- `Plugin::load` takes it for an atom port. -/
def isAtomPort (jsonPort : Json) : Bool :=
  !jsonPort.contains "AudioPort" &&
    !(jsonPort.contains "InputPort" && jsonPort.contains "ControlPort") &&
      !(jsonPort.contains "OutputPort" && jsonPort.contains "ControlPort") &&
        jsonPort.contains "AtomPort"

def isFilePort (jsonPort : Json) : Bool := isAtomPort jsonPort && jsonPort.contains "InputPort"

def isNotifyPort (jsonPort : Json) : Bool :=
  isAtomPort jsonPort && !jsonPort.contains "InputPort" && jsonPort.contains "OutputPort"

/-- The `minimumSize` of a member that is such a port. -/
def sizeOf (kind : Json → Bool) (el : Text × Json) : Option ℤ :=
  if el.1 = "-1".toList then none else ((parse (dump el.2)).filter kind).bind minimumSize

def firstSize (kind : Json → Bool) (members : Members) : Option ℤ :=
  members.findSome? (sizeOf kind)

/-- There is room for a path of this length: for all that is written with it, or for all but the
path. -/
def HasRoom (j : Json) (len : ℕ) : Prop :=
  ∀ m ∈ firstSize isFilePort (membersOf j),
    55 ≤ m ∧ ((alignUp 8 (len + 1) : ℤ) + 55 ≤ m ∨ m < len + 47) ∧
      ∀ n ∈ firstSize isNotifyPort (membersOf j), 15 ≤ n

end Description

section Allocated

variable {junk : ℕ → Indeterminate} {s s' : AtomPorts} {el : Text × Json} {jsonPort j : Json}

/-- The buffer is that of the first such port, 25 bytes longer than it asks for. -/
def BufferOf (kind : Json → Bool) (members : Members) (buffer : Option ℕ) : Prop :=
  buffer.map (fun size : ℕ => (size : ℤ)) = (firstSize kind members).map (· + 25)

/-- What the members up to here have come to. -/
structure Allocated (members : Members) (s : AtomPorts) : Prop where
  file : BufferOf isFilePort members s.filePort
  fileSize : ∀ size ∈ s.filePort, s.filePortSize = size ∧ size < 2 ^ 31
  notify : BufferOf isNotifyPort members s.notifyPort

theorem malloc_eq_some {n : ℤ} {size : ℕ} (h : malloc n = some size) : n = size := by
  unfold malloc at h
  split_ifs at h with hneg
  cases h
  omega

theorem minimumSize_range {m : ℤ} (h : minimumSize jsonPort = some m) :
    -2 ^ 31 ≤ m ∧ m < 2 ^ 31 := by
  obtain ⟨v, -, hv⟩ := Option.bind_eq_some_iff.mp h
  obtain ⟨n, -, rfl⟩ := Option.map_eq_some_iff.mp hv
  rw [Int.bmod_def]
  omega

/-- A buffer is there already, or it is allocated now and its size is kept. -/
theorem allocateFilePort_cases (h : s.allocateFilePort jsonPort = some s') :
    (s.filePort.isSome ∧ s' = s) ∨
      (s.filePort = none ∧ ∃ size : ℕ, minimumSize jsonPort = some ((size : ℤ) - 25) ∧
        size < 2 ^ 31 ∧ s' = { s with filePort := some size, filePortSize := size }) := by
  unfold allocateFilePort at h
  cases hfile : s.filePort with
  | some size =>
    rw [hfile] at h
    exact .inl ⟨rfl, (Option.some.inj h).symm⟩
  | none =>
    rw [hfile] at h
    obtain ⟨m, hm, h⟩ := Option.bind_eq_some_iff.mp h
    obtain ⟨size, hsize, h⟩ := Option.bind_eq_some_iff.mp h
    have hrange := minimumSize_range hm
    have hportSize := malloc_eq_some hsize
    have hm25 : m = (size : ℤ) - 25 ∧ size < 2 ^ 31 := by
      rw [Int.bmod_def] at hportSize
      simp only [sizeofAtomSequence, sizeofAtom] at hportSize
      omega
    refine .inr ⟨rfl, size, hm25.1 ▸ hm, hm25.2, ?_⟩
    rw [← Option.some.inj h, hportSize]

theorem allocateNotifyPort_cases (h : s.allocateNotifyPort jsonPort = some s') :
    (s.notifyPort.isSome ∧ s' = s) ∨
      (s.notifyPort = none ∧ ∃ size : ℕ, minimumSize jsonPort = some ((size : ℤ) - 25) ∧
        s' = { s with notifyPort := some size }) := by
  unfold allocateNotifyPort at h
  cases hnotify : s.notifyPort with
  | some size =>
    rw [hnotify] at h
    exact .inl ⟨rfl, (Option.some.inj h).symm⟩
  | none =>
    rw [hnotify] at h
    obtain ⟨m, hm, h⟩ := Option.bind_eq_some_iff.mp h
    obtain ⟨size, hsize, h⟩ := Option.bind_eq_some_iff.mp h
    have hm25 : m = (size : ℤ) - 25 := by
      have hportSize := malloc_eq_some hsize
      simp only [sizeofAtomSequence, sizeofAtom] at hportSize
      omega
    exact .inr ⟨rfl, size, hm25 ▸ hm, (Option.some.inj h).symm⟩

theorem sizeOf_of_parse (hkey : el.1 ≠ "-1".toList) (hparse : parse (dump el.2) = some jsonPort)
    (kind : Json → Bool) :
    sizeOf kind el = if kind jsonPort then minimumSize jsonPort else none := by
  rw [sizeOf, if_neg hkey, hparse]
  cases hkind : kind jsonPort <;> simp [Option.filter, hkind]

/-- The branches before those of the atom ports were not taken. -/
theorem isAtomPort_of_not (haudio : ¬ jsonPort.contains "AudioPort" = true)
    (hcontrol : ¬ (jsonPort.contains "InputPort" && jsonPort.contains "ControlPort") = true)
    (hmonitor : ¬ (jsonPort.contains "OutputPort" && jsonPort.contains "ControlPort") = true) :
    isAtomPort jsonPort = jsonPort.contains "AtomPort" := by
  rw [Bool.not_eq_true] at haudio hcontrol hmonitor
  rw [isAtomPort, haudio, hcontrol, hmonitor]
  rfl

theorem sizeOf_of_not_isAtomPort (hkey : el.1 ≠ "-1".toList)
    (hparse : parse (dump el.2) = some jsonPort) (h : isAtomPort jsonPort = false) :
    sizeOf isFilePort el = none ∧ sizeOf isNotifyPort el = none := by
  rw [sizeOf_of_parse hkey hparse, sizeOf_of_parse hkey hparse, isFilePort, isNotifyPort, h]
  exact ⟨rfl, rfl⟩

theorem sizeOf_of_filePort (hkey : el.1 ≠ "-1".toList)
    (hparse : parse (dump el.2) = some jsonPort)
    (hatom : isAtomPort jsonPort = jsonPort.contains "AtomPort")
    (hfile : (jsonPort.contains "AtomPort" && jsonPort.contains "InputPort") = true) :
    sizeOf isFilePort el = minimumSize jsonPort ∧ sizeOf isNotifyPort el = none := by
  rw [sizeOf_of_parse hkey hparse, sizeOf_of_parse hkey hparse, isFilePort, isNotifyPort, hatom,
    if_pos hfile, (Bool.and_eq_true_iff.mp hfile).2, Bool.not_true, Bool.and_false]
  exact ⟨rfl, rfl⟩

theorem sizeOf_of_notifyPort (hkey : el.1 ≠ "-1".toList)
    (hparse : parse (dump el.2) = some jsonPort)
    (hatom : isAtomPort jsonPort = jsonPort.contains "AtomPort")
    (hfile : ¬ (jsonPort.contains "AtomPort" && jsonPort.contains "InputPort") = true)
    (hnotify : (jsonPort.contains "AtomPort" && jsonPort.contains "OutputPort") = true) :
    sizeOf isFilePort el = none ∧ sizeOf isNotifyPort el = minimumSize jsonPort := by
  rw [(Bool.and_eq_true_iff.mp hnotify).1, Bool.true_and, Bool.not_eq_true] at hfile
  rw [sizeOf_of_parse hkey hparse, sizeOf_of_parse hkey hparse, isFilePort, isNotifyPort, hatom,
    Bool.and_right_comm, hnotify, hfile, Bool.and_false]
  exact ⟨rfl, rfl⟩

/-- A turn allocates for a port of either kind, and does nothing else. -/
theorem loadPort_cases (h : s.loadPort junk el = some s') :
    (sizeOf isFilePort el = none ∧ sizeOf isNotifyPort el = none ∧ s' = s) ∨
      (∃ jsonPort, s.allocateFilePort jsonPort = some s' ∧
        sizeOf isFilePort el = minimumSize jsonPort ∧ sizeOf isNotifyPort el = none) ∨
        ∃ jsonPort, s.allocateNotifyPort jsonPort = some s' ∧
          sizeOf isFilePort el = none ∧ sizeOf isNotifyPort el = minimumSize jsonPort := by
  unfold loadPort at h
  split_ifs at h with hkey
  · have hnone (kind : Json → Bool) : sizeOf kind el = none := if_pos hkey
    exact .inl ⟨hnone _, hnone _, (Option.some.inj h).symm⟩
  obtain ⟨jsonPort, hparse, h⟩ := Option.bind_eq_some_iff.mp h
  obtain ⟨-, -, h⟩ := Option.bind_eq_some_iff.mp h
  obtain ⟨port, -, h⟩ := Option.bind_eq_some_iff.mp h
  have hother (hatom : isAtomPort jsonPort = false) (h : some s = some s') :
      sizeOf isFilePort el = none ∧ sizeOf isNotifyPort el = none ∧ s' = s := by
    obtain ⟨hfile, hnotify⟩ := sizeOf_of_not_isAtomPort hkey hparse hatom
    exact ⟨hfile, hnotify, (Option.some.inj h).symm⟩
  split_ifs at h with haudio hcontrol hmonitor hfile hnotify
  · exact .inl (hother (by rw [isAtomPort, haudio]; rfl) h)
  · obtain ⟨c, -, h⟩ := Option.bind_eq_some_iff.mp h
    exact .inl (hother (by rw [isAtomPort, hcontrol, Bool.not_true, Bool.and_false]; rfl) h)
  · exact .inl (hother (by rw [isAtomPort, hmonitor, Bool.not_true, Bool.and_false]; rfl) h)
  all_goals have hatom := isAtomPort_of_not haudio hcontrol hmonitor
  · obtain ⟨s₁, hs₁, h⟩ := Option.bind_eq_some_iff.mp h
    obtain ⟨c, -, h⟩ := Option.bind_eq_some_iff.mp h
    rw [← Option.some.inj h]
    exact .inr (.inl ⟨jsonPort, hs₁, sizeOf_of_filePort hkey hparse hatom hfile⟩)
  · exact .inr (.inr ⟨jsonPort, h, sizeOf_of_notifyPort hkey hparse hatom hfile hnotify⟩)
  · rw [Bool.not_eq_true] at hnotify
    rw [sizeOf_of_parse hkey hparse, sizeOf_of_parse hkey hparse, isFilePort, isNotifyPort, hatom,
      if_neg hfile, Bool.and_right_comm, hnotify]
    exact .inl ⟨rfl, rfl, (Option.some.inj h).symm⟩

theorem firstSize_concat (kind : Json → Bool) (members : Members) (el : Text × Json) :
    firstSize kind (members ++ [el]) = (firstSize kind members).or (sizeOf kind el) := by
  rw [firstSize, List.findSome?_append, List.findSome?_singleton]
  rfl

variable {members done rest : Members} {kind : Json → Bool} {buffer : Option ℕ} {size : ℕ}

theorem bufferOf_other (h : BufferOf kind members buffer) (hel : sizeOf kind el = none) :
    BufferOf kind (members ++ [el]) buffer := by
  rw [BufferOf, firstSize_concat, hel, Option.or_none]
  exact h

theorem bufferOf_kept (h : BufferOf kind members buffer) (hsome : buffer.isSome)
    (el : Text × Json) : BufferOf kind (members ++ [el]) buffer := by
  have hfirst : (firstSize kind members).isSome := by
    rw [← Option.isSome_map, ← h, Option.isSome_map]
    exact hsome
  rw [BufferOf, firstSize_concat, Option.or_of_isSome hfirst]
  exact h

theorem bufferOf_new (h : BufferOf kind members none)
    (hel : sizeOf kind el = some ((size : ℤ) - 25)) :
    BufferOf kind (members ++ [el]) (some size) := by
  rw [BufferOf, Option.map_none, eq_comm, Option.map_eq_none_iff] at h
  rw [BufferOf, firstSize_concat, h, Option.none_or, hel, Option.map_some, Option.map_some,
    Int.sub_add_cancel]

/-- A bound on the size of a buffer is one on what the port asks for. -/
theorem forall_mem_bufferOf (h : BufferOf kind members buffer) {p : ℕ → Prop} {q : ℤ → Prop}
    (hpq : ∀ size : ℕ, p size ↔ q ((size : ℤ) - 25)) :
    (∀ size ∈ buffer, p size) ↔ ∀ m ∈ firstSize kind members, q m := by
  rw [BufferOf] at h
  cases hbuffer : buffer with
  | none =>
    rw [hbuffer, Option.map_none, eq_comm, Option.map_eq_none_iff] at h
    rw [h]
    constructor <;> rintro - _ ⟨⟩
  | some size =>
    rw [hbuffer, Option.map_some, eq_comm] at h
    obtain ⟨m, hm, hsize⟩ := Option.map_eq_some_iff.mp h
    have hm25 : m = (size : ℤ) - 25 := by omega
    rw [hm]
    simp only [Option.mem_def, Option.some.injEq, forall_eq']
    rw [hpq, hm25]

theorem allocated_step (hs : Allocated members s) (h : s.loadPort junk el = some s') :
    Allocated (members ++ [el]) s' := by
  obtain ⟨hfile, hfileSize, hnotify⟩ := hs
  rcases loadPort_cases h with ⟨hf, hn, rfl⟩ | ⟨jsonPort, hs', hf, hn⟩ | ⟨jsonPort, hs', hf, hn⟩
  · exact ⟨bufferOf_other hfile hf, hfileSize, bufferOf_other hnotify hn⟩
  · rcases allocateFilePort_cases hs' with ⟨hsome, rfl⟩ | ⟨hnone, size, hsize, hlt, rfl⟩
    · exact ⟨bufferOf_kept hfile hsome el, hfileSize, bufferOf_other hnotify hn⟩
    · rw [hnone] at hfile
      refine ⟨bufferOf_new hfile (hf.trans hsize), ?_, bufferOf_other hnotify hn⟩
      rintro _ ⟨⟩
      exact ⟨rfl, hlt⟩
  · rcases allocateNotifyPort_cases hs' with ⟨hsome, rfl⟩ | ⟨hnone, size, hsize, rfl⟩
    · exact ⟨bufferOf_other hfile hf, hfileSize, bufferOf_kept hnotify hsome el⟩
    · rw [hnone] at hnotify
      exact ⟨bufferOf_other hfile hf, hfileSize, bufferOf_new hnotify (hn.trans hsize)⟩

theorem allocated_foldlM (hs : Allocated done s) (h : rest.foldlM (loadPort junk) s = some s') :
    Allocated (done ++ rest) s' := by
  induction rest generalizing done s with
  | nil =>
    rw [List.append_nil, ← Option.some.inj h]
    exact hs
  | cons el rest ih =>
    rw [List.foldlM_cons] at h
    obtain ⟨s₁, hs₁, h⟩ := Option.bind_eq_some_iff.mp h
    rw [← List.singleton_append, ← List.append_assoc]
    exact ih (allocated_step hs hs₁) h

/-- The buffers that `Plugin::load` allocates. -/
theorem allocated_load (h : load junk j = some s) : Allocated (membersOf j) s := by
  have hinit : Allocated [] {} := ⟨rfl, fun _ hsize => (by cases hsize), rfl⟩
  unfold load at h
  obtain ⟨info, -, h⟩ := Option.bind_eq_some_iff.mp h
  obtain ⟨-, -, h⟩ := Option.bind_eq_some_iff.mp h
  obtain ⟨-, -, h⟩ := Option.bind_eq_some_iff.mp h
  cases j with
  | obj members => exact allocated_foldlM hinit h
  | _ =>
    rw [← Option.some.inj h]
    exact hinit

end Allocated

section Exists

variable {junk : ℕ → Indeterminate} {el : Text × Json} {jsonPort j : Json} {t t' : LoadedPorts}

/-- The port asks for a size that `malloc` can be asked for. -/
def Allocatable (el : Text × Json) : Prop :=
  ∀ m, sizeOf isFilePort el = some m ∨ sizeOf isNotifyPort el = some m →
    0 ≤ m + 25 ∧ m + 25 < 2 ^ 31

theorem malloc_of_nonneg {n : ℤ} (h : 0 ≤ n) : malloc n = some n.toNat := if_neg h.not_gt

theorem exists_allocateFilePort {m : ℤ} (hm : minimumSize jsonPort = some m)
    (h : 0 ≤ m + 25 ∧ m + 25 < 2 ^ 31) (s : AtomPorts) :
    ∃ s', s.allocateFilePort jsonPort = some s' := by
  unfold allocateFilePort
  cases s.filePort with
  | some size => exact ⟨s, rfl⟩
  | none =>
    have hsize : (m + sizeofAtomSequence + sizeofAtom + 1).bmod (2 ^ 32) = m + 25 := by
      rw [Int.bmod_def]
      simp only [sizeofAtomSequence, sizeofAtom]
      omega
    simp only [hm, Option.bind_eq_bind, Option.bind_some]
    rw [hsize, malloc_of_nonneg h.1]
    exact ⟨_, rfl⟩

theorem exists_allocateNotifyPort {m : ℤ} (hm : minimumSize jsonPort = some m)
    (h : 0 ≤ m + 25) (s : AtomPorts) : ∃ s', s.allocateNotifyPort jsonPort = some s' := by
  unfold allocateNotifyPort
  cases s.notifyPort with
  | some size => exact ⟨s, rfl⟩
  | none =>
    have hsize : (0 : ℤ) ≤ m + sizeofAtomSequence + sizeofAtom + 1 := by
      simp only [sizeofAtomSequence, sizeofAtom]
      omega
    simp only [hm, Option.bind_eq_bind, Option.bind_some]
    rw [malloc_of_nonneg hsize]
    exact ⟨_, rfl⟩

theorem minimumSize_of_toInt {n : ℤ}
    (h : (jsonPort.get? "minimumSize".toList).bind Json.toInt = some n) :
    minimumSize jsonPort = some (n.bmod (2 ^ 32)) := by
  obtain ⟨v, hv, hn⟩ := Option.bind_eq_some_iff.mp h
  rw [minimumSize, hv, Option.bind_some, getInt, hn, Option.map_some]

/-- What the turn of `LoadedPorts` gets through, this one does. -/
theorem exists_loadPort (hroom : Allocatable el) (h : t.loadPort junk el = some t')
    (s : AtomPorts) : ∃ s', s.loadPort junk el = some s' := by
  unfold LoadedPorts.loadPort at h
  unfold loadPort
  split_ifs at h ⊢ with hkey
  · exact ⟨s, rfl⟩
  obtain ⟨jsonPort, hparse, h⟩ := Option.bind_eq_some_iff.mp h
  obtain ⟨name, hname, h⟩ := Option.bind_eq_some_iff.mp h
  obtain ⟨port, hport, h⟩ := Option.bind_eq_some_iff.mp h
  simp only [hparse, hname, hport, Option.bind_eq_bind, Option.bind_some]
  split_ifs with haudio hcontrol hmonitor hfile hnotify
  · exact ⟨s, rfl⟩
  · rw [if_neg haudio, if_pos hcontrol] at h
    obtain ⟨c, hc, -⟩ := Option.bind_eq_some_iff.mp h
    rw [hc]
    exact ⟨s, rfl⟩
  · exact ⟨s, rfl⟩
  · rw [if_neg haudio, if_neg hcontrol, if_neg hmonitor, if_pos hfile] at h
    obtain ⟨n, hn, h⟩ := Option.bind_eq_some_iff.mp h
    obtain ⟨c, hc, -⟩ := Option.bind_eq_some_iff.mp h
    have hm := minimumSize_of_toInt hn
    have hatom := isAtomPort_of_not haudio hcontrol hmonitor
    have hsize := hroom _ (.inl ((sizeOf_of_filePort hkey hparse hatom hfile).1.trans hm))
    obtain ⟨s', hs'⟩ := exists_allocateFilePort hm hsize s
    rw [hs', hc]
    exact ⟨s', rfl⟩
  · rw [if_neg haudio, if_neg hcontrol, if_neg hmonitor, if_neg hfile, if_pos hnotify] at h
    obtain ⟨n, hn, h⟩ := Option.bind_eq_some_iff.mp h
    have hm := minimumSize_of_toInt hn
    have hatom := isAtomPort_of_not haudio hcontrol hmonitor
    have hsize := hroom _ (.inr ((sizeOf_of_notifyPort hkey hparse hatom hfile hnotify).2.trans hm))
    exact exists_allocateNotifyPort hm hsize.1 s
  · exact ⟨s, rfl⟩

theorem exists_foldlM {rest : Members} (hroom : ∀ el ∈ rest, Allocatable el)
    (h : rest.foldlM (LoadedPorts.loadPort junk) t = some t') (s : AtomPorts) :
    ∃ s', rest.foldlM (loadPort junk) s = some s' := by
  induction rest generalizing t s with
  | nil => exact ⟨s, rfl⟩
  | cons el rest ih =>
    rw [List.foldlM_cons] at h
    obtain ⟨t₁, ht₁, h⟩ := Option.bind_eq_some_iff.mp h
    obtain ⟨s₁, hs₁⟩ := exists_loadPort (hroom el List.mem_cons_self) ht₁ s
    rw [List.foldlM_cons, hs₁]
    exact ih (fun el' hel => hroom el' (List.mem_cons_of_mem el hel)) h s₁

/-- A description that `LoadedPorts` loads is loaded here when its ports ask for such sizes. -/
theorem exists_load (hroom : ∀ el ∈ membersOf j, Allocatable el)
    (h : LoadedPorts.load junk j = some t) : ∃ s, load junk j = some s := by
  unfold LoadedPorts.load at h
  obtain ⟨info, hinfo, h⟩ := Option.bind_eq_some_iff.mp h
  obtain ⟨name, hname, h⟩ := Option.bind_eq_some_iff.mp h
  obtain ⟨before, hbefore, h⟩ := Option.bind_eq_some_iff.mp h
  unfold load
  simp only [hinfo, hname, hbefore, Option.bind_eq_bind, Option.bind_some]
  cases j with
  | obj members => exact exists_foldlM hroom h {}
  | _ => exact ⟨{}, rfl⟩

end Exists

section Inside

variable {σ : Type} {F : Forge σ} {s : AtomPorts}

/-- A reset is shorter than what stands before a path, so it fits the file port when a text does. -/
theorem checkNotify_inside_iff (hF : F.Lawful) {size : ℕ} (hfile : s.filePort = some size)
    (hfileSize : s.filePortSize = size) (hlow : 80 ≤ size) (hsize : size < 2 ^ 31) :
    (∀ hasFilePath, ∀ w ∈ s.checkNotify F hasFilePath, w.written ≤ w.allocated) ↔
      ∀ n ∈ s.notifyPort, 40 ≤ n := by
  have hreset := AmpAtom.offset_resetAtom hF hsize (by omega)
  simp only [checkNotify, hfile, hfileSize, hreset]
  cases s.notifyPort with
  | none =>
    constructor
    · rintro - n ⟨⟩
    · rintro - hasFilePath w ⟨⟩
  | some n =>
    constructor
    · rintro hinside _ ⟨⟩
      exact hinside true ⟨n, 40⟩ (List.mem_cons_of_mem _ List.mem_cons_self)
    · intro hnotify hasFilePath w hw
      cases hasFilePath with
      | false => cases hw
      | true =>
        rcases List.mem_pair.mp hw with rfl | rfl
        · exact Nat.le_trans (show 40 ≤ 80 by decide) hlow
        · exact hnotify n rfl

theorem staysInside_iff_sizes (hF : F.Lawful)
    (hs : ∀ size ∈ s.filePort, s.filePortSize = size ∧ size < 2 ^ 31) (uris : HostURIs) (urid : ℕ)
    (text : List UInt8) : s.StaysInside F uris urid text ↔
      ∀ size ∈ s.filePort, 80 ≤ size ∧
        (80 + alignUp 8 (AmpAtom.pathLength text + 1) ≤ size ∨
          size + 8 < 80 + AmpAtom.pathLength text) ∧ ∀ n ∈ s.notifyPort, 40 ≤ n := by
  cases hfile : s.filePort with
  | none =>
    have hset : s.setAtomPortValue F uris urid text = [] := by rw [setAtomPortValue, hfile]
    have hcheck (hasFilePath : Bool) : s.checkNotify F hasFilePath = [] := by
      rw [checkNotify, hfile]
      cases s.notifyPort <;> rfl
    constructor
    · rintro - size ⟨⟩
    · intro _ hasFilePath w hw
      rw [hset, hcheck] at hw
      cases hw
  | some size =>
    obtain ⟨hfileSize, hsize⟩ := hs size hfile
    have hset : s.setAtomPortValue F uris urid text =
        [⟨size, F.offset (AmpAtom.writeControl F uris size urid text)⟩] := by
      rw [setAtomPortValue, hfile, hfileSize]
    have hsplit : s.StaysInside F uris urid text ↔
        F.offset (AmpAtom.writeControl F uris size urid text) ≤ size ∧
          ∀ hasFilePath, ∀ w ∈ s.checkNotify F hasFilePath, w.written ≤ w.allocated := by
      simp only [StaysInside, hset, List.singleton_append, List.forall_mem_cons, forall_and,
        forall_const]
    simp only [hsplit, Option.mem_def, Option.some.injEq, forall_eq']
    rcases lt_or_ge size 80 with hshort | hlow
    · have hover := AmpAtom.lt_offset_writeControl hF hshort uris urid text
      constructor
      · intro hinside
        exact absurd hinside.1 hover.not_ge
      · intro hroom
        exact absurd hroom.1 hshort.not_ge
    · rw [AmpAtom.offset_writeControl_le_iff hF hlow hsize,
        checkNotify_inside_iff hF hfile hfileSize hlow hsize]
      exact (and_iff_right hlow).symm

/-- A text is written at most eight bytes past the end. -/
theorem written_le_of_mem_setAtomPortValue (hF : F.Lawful)
    (hs : ∀ size ∈ s.filePort, s.filePortSize = size ∧ size < 2 ^ 31) {uris : HostURIs} {urid : ℕ}
    {text : List UInt8} {w : PortWrite} (hw : w ∈ s.setAtomPortValue F uris urid text) :
    w.written ≤ w.allocated + 8 := by
  unfold setAtomPortValue at hw
  cases hfile : s.filePort with
  | none =>
    rw [hfile] at hw
    cases hw
  | some size =>
    obtain ⟨hfileSize, hsize⟩ := hs size hfile
    rw [hfile, hfileSize] at hw
    rw [List.mem_singleton.mp hw]
    exact AmpAtom.offset_start_le hF hsize _

end Inside

section Plugins

variable {σ : Type} {F : Forge σ} {s : AtomPorts}

/-- The description of an atom port. -/
def atomPortJson (direction : Text) (index size : ℕ) : Json :=
  .obj [("AtomPort".toList, .bool true), (direction, .bool true), ("index".toList, .int index),
    ("minimumSize".toList, .int size), ("name".toList, .str [])]

def pluginInfo : Json := .obj [("pluginName".toList, .str [])]

/-- A plugin with an atom port of either direction. -/
def atomPlugin (size : ℕ) : Json :=
  .obj [("-1".toList, pluginInfo), ("0".toList, atomPortJson "InputPort".toList 0 size),
    ("1".toList, atomPortJson "OutputPort".toList 1 size)]

theorem parse_dump_atomPortJson {direction : Text}
    (hdirection : direction = "InputPort".toList ∨ direction = "OutputPort".toList)
    (index : ℕ) {size : ℕ} (hindex : index < 2 ^ 63) (hsize : size < 2 ^ 63) :
    parse (dump (atomPortJson direction index size)) =
      some (atomPortJson direction index size) := by
  have hkeys : (["AtomPort".toList, direction, "index".toList, "minimumSize".toList,
      "name".toList] : List Text).Pairwise (· < ·) := by
    rcases hdirection with rfl | rfl <;> decide
  exact parse_dump ⟨hkeys, trivial, trivial, ⟨by omega, by omega⟩, ⟨by omega, by omega⟩, trivial,
    trivial⟩

theorem load_atomPlugin (size : ℕ) (hsize : size = 64 ∨ size = 8192) :
    load LoadedPorts.zeroed (atomPlugin size) =
      some ⟨some (size + 25), (size + 25 : ℕ), some (size + 25)⟩ := by
  have hinput := parse_dump_atomPortJson (.inl rfl) 0 (by decide)
    (show size < 2 ^ 63 by omega)
  have houtput := parse_dump_atomPortJson (.inr rfl) 1 (by decide)
    (show size < 2 ^ 63 by omega)
  have hfirst : loadPort LoadedPorts.zeroed {}
      ("0".toList, atomPortJson "InputPort".toList 0 size) =
        some ⟨some (size + 25), (size + 25 : ℕ), none⟩ := by
    rw [loadPort, if_neg (show "0".toList ≠ "-1".toList by decide), hinput]
    rcases hsize with rfl | rfl <;> rfl
  have hsecond : loadPort LoadedPorts.zeroed ⟨some (size + 25), (size + 25 : ℕ), none⟩
      ("1".toList, atomPortJson "OutputPort".toList 1 size) =
        some ⟨some (size + 25), (size + 25 : ℕ), some (size + 25)⟩ := by
    rw [loadPort, if_neg (show "1".toList ≠ "-1".toList by decide), houtput]
    rcases hsize with rfl | rfl <;> rfl
  have hinfo : loadPort LoadedPorts.zeroed {} ("-1".toList, pluginInfo) = some {} := if_pos rfl
  have hget : (atomPlugin size).get? "-1".toList = some pluginInfo := rfl
  have hname : (pluginInfo.get? "pluginName".toList).bind Json.toText = some [] := rfl
  have hprefix : (pluginInfo.get? "prefix".toList).elim (some []) Json.toText = some [] := rfl
  unfold load
  simp only [hget, hname, hprefix, Option.bind_eq_bind, Option.bind_some]
  simp only [atomPlugin, List.foldlM_cons, List.foldlM_nil, hinfo, hfirst, hsecond,
    Option.bind_eq_bind, Option.bind_some, Option.pure_def]

theorem hasRoom_atomPlugin : HasRoom (atomPlugin 8192) 8 := by
  obtain ⟨hfile, -, hnotify⟩ := allocated_load (load_atomPlugin 8192 (.inr rfl))
  have hsizes (size : ℕ) : size = 8217 ↔ (size : ℤ) - 25 = 8192 := by omega
  have hfiles := (forall_mem_bufferOf hfile (p := (· = 8217)) (q := (· = 8192)) hsizes).mp
    fun _ hsize => (Option.some.inj hsize).symm
  have hnotifies := (forall_mem_bufferOf hnotify (p := (· = 8217)) (q := (· = 8192)) hsizes).mp
    fun _ hsize => (Option.some.inj hsize).symm
  intro m hm
  rw [hfiles m hm]
  refine ⟨by decide, .inl (by decide), ?_⟩
  intro n hn
  rw [hnotifies n hn]
  decide

/-- The name of a file, of seven bytes. -/
def irWav : List UInt8 := [47, 105, 114, 46, 119, 97, 118]

/-- For every forge and every description that is loaded, the messages of the host stay inside the
buffers exactly when the ports ask for enough room for the text. -/
theorem staysInside_iff (hF : F.Lawful) {junk : ℕ → Indeterminate} {j : Json}
    (h : load junk j = some s) (uris : HostURIs) (urid : ℕ) (text : List UInt8) :
    s.StaysInside F uris urid text ↔ HasRoom j ((strlen text + 1) % 2 ^ 32) := by
  obtain ⟨hfile, hfileSize, hnotify⟩ := allocated_load h
  rw [staysInside_iff_sizes hF hfileSize]
  refine forall_mem_bufferOf hfile fun size => ?_
  rw [forall_mem_bufferOf hnotify (q := fun n => 15 ≤ n) fun _ => by omega]
  rw [AmpAtom.pathLength]
  refine and_congr (by omega) (and_congr_left' ?_)
  omega

theorem staysInside_atomPlugin : ∃ s, load LoadedPorts.zeroed (atomPlugin 8192) = some s ∧
    s.StaysInside Forge.counting ⟨1, 2, 3⟩ 4 irWav := by
  have hload := load_atomPlugin 8192 (.inr rfl)
  exact ⟨_, hload,
    (staysInside_iff Forge.counting_lawful hload ⟨1, 2, 3⟩ 4 irWav).mpr hasRoom_atomPlugin⟩

/-- A port that asks for 64 bytes gets 89, and the forge writes 96 of 97. -/
theorem irWav_overruns : ∃ s, load LoadedPorts.zeroed (atomPlugin 64) = some s ∧
    ¬ s.StaysInside Forge.counting ⟨1, 2, 3⟩ 4 irWav := by
  refine ⟨_, load_atomPlugin 64 (.inl rfl), ?_⟩
  intro hinside
  have hwrite := hinside true ⟨89, _⟩ List.mem_cons_self
  exact absurd hwrite (by decide)

end Plugins

end AtomPorts

end AmpRack

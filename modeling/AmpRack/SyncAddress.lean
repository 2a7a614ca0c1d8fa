import AmpRack.GuardedRun
import AmpRack.MachineInts
import AmpRack.StringPositions
import AmpRack.Utf8Text
import Mathlib.Tactic.Ring

/-!
# The address of a synchronisation

`sync_send` reads `ip:port:key` from its entry. It keeps the positions of the two colons in an `int`,
the second one relative to the first. Without a second colon `find` gives `npos`, which comes out as
the distance back to the start, so that the key becomes the whole text.
-/

namespace AmpRack

open StringPositions GuardedRun MachineInts

/-- `':'`. -/
def colon : UInt8 := 0x3a

/-- A `std::string`: no more bytes than `max_size ()`. -/
structure StdString where
  bytes : List UInt8
  length_lt : bytes.length < 2 ^ 63

/-- `std::string::npos`. -/
def npos : ℕ := 2 ^ 64 - 1

inductive SplitFault
  | outOfRange
  | signedOverflow
  deriving DecidableEq

structure Address where
  ip : List UInt8
  port : List UInt8
  key : List UInt8
  deriving DecidableEq

namespace SyncSend

/-- The result of an `int` operation. -/
def int (n : ℤ) : Except SplitFault ℤ := if FitsInt n then .ok n else .error .signedOverflow

/-- `text.substr (pos, count)`, which throws when `pos` lies behind the end. -/
def subText (text : List UInt8) (pos : ℤ) (count : ℕ) : Except SplitFault (List UInt8) :=
  match substr text (sizeOfInt pos) count with
  | some s => .ok s
  | none => .error .outOfRange

/-- `text.find (":", pos)`. -/
def find (text : List UInt8) (pos : ℤ) : ℕ := (findFrom colon text (sizeOfInt pos)).getD npos

def find1 (text : List UInt8) : ℤ := intOfSize (find text 0)

/-- The subtraction is one of `size_t`. -/
def find2 (text : List UInt8) : ℤ :=
  intOfSize (sizeOfInt (find text (find1 text + 1) - find1 text))

/-- The lines of `sync_send` from the first `find` to the key. -/
def splitWhere (text : List UInt8) : Except SplitFault Address :=
  (int (find1 text + 1)).bind fun behind =>
  (subText text 0 (sizeOfInt (find1 text))).bind fun ip =>
  (int (find2 text - 1)).bind fun count =>
  (subText text behind (sizeOfInt count)).bind fun port =>
  (int (find2 text + find1 text)).bind fun last =>
  (int (last + 1)).bind fun rest =>
  (subText text rest npos).map fun key => ⟨ip, port, key⟩

/-- What an empty entry stands for. -/
def localhost : List UInt8 := Utf8Text.bytes "localhost:6906".toList

def address (entry : List UInt8) : Except SplitFault Address :=
  splitWhere (if entry = [] then localhost else entry)

/-- The text of the entry for these parts. -/
def joined (ip port : List UInt8) : Option (List UInt8) → List UInt8
  | none => ip ++ colon :: port
  | some key => ip ++ colon :: (port ++ colon :: key)

theorem ok_bind {α β : Type} (a : α) (f : α → Except SplitFault β) :
    (Except.ok a : Except SplitFault α).bind f = f a := rfl

theorem int_eq_ok {n m : ℤ} : int n = .ok m ↔ FitsInt n ∧ n = m := by
  rw [int]
  split_ifs with h
  · simp [h]
  · simp [h]

theorem subText_eq_ok {text s : List UInt8} {pos : ℤ} {count : ℕ} :
    subText text pos count = .ok s ↔
      sizeOfInt pos ≤ text.length ∧ (text.drop (sizeOfInt pos)).take count = s := by
  rw [← substr_eq_some, subText]
  cases substr text (sizeOfInt pos) count with
  | none => simp
  | some t => simp

theorem splitWhere_eq_ok {text : List UInt8} {a : Address} (h : splitWhere text = .ok a) :
    FitsInt (find1 text + 1) ∧ FitsInt (find2 text + find1 text + 1) ∧
      text.take (sizeOfInt (find1 text)) = a.ip ∧
      (text.drop (sizeOfInt (find1 text + 1))).take (sizeOfInt (find2 text - 1)) = a.port ∧
      FitsInt (find2 text - 1) ∧
      (text.drop (sizeOfInt (find2 text + find1 text + 1))).take npos = a.key := by
  obtain ⟨behind, hbehind, h⟩ := exists_of_bind_ok h
  obtain ⟨ip, hip, h⟩ := exists_of_bind_ok h
  obtain ⟨count, hcount, h⟩ := exists_of_bind_ok h
  obtain ⟨port, hport, h⟩ := exists_of_bind_ok h
  obtain ⟨last, hlast, h⟩ := exists_of_bind_ok h
  obtain ⟨rest, hrest, h⟩ := exists_of_bind_ok h
  obtain ⟨hfits, rfl⟩ := int_eq_ok.mp hbehind
  obtain ⟨hfits₂, rfl⟩ := int_eq_ok.mp hcount
  obtain ⟨-, rfl⟩ := int_eq_ok.mp hlast
  obtain ⟨hfits₃, rfl⟩ := int_eq_ok.mp hrest
  cases hkey : subText text (find2 text + find1 text + 1) npos with
  | error e =>
    rw [hkey] at h
    cases h
  | ok key =>
    rw [hkey] at h
    cases h
    exact ⟨hfits, hfits₃, (subText_eq_ok.mp hip).2, (subText_eq_ok.mp hport).2, hfits₂,
      (subText_eq_ok.mp hkey).2⟩

section Positions

variable {ip port key rest : List UInt8}

theorem find1_eq (hip : colon ∉ ip) : find1 (ip ++ colon :: rest) = intOfSize ip.length := by
  have hfind := findFrom_append [] hip rest
  rw [List.nil_append, List.length_nil, Nat.zero_add] at hfind
  have hzero : sizeOfInt 0 = 0 := rfl
  rw [find1, find, hzero, hfind, Option.getD_some]

theorem find1_of_lt (hip : colon ∉ ip) (hlt : ip.length < 2 ^ 31) :
    find1 (ip ++ colon :: rest) = ip.length := by
  rw [find1_eq hip, intOfSize_of_lt (by omega), Nat.mod_eq_of_lt (by omega)]

/-- The position behind the first colon. -/
theorem sizeOfInt_behind (hlt : ip.length + 1 < 2 ^ 31) :
    sizeOfInt ((ip.length : ℤ) + 1) = (ip ++ [colon]).length := by
  rw [sizeOfInt_of_nonneg (by omega) (by omega), List.length_append, List.length_singleton]
  omega

theorem find2_some (hip : colon ∉ ip) (hport : colon ∉ port) (hlt : ip.length + 1 < 2 ^ 31)
    (hlen : port.length + 1 < 2 ^ 63) :
    find2 (ip ++ colon :: (port ++ colon :: key)) = intOfSize (port.length + 1) := by
  have hfind := findFrom_append (ip ++ [colon]) hport key
  rw [List.append_assoc, List.singleton_append] at hfind
  have hsize : sizeOfInt (((ip ++ [colon]).length + port.length : ℕ) - (ip.length : ℤ)) =
      port.length + 1 := by
    rw [List.length_append, List.length_singleton, sizeOfInt, Int.emod_eq_of_lt] <;> omega
  rw [find2, find1_of_lt hip (by omega), find, sizeOfInt_behind hlt, hfind, Option.getD_some, hsize]

/-- The distance to `npos` is the way back to the start. -/
theorem find2_none (hip : colon ∉ ip) (hport : colon ∉ port) (hlt : ip.length + 1 < 2 ^ 31) :
    find2 (ip ++ colon :: port) = -1 - ip.length := by
  have hfind := findFrom_rest (ip ++ [colon]) hport
  rw [List.append_assoc, List.singleton_append] at hfind
  rw [find2, find1_of_lt hip (by omega), find, sizeOfInt_behind hlt, hfind, Option.getD_none]
  have hback : sizeOfInt ((npos : ℤ) - ip.length) = sizeOfInt (-1 - ip.length) := by
    have hnpos : (npos : ℤ) - ip.length = -1 - ip.length + 2 ^ 64 := by
      norm_num [npos]
      ring
    unfold sizeOfInt
    rw [hnpos, Int.add_emod_right]
  rw [hback, intOfSize_sizeOfInt ⟨by omega, by omega⟩]

/-- The ip is cut off right only if an `int` holds its length. -/
theorem length_lt_of_take (hip : colon ∉ ip) (hlen : ip.length < 2 ^ 63)
    (h : (ip ++ colon :: rest).take (sizeOfInt (find1 (ip ++ colon :: rest))) = ip) :
    ip.length < 2 ^ 31 := by
  have hsize := eq_length_of_take h
  rw [find1_eq hip] at hsize
  have hfits := fitsInt_intOfSize ip.length
  have heq := eq_of_sizeOfInt_eq hfits hlen hsize
  rw [heq] at hfits
  exact_mod_cast hfits.2

theorem subText_ip (hlt : ip.length < 2 ^ 31) :
    subText (joined ip port (some key)) 0 (sizeOfInt ip.length) = .ok ip := by
  have hzero : sizeOfInt 0 = 0 := rfl
  rw [subText_eq_ok, hzero, sizeOfInt_of_nonneg (by omega) (by omega), List.drop_zero]
  exact ⟨Nat.zero_le _, List.take_left⟩

theorem subText_port (hlt : ip.length + 1 < 2 ^ 31) (hlt' : port.length < 2 ^ 31) :
    subText (joined ip port (some key)) (ip.length + 1) (sizeOfInt port.length) = .ok port := by
  rw [subText_eq_ok, sizeOfInt_behind hlt, sizeOfInt_of_nonneg (by omega) (by omega),
    Int.toNat_natCast, ← substr_eq_some, joined, List.append_cons]
  exact substr_append _ _ _

theorem subText_key (hlt : ip.length + port.length + 2 < 2 ^ 31) (hlen : key.length < 2 ^ 63) :
    subText (joined ip port (some key)) (port.length + 1 + ip.length + 1) npos = .ok key := by
  have hsize : sizeOfInt ((port.length : ℤ) + 1 + ip.length + 1) =
      (ip ++ colon :: (port ++ [colon])).length := by
    rw [sizeOfInt_of_nonneg (by omega) (by omega)]
    simp only [List.length_append, List.length_cons, List.length_nil]
    omega
  have hjoined : joined ip port (some key) = (ip ++ colon :: (port ++ [colon])) ++ key := by
    simp [joined]
  have hnpos : key.length ≤ npos := by
    rw [npos]
    omega
  rw [subText_eq_ok, hsize, ← substr_eq_some, hjoined]
  exact substr_rest _ hnpos

theorem splitWhere_some (hip : colon ∉ ip) (hport : colon ∉ port)
    (hlt : ip.length + port.length + 2 < 2 ^ 31) (hlen : key.length < 2 ^ 63) :
    splitWhere (joined ip port (some key)) = .ok ⟨ip, port, key⟩ := by
  have h₁ : find1 (joined ip port (some key)) = ip.length := find1_of_lt hip (by omega)
  have h₂ : find2 (joined ip port (some key)) = port.length + 1 := by
    rw [joined, find2_some hip hport (by omega) (by omega), intOfSize_of_lt (by omega),
      Nat.mod_eq_of_lt (by omega), Nat.cast_add_one]
  have hbehind : int (ip.length + 1) = .ok (ip.length + 1) :=
    int_eq_ok.mpr ⟨⟨by omega, by omega⟩, rfl⟩
  have hcount : int ((port.length : ℤ) + 1 - 1) = .ok port.length :=
    int_eq_ok.mpr ⟨⟨by omega, by omega⟩, by omega⟩
  have hlast : int ((port.length : ℤ) + 1 + ip.length) = .ok (port.length + 1 + ip.length) :=
    int_eq_ok.mpr ⟨⟨by omega, by omega⟩, rfl⟩
  have hrest : int ((port.length : ℤ) + 1 + ip.length + 1) = .ok (port.length + 1 + ip.length + 1) :=
    int_eq_ok.mpr ⟨⟨by omega, by omega⟩, rfl⟩
  have hip' : subText (joined ip port (some key)) 0 (sizeOfInt ip.length) = .ok ip :=
    subText_ip (by omega)
  have hport' : subText (joined ip port (some key)) (ip.length + 1) (sizeOfInt port.length) =
    .ok port := subText_port (by omega) (by omega)
  rw [splitWhere, h₁, h₂, hbehind, ok_bind, hip', ok_bind, hcount, ok_bind, hport', ok_bind, hlast,
    ok_bind, hrest, ok_bind, subText_key hlt hlen]
  rfl

theorem lt_of_splitWhere_some (hip : colon ∉ ip)
    (hlen : (joined ip port (some key)).length < 2 ^ 63)
    (h : splitWhere (joined ip port (some key)) = .ok ⟨ip, port, key⟩) :
    ip.length + port.length + 2 < 2 ^ 31 := by
  rw [joined] at h hlen
  simp only [List.length_append, List.length_cons] at hlen
  obtain ⟨hbehind, hrest, hip', hport', hcount, -⟩ := splitWhere_eq_ok h
  have hlt := length_lt_of_take hip (by omega) hip'
  rw [find1_of_lt hip hlt] at hbehind hrest hport'
  have hlt' : ip.length + 1 < 2 ^ 31 := by exact_mod_cast hbehind.2
  have hdrop : (ip ++ colon :: (port ++ colon :: key)).drop (ip ++ [colon]).length =
      port ++ colon :: key := by
    rw [List.append_cons ip colon (port ++ colon :: key), List.drop_left]
  rw [sizeOfInt_behind hlt', hdrop] at hport'
  have hshort : port.length < 2 ^ 63 := by omega
  have hsize := eq_of_sizeOfInt_eq hcount hshort (eq_length_of_take hport')
  have hfits := hrest.2
  omega

theorem splitWhere_none (hip : colon ∉ ip) (hport : colon ∉ port)
    (hlen : (joined ip port none).length < 2 ^ 63) :
    splitWhere (joined ip port none) ≠ .ok ⟨ip, port, []⟩ := by
  intro h
  rw [joined] at h hlen
  rw [List.length_append, List.length_cons] at hlen
  obtain ⟨hbehind, -, hip', -, -, hkey⟩ := splitWhere_eq_ok h
  have hlt := length_lt_of_take hip (by omega) hip'
  rw [find1_of_lt hip hlt] at hbehind hkey
  have hlt' : ip.length + 1 < 2 ^ 31 := by exact_mod_cast hbehind.2
  have hzero : sizeOfInt (-1 - (ip.length : ℤ) + ip.length + 1) = 0 := by
    rw [sizeOfInt]
    omega
  rw [find2_none hip hport hlt', hzero, List.drop_zero, List.take_eq_nil_iff] at hkey
  simp [npos] at hkey

end Positions

/-- The parts come out as they were joined exactly when a key is given and an `int` holds the
position behind the second colon. -/
theorem splitWhere_iff (text : StdString) {ip port : List UInt8} (key : Option (List UInt8))
    (hip : colon ∉ ip) (hport : colon ∉ port) (htext : text.bytes = joined ip port key) :
    address text.bytes = .ok ⟨ip, port, key.getD []⟩ ↔
      key.isSome ∧ ip.length + port.length + 2 < 2 ^ 31 := by
  have hlen := text.length_lt
  have hne : text.bytes ≠ [] := by
    rw [htext]
    cases key with
    | none => simp [joined]
    | some key => simp [joined]
  rw [address, if_neg hne]
  rw [htext] at hlen ⊢
  cases key with
  | none => simpa using splitWhere_none hip hport hlen
  | some key =>
    rw [Option.getD_some]
    constructor
    · exact fun h => ⟨rfl, lt_of_splitWhere_some hip hlen h⟩
    · rintro ⟨-, hlt⟩
      refine splitWhere_some hip hport hlt ?_
      rw [joined] at hlen
      simp only [List.length_append, List.length_cons] at hlen
      omega

def exampleText : StdString := ⟨Utf8Text.bytes "localhost:6906:111".toList, by decide⟩

theorem splitWhere_example :
    address exampleText.bytes = .ok ⟨Utf8Text.bytes "localhost".toList,
      Utf8Text.bytes "6906".toList, Utf8Text.bytes "111".toList⟩ :=
  (splitWhere_iff exampleText (some (Utf8Text.bytes "111".toList)) (by decide) (by decide)
    (by decide)).mpr ⟨rfl, by decide⟩

theorem localhost_key_not_empty :
    address (joined (Utf8Text.bytes "localhost".toList) (Utf8Text.bytes "6906".toList) none) ≠
      .ok ⟨Utf8Text.bytes "localhost".toList, Utf8Text.bytes "6906".toList, []⟩ := by
  rw [address, if_neg (by decide)]
  exact splitWhere_none (by decide) (by decide) (by decide)

end SyncSend
end AmpRack

import AmpRack.BinaryFormat

/-!
# Reading a float from a text

`strtod` takes a decimal or a hexadecimal number, an infinity or `nan` from the front of a text. The
number is rounded to a `double`, and once more where it is stored in a `float`.
-/

namespace TextScan

/-- The value of a floating-point variable; a zero has no sign here. -/
inductive Floating
  | number (q : ℚ)
  | infinite (negative : Bool)
  | nan
  deriving DecidableEq

def Floating.narrow (F : BinaryFormat) : Floating → Floating
  | number q => if F.Overflows q then infinite (q < 0) else number (F.round q)
  | x => x

def ofHexDigits (cs : List Char) : ℕ :=
  cs.foldl (fun n c => 16 * n + if c.isDigit then c.toNat - 48 else c.toNat - 87) 0

/-- What follows the sign, in small letters. -/
def strtodUnsigned (negative : Bool) (u : List Char) : Floating :=
  if "inf".toList.isPrefixOf u then .infinite negative
  else if "nan".toList.isPrefixOf u then .nan
  else
    let magnitude :=
      if "0x".toList.isPrefixOf u then readNumeral Char.isHexDigit ofHexDigits 16 'p' 2 (u.drop 2)
      else readMagnitude u
    .number (if negative then -magnitude else magnitude)

def strtod (text : List Char) : Floating :=
  match text.dropWhile isSpace with
  | '-' :: u => strtodUnsigned true (u.map Char.toLower)
  | '+' :: u => strtodUnsigned false (u.map Char.toLower)
  | u => strtodUnsigned false (u.map Char.toLower)

/-- What a `double` gets from a number that a text was read as, and a `float` from that. -/
def Floating.toFloat (x : Floating) : Floating := (x.narrow .binary64).narrow .binary32

/-- `float f = atof (...)`. -/
def readFloat (text : List Char) : Floating := (strtod text).toFloat

example : readFloat "0x1.8p1;".toList = .number 3 ∧ readFloat "-Inf".toList = .infinite true ∧
    readFloat "1e-50".toList = .number 0 ∧ readFloat "1e39".toList = .infinite false := by
  decide +kernel

/-- None of the letters that the other spellings begin with, and no capitals. -/
def Decimal (text : List Char) : Prop :=
  ∀ c ∈ text, c.toLower = c ∧ c ≠ 'i' ∧ c ≠ 'n' ∧ c ≠ 'x'

theorem isPrefixOf_eq_false {w u : List Char} {c : Char} (hw : c ∈ w) (hu : c ∉ u) :
    w.isPrefixOf u = false := by
  rw [Bool.eq_false_iff]
  exact fun h => hu ((List.isPrefixOf_iff_prefix.mp h).subset hw)

theorem Decimal.strtodUnsigned {u : List Char} (h : Decimal u) (negative : Bool) :
    strtodUnsigned negative (u.map Char.toLower) =
      .number (if negative then -readMagnitude u else readMagnitude u) := by
  have hmap : u.map Char.toLower = u := by
    conv_rhs => rw [← List.map_id u]
    exact List.map_congr_left fun c hc => (h c hc).1
  have hinf := isPrefixOf_eq_false (w := "inf".toList) (u := u) (c := 'i') (by decide)
    fun hc => (h _ hc).2.1 rfl
  have hnan := isPrefixOf_eq_false (w := "nan".toList) (u := u) (c := 'n') (by decide)
    fun hc => (h _ hc).2.2.1 rfl
  have hhex := isPrefixOf_eq_false (w := "0x".toList) (u := u) (c := 'x') (by decide)
    fun hc => (h _ hc).2.2.2 rfl
  rw [hmap, TextScan.strtodUnsigned, hinf, hnan, hhex]
  rfl

theorem atof_of_unsigned {text : List Char} (hminus : ∀ u, text.dropWhile isSpace ≠ '-' :: u)
    (hplus : ∀ u, text.dropWhile isSpace ≠ '+' :: u) :
    atof text = readMagnitude (text.dropWhile isSpace) := by
  unfold atof
  split
  · rename_i u h
    exact absurd h (hminus u)
  · rename_i u h
    exact absurd h (hplus u)
  · rfl

theorem readFloat_of_decimal {text : List Char} (h : Decimal text) :
    readFloat text = (Floating.number (atof text)).toFloat := by
  apply congrArg Floating.toFloat
  have hu : Decimal (text.dropWhile isSpace) := fun c hc => h c ((List.dropWhile_sublist _).mem hc)
  have htail {c : Char} {u : List Char} (h' : Decimal (c :: u)) : Decimal u :=
    fun d hd => h' d (List.mem_cons_of_mem c hd)
  unfold strtod
  split
  · rename_i u h
    rw [h] at hu
    rw [(htail hu).strtodUnsigned true, atof, h]
    rfl
  · rename_i u h
    rw [h] at hu
    rw [(htail hu).strtodUnsigned false, atof, h]
    rfl
  · rename_i hminus hplus
    rw [hu.strtodUnsigned false, atof_of_unsigned hminus hplus]
    rfl

theorem decimal_fixed {d : ℕ} (q : ℚ) : Decimal (fixed d q) := by
  have hdigit {c : Char} (hc : c.isDigit = true) :
      c.toLower = c ∧ c ≠ 'i' ∧ c ≠ 'n' ∧ c ≠ 'x' := by
    have hne (x : Char) (hx : x.isDigit = false) : c ≠ x := by
      rintro rfl
      rw [hc] at hx
      cases hx
    refine ⟨dif_neg fun hupper => ?_, hne 'i' (by decide), hne 'n' (by decide), hne 'x' (by decide)⟩
    simp only [Char.isDigit, Bool.and_eq_true, decide_eq_true_eq] at hc
    exact absurd (UInt32.le_trans hupper.1 hc.2) (by decide)
  intro c hc
  rcases mem_fixed hc with rfl | rfl | hc
  · decide
  · decide
  · exact hdigit hc

theorem narrow_number {F : BinaryFormat} {x : Floating} {q : ℚ} (h : x.narrow F = .number q) :
    F.round q = q := by
  cases x with
  | number r =>
    rw [Floating.narrow] at h
    split_ifs at h
    cases h
    exact F.round_round r
  | infinite negative => cases h
  | nan => cases h

/-- A number that is read is a `float`. -/
theorem round_of_readFloat {text : List Char} {q : ℚ} (h : readFloat text = .number q) :
    BinaryFormat.binary32.round q = q := narrow_number h

end TextScan

import Mathlib.Algebra.Order.Ring.Rat
import Mathlib.Data.Rat.Floor
import Mathlib.Data.List.TakeWhile
import Mathlib.Tactic.FieldSimp

/-!
# Lines and decimal numbers in a text

`getlines` splits a text at a delimiter as repeated `std::getline` does: a delimiter at the very end
opens no further line. `fixed` writes a rational with a fixed number of decimals, as `%f` does, and
`atof` reads a decimal number from the front of a text and gives zero where there is none.

`getlines` undoes terminated concatenation, and `atof` reads what `fixed` wrote as the value rounded
to that many decimals.
-/

namespace TextScan

def getlines (delim : Char) : List Char → List (List Char)
  | [] => []
  | c :: cs =>
    if c = delim then [] :: getlines delim cs
    else
      match getlines delim cs with
      | [] => [[c]]
      | l :: ls => (c :: l) :: ls

theorem getlines_append {delim : Char} {w : List Char} (h : delim ∉ w) (cs : List Char) :
    getlines delim (w ++ delim :: cs) = w :: getlines delim cs := by
  induction w with
  | nil => simp [getlines]
  | cons c w ih =>
    obtain ⟨hc, hw⟩ := List.ne_and_not_mem_of_not_mem_cons h
    rw [List.cons_append, getlines, if_neg hc.symm, ih hw]

/-- Lines each ended by the delimiter are read back. -/
theorem getlines_flatMap {delim : Char} {ws : List (List Char)} (h : ∀ w ∈ ws, delim ∉ w) :
    getlines delim (ws.flatMap (· ++ [delim])) = ws := by
  induction ws with
  | nil => rfl
  | cons w ws ih =>
    rw [List.flatMap_cons, List.append_assoc, List.singleton_append,
      getlines_append (h w List.mem_cons_self), ih fun w' hw' => h w' (List.mem_cons_of_mem w hw')]

section Decimal

/-- The nearest integer, of two the even one. -/
def roundHalfEven (q : ℚ) : ℤ :=
  let below := ⌊q⌋
  if q - below < 1 / 2 then below
  else if 1 / 2 < q - below then below + 1
  else if below % 2 = 0 then below
  else below + 1

/-- The absolute value in units of the last of `d` decimals. -/
def scaled (d : ℕ) (q : ℚ) : ℕ := (roundHalfEven (|q| * 10 ^ d)).toNat

def roundTo (d : ℕ) (q : ℚ) : ℚ :=
  if q < 0 then -(scaled d q / 10 ^ d) else scaled d q / 10 ^ d

def padZeros (d : ℕ) (w : List Char) : List Char := List.replicate (d - w.length) '0' ++ w

def fixed (d : ℕ) (q : ℚ) : List Char :=
  (if q < 0 then ['-'] else []) ++ Nat.toDigits 10 (scaled d q / 10 ^ d) ++ '.' ::
    padZeros d (Nat.toDigits 10 (scaled d q % 10 ^ d))

def isSpace (c : Char) : Bool :=
  c = ' ' || c = '\t' || c = '\n' || c = '\x0b' || c = '\x0c' || c = '\r'

/-- The exponent after the letter that stands in front of one. -/
def readExponent (letter : Char) : List Char → ℤ
  | c :: cs =>
    if c.toLower = letter then
      match cs with
      | '-' :: ds => -(Nat.ofDigitChars 10 (ds.takeWhile Char.isDigit) 0 : ℤ)
      | '+' :: ds => (Nat.ofDigitChars 10 (ds.takeWhile Char.isDigit) 0 : ℤ)
      | ds => (Nat.ofDigitChars 10 (ds.takeWhile Char.isDigit) 0 : ℤ)
    else 0
  | [] => 0

def splitFraction (isDigit : Char → Bool) : List Char → List Char × List Char
  | '.' :: cs => (cs.takeWhile isDigit, cs.dropWhile isDigit)
  | cs => ([], cs)

/-- Digits in the base, with a point, then the letter and a power of the radix. -/
def readNumeral (isDigit : Char → Bool) (value : List Char → ℕ) (base : ℕ) (letter : Char)
    (radix : ℕ) (u : List Char) : ℚ :=
  let whole := u.takeWhile isDigit
  let r := splitFraction isDigit (u.dropWhile isDigit)
  if whole = [] ∧ r.1 = [] then 0
  else value (whole ++ r.1) / base ^ r.1.length * radix ^ readExponent letter r.2

def readMagnitude (u : List Char) : ℚ :=
  readNumeral Char.isDigit (Nat.ofDigitChars 10 · 0) 10 'e' 10 u

/-- A decimal number as it stands; `readFloat` is what a variable of type `float` gets. -/
def atof (text : List Char) : ℚ :=
  match text.dropWhile isSpace with
  | '-' :: u => -readMagnitude u
  | '+' :: u => readMagnitude u
  | u => readMagnitude u

/-- `std::stof` throws where there is no number. -/
def stof (text : List Char) : Option ℚ :=
  let u := text.dropWhile isSpace
  let u := if u.head? = some '-' ∨ u.head? = some '+' then u.tail else u
  if u.takeWhile Char.isDigit = [] ∧
      (splitFraction Char.isDigit (u.dropWhile Char.isDigit)).1 = [] then none
  else some (atof text)

example : atof (fixed 6 (-5 / 2)) = -5 / 2 := by decide +kernel

theorem isDigit_of_mem_padZeros {d n : ℕ} :
    ∀ c ∈ padZeros d (Nat.toDigits 10 n), c.isDigit = true := by
  intro c hc
  rcases List.mem_append.mp hc with hc | hc
  · rw [List.eq_of_mem_replicate hc]
    rfl
  · exact Nat.isDigit_of_mem_toDigits (by decide) (by decide) hc

theorem ofDigitChars_padZeros (d n init : ℕ) (h : n < 10 ^ d) (hd : 0 < d) :
    (padZeros d (Nat.toDigits 10 n)).length = d ∧
      Nat.ofDigitChars 10 (padZeros d (Nat.toDigits 10 n)) init = 10 ^ d * init + n := by
  have hlen : (Nat.toDigits 10 n).length ≤ d := (Nat.length_toDigits_le_iff (by decide) hd).mpr h
  have hpad : (padZeros d (Nat.toDigits 10 n)).length = d := by
    rw [padZeros, List.length_append, List.length_replicate]
    omega
  refine ⟨hpad, ?_⟩
  rw [Nat.ofDigitChars_eq_ofDigitChars_zero, hpad, padZeros, Nat.ofDigitChars_append,
    Nat.ofDigitChars_replicate_zero, Nat.mul_zero, Nat.ofDigitChars_ten_toDigits]

theorem readMagnitude_fixed {d n : ℕ} (hd : 0 < d) :
    readMagnitude (Nat.toDigits 10 (n / 10 ^ d) ++ '.' ::
      padZeros d (Nat.toDigits 10 (n % 10 ^ d))) = (n : ℚ) / 10 ^ d := by
  have hwhole : ∀ c ∈ Nat.toDigits 10 (n / 10 ^ d), c.isDigit = true :=
    fun c hc => Nat.isDigit_of_mem_toDigits (by decide) (by decide) hc
  obtain ⟨hlen, hval⟩ := ofDigitChars_padZeros d (n % 10 ^ d) (n / 10 ^ d)
    (Nat.mod_lt n (Nat.pow_pos (by decide))) hd
  have hfrac := isDigit_of_mem_padZeros (d := d) (n := n % 10 ^ d)
  rw [readMagnitude, readNumeral, List.takeWhile_append_of_pos hwhole,
    List.dropWhile_append_of_pos hwhole, List.takeWhile_cons_of_neg (by decide),
    List.dropWhile_cons_of_neg (by decide), List.append_nil]
  simp only [splitFraction, List.takeWhile_eq_self_iff.mpr hfrac,
    List.dropWhile_eq_nil_iff.mpr hfrac, readExponent, zpow_zero, mul_one]
  rw [if_neg (fun h => Nat.toDigits_ne_nil h.1), Nat.ofDigitChars_append,
    Nat.ofDigitChars_ten_toDigits, hval, hlen, Nat.div_add_mod, Nat.cast_ofNat]

theorem dropWhile_isSpace_digits {n : ℕ} (cs : List Char) :
    ∃ c ds, Nat.toDigits 10 n ++ cs = c :: ds ∧ c.isDigit = true ∧
      (Nat.toDigits 10 n ++ cs).dropWhile isSpace = Nat.toDigits 10 n ++ cs := by
  obtain ⟨c, ds, hcd⟩ := List.exists_cons_of_ne_nil (Nat.toDigits_ne_nil (b := 10) (n := n))
  have hc : c.isDigit = true :=
    Nat.isDigit_of_mem_toDigits (b := 10) (n := n) (by decide) (by decide)
      (by rw [hcd]; exact List.mem_cons_self)
  have hspace : isSpace c = false := by
    have hother (d : Char) (hd : d.isDigit = false) : c ≠ d := by
      rintro rfl
      rw [hc] at hd
      cases hd
    simp [isSpace, hother ' ' (by decide), hother '\t' (by decide), hother '\n' (by decide),
      hother '\x0b' (by decide), hother '\x0c' (by decide), hother '\r' (by decide)]
  refine ⟨c, ds ++ cs, by rw [hcd, List.cons_append], hc, ?_⟩
  rw [hcd, List.cons_append, List.dropWhile_cons_of_neg (by rw [hspace]; exact Bool.false_ne_true)]

/-- Reading a number written with `d` decimals rounds it to `d` decimals. -/
theorem atof_fixed {d : ℕ} (hd : 0 < d) (q : ℚ) : atof (fixed d q) = roundTo d q := by
  unfold fixed roundTo
  split_ifs with hneg
  · rw [List.append_assoc, List.singleton_append]
    change -readMagnitude _ = _
    rw [readMagnitude_fixed hd]
  · rw [List.nil_append]
    obtain ⟨c, ds, hcd, hc, hdrop⟩ := dropWhile_isSpace_digits (n := scaled d q / 10 ^ d)
      ('.' :: padZeros d (Nat.toDigits 10 (scaled d q % 10 ^ d)))
    rw [atof, hdrop]
    have hread := readMagnitude_fixed (n := scaled d q) hd
    rw [hcd] at hread ⊢
    split
    · rename_i u hu
      cases hu
      exact absurd hc (by decide)
    · rename_i u hu
      cases hu
      exact absurd hc (by decide)
    · exact hread

theorem mem_fixed {d : ℕ} {q : ℚ} {c : Char} (hc : c ∈ fixed d q) :
    c = '-' ∨ c = '.' ∨ c.isDigit = true := by
  rw [fixed, List.mem_append, List.mem_append] at hc
  rcases hc with (hc | hc) | hc
  · split_ifs at hc
    · exact .inl (List.mem_singleton.mp hc)
    · cases hc
  · exact .inr (.inr (Nat.isDigit_of_mem_toDigits (by decide) (by decide) hc))
  · rcases List.mem_cons.mp hc with hc | hc
    · exact .inr (.inl hc)
    · exact .inr (.inr (isDigit_of_mem_padZeros c hc))

theorem delim_not_mem_fixed {d : ℕ} (q : ℚ) : ';' ∉ fixed d q := by
  intro h
  rcases mem_fixed h with h | h | h
  · exact absurd h (by decide)
  · exact absurd h (by decide)
  · exact absurd h (by decide)

end Decimal

end TextScan

import AmpRack.JsonText
import Mathlib.Data.List.TakeWhile

/-!
# Parsing what was dumped

`WellFormed` values have sorted keys and numbers that `dump` writes as `parse` reads them. For them
`parse` inverts `dump`. A text that stops inside a string of a dumped value is not parsed at all.

Both follow token by token: `lex_token` splits one rendered token off a text, and `parseValue_tokens`
reads one value off a list of tokens.
-/

namespace JsonText

section Strings

theorem unescapeUnicode_control {c : Char} (h : c.toNat < 0x20) (cs : List Char) :
    unescapeUnicode ('0' :: '0' :: Nat.digitChar (c.toNat / 16) :: Nat.digitChar (c.toNat % 16) :: cs)
      = some (c, cs) := by
  have hhex : ∀ n < 0x20, (do
      let a ← hexValue '0'
      let b ← hexValue '0'
      let c ← hexValue (Nat.digitChar (n / 16))
      let d ← hexValue (Nat.digitChar (n % 16))
      return ((a * 16 + b) * 16 + c) * 16 + d) = some n := by decide
  have hunit : hexUnit ('0' :: '0' :: Nat.digitChar (c.toNat / 16) ::
      Nat.digitChar (c.toNat % 16) :: cs) = some (c.toNat, cs) := by
    have h0 : hexValue '0' = some 0 := by decide
    have hn := hhex c.toNat h
    simp only [hexUnit, h0, Option.bind_eq_bind, Option.bind_some, Option.pure_def] at hn ⊢
    cases hc : hexValue (Nat.digitChar (c.toNat / 16)) with
    | none => simp [hc] at hn
    | some c' =>
      cases hd : hexValue (Nat.digitChar (c.toNat % 16)) with
      | none => simp [hc, hd] at hn
      | some d' => simpa [hc, hd] using hn
  have hhigh : ¬ (0xD800 ≤ c.toNat ∧ c.toNat ≤ 0xDBFF) := by omega
  have hlow : ¬ (0xDC00 ≤ c.toNat ∧ c.toNat ≤ 0xDFFF) := by omega
  simp only [unescapeUnicode, hunit, if_neg hhigh, if_neg hlow, Char.ofNat_toNat]

/-- How a character is written: in two, in six, or as it is. -/
theorem escapeChar_cases (c : Char) :
    (∃ d ∈ "\"\\bfnrt".toList, escapeChar c = ['\\', d] ∧
      ∀ cs, unescape (d :: cs) = some (c, cs)) ∨
    c.toNat < 0x20 ∧ escapeChar c = ['\\', 'u', '0', '0', Nat.digitChar (c.toNat / 16),
      Nat.digitChar (c.toNat % 16)] ∨
    c ≠ '"' ∧ c ≠ '\\' ∧ 0x20 ≤ c.toNat ∧ escapeChar c = [c] := by
  by_cases h1 : c = '"'
  · exact .inl ⟨'"', by decide, by rw [h1]; rfl, fun cs => by rw [h1]; rfl⟩
  by_cases h2 : c = '\\'
  · exact .inl ⟨'\\', by decide, by rw [h2]; rfl, fun cs => by rw [h2]; rfl⟩
  by_cases h3 : c = '\x08'
  · exact .inl ⟨'b', by decide, by rw [h3]; rfl, fun cs => by rw [h3]; rfl⟩
  by_cases h4 : c = '\x0c'
  · exact .inl ⟨'f', by decide, by rw [h4]; rfl, fun cs => by rw [h4]; rfl⟩
  by_cases h5 : c = '\n'
  · exact .inl ⟨'n', by decide, by rw [h5]; rfl, fun cs => by rw [h5]; rfl⟩
  by_cases h6 : c = '\r'
  · exact .inl ⟨'r', by decide, by rw [h6]; rfl, fun cs => by rw [h6]; rfl⟩
  by_cases h7 : c = '\t'
  · exact .inl ⟨'t', by decide, by rw [h7]; rfl, fun cs => by rw [h7]; rfl⟩
  rw [escapeChar, if_neg h1, if_neg h2, if_neg h3, if_neg h4, if_neg h5, if_neg h6, if_neg h7]
  by_cases h8 : c.toNat < 0x20
  · exact .inr (.inl ⟨h8, if_pos h8⟩)
  · exact .inr (.inr ⟨h1, h2, not_lt.mp h8, if_neg h8⟩)

theorem one_le_length_escapeChar (c : Char) : 1 ≤ (escapeChar c).length := by
  rcases escapeChar_cases c with ⟨d, -, hc, -⟩ | ⟨-, hc⟩ | ⟨-, -, -, hc⟩
  · rw [hc]
    exact Nat.le_add_left 1 1
  · rw [hc]
    exact Nat.le_add_left 1 5
  · rw [hc]
    exact le_rfl

/-- One turn of the lexer undoes one escaped character. -/
theorem lexString_escapeChar (fuel : ℕ) (c : Char) (cs : List Char) :
    lexString (fuel + 1) (escapeChar c ++ cs) =
      (lexString fuel cs).map fun r => (c :: r.1, r.2) := by
  have hback {d : Char} {ds : List Char} (hd : unescape (d :: ds) = some (c, cs)) :
      lexString (fuel + 1) ('\\' :: d :: ds) = (lexString fuel cs).map fun r => (c :: r.1, r.2) := by
    simp only [lexString, hd]
    rfl
  rcases escapeChar_cases c with ⟨d, -, hc, hd⟩ | ⟨h, hc⟩ | ⟨hquote, hbackslash, h, hc⟩
  · rw [hc]
    exact hback (hd cs)
  · rw [hc]
    exact hback (unescapeUnicode_control h cs)
  · rw [hc, List.singleton_append, lexString, if_neg hquote, if_neg hbackslash,
      if_neg (not_lt.mpr h)]

theorem lexString_escape (s : List Char) {fuel : ℕ} (h : s.length < fuel) (rest : List Char) :
    lexString fuel (escape s ++ '"' :: rest) = some (s, rest) := by
  induction s generalizing fuel with
  | nil =>
    obtain ⟨fuel, rfl⟩ := Nat.exists_eq_succ_of_ne_zero (Nat.ne_of_gt h)
    rfl
  | cons c s ih =>
    obtain ⟨fuel, rfl⟩ := Nat.exists_eq_succ_of_ne_zero (Nat.ne_of_gt (Nat.zero_lt_of_lt h))
    have hs : s.length < fuel := Nat.lt_of_succ_lt_succ h
    have hesc : escape (c :: s) = escapeChar c ++ escape s := by simp [escape]
    rw [hesc, List.append_assoc, lexString_escapeChar, ih hs]
    rfl

theorem length_le_length_escape (s : List Char) : s.length ≤ (escape s).length := by
  induction s with
  | nil => exact Nat.zero_le _
  | cons c s ih =>
    have hc := one_le_length_escapeChar c
    simp only [escape, List.flatMap_cons, List.length_append, List.length_cons] at ih ⊢
    omega

theorem lexString_nil (fuel : ℕ) : lexString fuel [] = none := by cases fuel <;> rfl

/-- A backslash with less behind it than the escape needs ends the lexing. -/
theorem lexString_take_escapeChar (fuel : ℕ) (c : Char) {k : ℕ} (h : k < (escapeChar c).length) :
    lexString (fuel + 1) ((escapeChar c).take k) = none := by
  have htwo (d : Char) {k : ℕ} (hk : k < 2) : lexString (fuel + 1) (['\\', d].take k) = none := by
    obtain rfl | rfl : k = 0 ∨ k = 1 := by omega
    · rfl
    · rfl
  rcases escapeChar_cases c with ⟨d, -, hc, -⟩ | ⟨-, hc⟩ | ⟨-, -, -, hc⟩ <;> rw [hc] at h ⊢
  · exact htwo d h
  · change k < 6 at h
    obtain rfl | rfl | rfl | rfl | rfl | rfl :
      k = 0 ∨ k = 1 ∨ k = 2 ∨ k = 3 ∨ k = 4 ∨ k = 5 := by omega
    · rfl
    · rfl
    · rfl
    · rfl
    · rfl
    · rfl
  · obtain rfl : k = 0 := Nat.lt_one_iff.mp h
    rfl

/-- Without its closing quote a string is not lexed, wherever it stops. -/
theorem lexString_unterminated (s : List Char) (fuel : ℕ) {p : List Char} (h : p <+: escape s) :
    lexString fuel p = none := by
  induction s generalizing fuel p with
  | nil =>
    rw [List.prefix_nil.mp h]
    exact lexString_nil fuel
  | cons c s ih =>
    have hesc : escape (c :: s) = escapeChar c ++ escape s := by simp [escape]
    rw [hesc] at h
    by_cases hc : escapeChar c <+: p
    · obtain ⟨p', rfl⟩ := hc
      cases fuel with
      | zero => rfl
      | succ fuel =>
        rw [lexString_escapeChar, ih fuel ((List.prefix_append_right_inj _).mp h)]
        rfl
    · have hp : p <+: escapeChar c :=
        (List.prefix_or_prefix_of_prefix h (List.prefix_append _ _)).resolve_right hc
      have hlt : p.length < (escapeChar c).length :=
        lt_of_le_of_ne hp.length_le fun he => hc (hp.eq_of_length he ▸ List.prefix_refl _)
      cases fuel with
      | zero => rfl
      | succ fuel =>
        rw [List.prefix_iff_eq_take.mp hp]
        exact lexString_take_escapeChar fuel c hlt

end Strings

section Numbers

theorem isNumberChar_of_isDigit {c : Char} (h : c.isDigit = true) : isNumberChar c = true := by
  simp [isNumberChar, h]

theorem toDigits_head?_eq_zero (n : ℕ) (h : (Nat.toDigits 10 n).head? = some '0') : n = 0 := by
  induction n using Nat.strongRecOn with
  | ind n ih =>
    rw [Nat.toDigits_eq_if (by decide)] at h
    split_ifs at h with hlt
    · simpa using h
    · have hne : Nat.toDigits 10 (n / 10) ≠ [] := Nat.toDigits_ne_nil
      rw [List.head?_append_of_ne_nil _ hne] at h
      have := ih (n / 10) (Nat.div_lt_self (by omega) (by decide)) h
      omega

theorem takeWhile_isDigit_toDigits (n : ℕ) :
    (Nat.toDigits 10 n).takeWhile Char.isDigit = Nat.toDigits 10 n ∧
      (Nat.toDigits 10 n).dropWhile Char.isDigit = [] := by
  have hall : ∀ c ∈ Nat.toDigits 10 n, c.isDigit = true :=
    fun c hc => Nat.isDigit_of_mem_toDigits (by decide) (by decide) hc
  exact ⟨List.takeWhile_eq_self_iff.mpr hall, List.dropWhile_eq_nil_iff.mpr hall⟩

theorem readUnsigned_toDigits (negative : Bool) (n : ℕ)
    (h : -2 ^ 63 ≤ (if negative then -(n : ℤ) else n) ∧ (if negative then -(n : ℤ) else n) < 2 ^ 64) :
    readUnsigned negative (Nat.toDigits 10 n) = some (.int (if negative then -n else n)) := by
  obtain ⟨htake, hdrop⟩ := takeWhile_isDigit_toDigits n
  have hlead : ¬ (Nat.toDigits 10 n = [] ∨
      (Nat.toDigits 10 n).head? = some '0' ∧ (Nat.toDigits 10 n).length ≠ 1) := by
    rintro (hnil | ⟨hzero, hlen⟩)
    · exact Nat.toDigits_ne_nil hnil
    · rw [toDigits_head?_eq_zero n hzero] at hlen
      exact hlen rfl
  simp only [readUnsigned, htake, hdrop, if_neg hlead, if_true, Nat.ofDigitChars_ten_toDigits,
    if_pos h]

theorem readNumber_renderInt {n : ℤ} (h : -2 ^ 63 ≤ n ∧ n < 2 ^ 64) :
    readNumber (renderInt n) = some (.int n) := by
  unfold renderInt
  split_ifs with hneg
  · have hn : (-(n.natAbs : ℤ)) = n := by omega
    have hread := readUnsigned_toDigits true n.natAbs (by rw [if_pos rfl, hn]; exact h)
    rw [if_pos rfl, hn] at hread
    exact hread
  · have hn : (n.natAbs : ℤ) = n := by omega
    have hfirst : readNumber (Nat.toDigits 10 n.natAbs) =
        readUnsigned false (Nat.toDigits 10 n.natAbs) := by
      unfold readNumber
      split
      · rename_i u hu
        have := Nat.isDigit_of_mem_toDigits (b := 10) (n := n.natAbs) (c := '-') (by decide)
          (by decide) (by rw [hu]; exact List.mem_cons_self)
        exact absurd this (by decide)
      · rfl
    rw [hfirst, readUnsigned_toDigits false n.natAbs (by rw [if_neg Bool.false_ne_true, hn]; exact h),
      if_neg Bool.false_ne_true, hn]

theorem renderInt_isNumberChar (n : ℤ) : ∀ c ∈ renderInt n, isNumberChar c = true := by
  have hall : ∀ c ∈ Nat.toDigits 10 n.natAbs, isNumberChar c = true := fun c hc =>
    isNumberChar_of_isDigit (Nat.isDigit_of_mem_toDigits (by decide) (by decide) hc)
  unfold renderInt
  split_ifs
  · intro c hc
    rcases List.mem_cons.mp hc with rfl | hc
    · rfl
    · exact hall c hc
  · exact hall

theorem renderInt_ne_nil (n : ℤ) : renderInt n ≠ [] := by
  unfold renderInt
  split_ifs
  · exact List.cons_ne_nil _ _
  · exact Nat.toDigits_ne_nil

end Numbers

section Tokens

def Token.isNumber : Token → Bool
  | .int _ => true
  | .float _ => true
  | _ => false

/-- `lex` reads the token back. -/
def Token.Readable : Token → Prop
  | .int n => -2 ^ 63 ≤ n ∧ n < 2 ^ 64
  | .float literal =>
    literal ≠ [] ∧ (∀ c ∈ literal, isNumberChar c = true) ∧
      readNumber literal = some (.float literal)
  | _ => True

/-- The text does not go on with a number. -/
def NoNumberAhead (cs : List Char) : Prop := ∀ c ∈ cs.head?, isNumberChar c = false

theorem takeWhile_append_of_noNumberAhead {w cs : List Char}
    (hw : ∀ c ∈ w, isNumberChar c = true) (hcs : NoNumberAhead cs) :
    (w ++ cs).takeWhile isNumberChar = w ∧ (w ++ cs).dropWhile isNumberChar = cs := by
  rw [List.takeWhile_append_of_pos hw, List.dropWhile_append_of_pos hw]
  cases cs with
  | nil => simp
  | cons c cs =>
    have hc : isNumberChar c = false := hcs c rfl
    simp [hc]

theorem lex_number {w cs : List Char} {t : Token} (hne : w ≠ [])
    (hw : ∀ c ∈ w, isNumberChar c = true) (ht : readNumber w = some t) (hcs : NoNumberAhead cs)
    (fuel : ℕ) : lex (fuel + 1) (w ++ cs) = (lex fuel cs).map (t :: ·) := by
  obtain ⟨c, w', rfl⟩ := List.exists_cons_of_ne_nil hne
  have hc := hw c List.mem_cons_self
  have hother (d : Char) (hd : isNumberChar d = false) : c ≠ d := by
    rintro rfl
    rw [hc] at hd
    cases hd
  obtain ⟨htake, hdrop⟩ := takeWhile_append_of_noNumberAhead hw hcs
  have hspace : isSpace c = false := by
    simp [isSpace, hother ' ' (by decide), hother '\t' (by decide), hother '\n' (by decide),
      hother '\r' (by decide)]
  rw [List.cons_append] at htake hdrop ⊢
  simp only [lex, hspace, Bool.false_eq_true, if_false, if_neg (hother '{' (by decide)),
    if_neg (hother '}' (by decide)), if_neg (hother '[' (by decide)),
    if_neg (hother ']' (by decide)), if_neg (hother ':' (by decide)),
    if_neg (hother ',' (by decide)), if_neg (hother '"' (by decide)), hc, if_true, htake, hdrop, ht]

theorem lex_quote {fuel : ℕ} {cs rest s : List Char} (h : lexString fuel cs = some (s, rest)) :
    lex (fuel + 1) ('"' :: cs) = (lex fuel rest).map (.str s :: ·) := by
  simp [lex, isSpace, h]

theorem lex_quote_none {fuel : ℕ} {cs : List Char} (h : lexString fuel cs = none) :
    lex (fuel + 1) ('"' :: cs) = none := by
  simp [lex, isSpace, h]

/-- With enough fuel `lex` splits one rendered token off the text. -/
theorem lex_token {t : Token} (ht : t.Readable) {cs : List Char}
    (hcs : t.isNumber = true → NoNumberAhead cs) {fuel : ℕ}
    (hfuel : (t.render ++ cs).length ≤ fuel) :
    lex (fuel + 1) (t.render ++ cs) = (lex fuel cs).map (t :: ·) := by
  cases t with
  | beginObject => rfl
  | endObject => rfl
  | beginArray => rfl
  | endArray => rfl
  | colon => rfl
  | comma => rfl
  | null => rfl
  | bool b => cases b <;> rfl
  | int n =>
    exact lex_number (renderInt_ne_nil n) (renderInt_isNumberChar n) (readNumber_renderInt ht)
      (hcs rfl) fuel
  | float literal => exact lex_number ht.1 ht.2.1 ht.2.2 (hcs rfl) fuel
  | str s =>
    have hlen : s.length < fuel := by
      have hesc := length_le_length_escape s
      simp only [Token.render, List.length_append, List.length_cons] at hfuel
      omega
    simp only [Token.render, List.cons_append, List.append_assoc, List.nil_append]
    exact lex_quote (lexString_escape s hlen cs)

/-- Numbers stand apart. -/
def Spaced : List Token → Prop
  | [] => True
  | t :: ts => (t.isNumber = true → ∀ t' ∈ ts.head?, t'.isNumber = false) ∧ Spaced ts

theorem render_cons (t : Token) (ts : List Token) : render (t :: ts) = t.render ++ render ts := rfl

theorem render_append (ts us : List Token) : render (ts ++ us) = render ts ++ render us :=
  List.flatMap_append

theorem noNumberAhead_render {t : Token} (h : t.isNumber = false) (cs : List Char) :
    NoNumberAhead (t.render ++ cs) := by
  intro c hc
  cases t with
  | int n => cases h
  | float literal => cases h
  | bool b => cases b <;> cases hc <;> rfl
  | _ => cases hc; rfl

theorem Spaced.noNumberAhead {t : Token} {ts : List Token} (h : Spaced (t :: ts))
    (ht : t.isNumber = true) {cs : List Char} (hcs : NoNumberAhead cs) :
    NoNumberAhead (render ts ++ cs) := by
  cases ts with
  | nil => exact hcs
  | cons t' ts =>
    rw [render_cons, List.append_assoc]
    exact noNumberAhead_render (h.1 ht t' rfl) _

theorem one_le_length_render {t : Token} (h : t.Readable) : 1 ≤ t.render.length := by
  cases t with
  | int n => exact List.length_pos_iff.mpr (renderInt_ne_nil n)
  | float literal => exact List.length_pos_iff.mpr h.1
  | bool b => cases b <;> exact Nat.succ_pos _
  | _ => exact Nat.succ_pos _

/-- `lex` splits a list of rendered tokens off the text, provided the rest is no number. -/
theorem lex_render {ts : List Token} (hr : ∀ t ∈ ts, t.Readable) (hs : Spaced ts)
    (cs : List Char) (hcs : NoNumberAhead cs) {fuel : ℕ}
    (hfuel : (render ts ++ cs).length < fuel) :
    ∃ fuel', cs.length < fuel' ∧ lex fuel (render ts ++ cs) = (lex fuel' cs).map (ts ++ ·) := by
  induction ts generalizing fuel with
  | nil => exact ⟨fuel, hfuel, by cases h : lex fuel cs <;> simp [render, h]⟩
  | cons t ts ih =>
    obtain ⟨fuel, rfl⟩ := Nat.exists_eq_succ_of_ne_zero (Nat.ne_of_gt (Nat.zero_lt_of_lt hfuel))
    have ht := hr t List.mem_cons_self
    rw [render_cons, List.append_assoc] at hfuel ⊢
    have hlen := one_le_length_render ht
    have hfuel' : (render ts ++ cs).length < fuel := by
      rw [List.length_append] at hfuel
      omega
    obtain ⟨fuel', hlt, hlex⟩ := ih (fun t' ht' => hr t' (List.mem_cons_of_mem t ht')) hs.2 hfuel'
    refine ⟨fuel', hlt, ?_⟩
    rw [lex_token ht (fun hn => hs.noNumberAhead hn hcs) (Nat.lt_succ_iff.mp hfuel), hlex,
      Option.map_map]
    rfl

/-- A text that stops inside a string has no tokens. -/
theorem lex_unterminated {ts : List Token} (hr : ∀ t ∈ ts, t.Readable) (hs : Spaced ts)
    {s p : List Char} (hp : p <+: escape s) {fuel : ℕ}
    (hfuel : (render ts ++ '"' :: p).length < fuel) : lex fuel (render ts ++ '"' :: p) = none := by
  obtain ⟨fuel', hlt, hlex⟩ :=
    lex_render hr hs ('"' :: p) (fun c hc => by cases hc; rfl) hfuel
  obtain ⟨fuel', rfl⟩ := Nat.exists_eq_succ_of_ne_zero (Nat.ne_of_gt (Nat.zero_lt_of_lt hlt))
  rw [hlex, lex_quote_none (lexString_unterminated s fuel' hp)]
  rfl

end Tokens

section Values

/-- Keys in order, each once. -/
def SortedKeys (ms : Members) : Prop := (ms.map (·.1)).Pairwise (· < ·)

mutual

def Json.WellFormed : Json → Prop
  | .null => True
  | .bool _ => True
  | .int n => (Token.int n).Readable
  | .float literal => (Token.float literal).Readable
  | .str _ => True
  | .arr xs => elementsWellFormed xs
  | .obj ms => SortedKeys ms ∧ membersWellFormed ms

def elementsWellFormed : List Json → Prop
  | [] => True
  | x :: xs => x.WellFormed ∧ elementsWellFormed xs

def membersWellFormed : List (List Char × Json) → Prop
  | [] => True
  | (_, x) :: ms => x.WellFormed ∧ membersWellFormed ms

end

mutual

theorem tokens_readable : (j : Json) → j.WellFormed → ∀ t ∈ j.tokens, t.Readable
  | .null, _ => by simp [Json.tokens, Token.Readable]
  | .bool b, _ => by simp [Json.tokens, Token.Readable]
  | .int n, h => by simpa [Json.tokens, Json.WellFormed] using h
  | .float literal, h => by simpa [Json.tokens, Json.WellFormed] using h
  | .str s, _ => by simp [Json.tokens, Token.Readable]
  | .arr [], _ => by simp [Json.tokens, Token.Readable]
  | .arr (x :: xs), h => by
    intro t ht
    rw [Json.tokens, List.mem_cons, List.mem_append] at ht
    rcases ht with rfl | ht | ht
    · trivial
    · exact tokens_readable x h.1 t ht
    · exact elementTokens_readable xs h.2 t ht
  | .obj [], _ => by simp [Json.tokens, Token.Readable]
  | .obj ((k, x) :: ms), h => by
    intro t ht
    rw [Json.tokens, List.mem_cons, List.mem_cons, List.mem_cons, List.mem_append] at ht
    rcases ht with rfl | rfl | rfl | ht | ht
    · trivial
    · trivial
    · trivial
    · exact tokens_readable x h.2.1 t ht
    · exact memberTokens_readable ms h.2.2 t ht

theorem elementTokens_readable :
    (xs : List Json) → elementsWellFormed xs → ∀ t ∈ elementTokens xs, t.Readable
  | [], _ => by simp [elementTokens, Token.Readable]
  | x :: xs, h => by
    intro t ht
    rw [elementTokens, List.mem_cons, List.mem_append] at ht
    rcases ht with rfl | ht | ht
    · trivial
    · exact tokens_readable x h.1 t ht
    · exact elementTokens_readable xs h.2 t ht

theorem memberTokens_readable :
    (ms : List (List Char × Json)) → membersWellFormed ms → ∀ t ∈ memberTokens ms, t.Readable
  | [], _ => by simp [memberTokens, Token.Readable]
  | (k, x) :: ms, h => by
    intro t ht
    rw [memberTokens, List.mem_cons, List.mem_cons, List.mem_cons, List.mem_append] at ht
    rcases ht with rfl | rfl | rfl | ht | ht
    · trivial
    · trivial
    · trivial
    · exact tokens_readable x h.1 t ht
    · exact memberTokens_readable ms h.2 t ht

end

/-- The tokens do not go on with a number. -/
def NoNumberNext (ts : List Token) : Prop := ∀ t ∈ ts.head?, t.isNumber = false

theorem Spaced.cons {t : Token} {ts : List Token} (h : Spaced ts) (ht : NoNumberNext ts) :
    Spaced (t :: ts) := ⟨fun _ => ht, h⟩

theorem Spaced.cons_of_not_number {t : Token} {ts : List Token} (h : Spaced ts)
    (ht : t.isNumber = false) : Spaced (t :: ts) :=
  ⟨fun hn => absurd (ht.symm.trans hn) Bool.false_ne_true, h⟩

theorem noNumberNext_elementTokens (xs : List Json) (ts : List Token) :
    NoNumberNext (elementTokens xs ++ ts) := by
  cases xs <;> rintro t ⟨⟩ <;> rfl

theorem noNumberNext_memberTokens (ms : List (List Char × Json)) (ts : List Token) :
    NoNumberNext (memberTokens ms ++ ts) := by
  rcases ms with _ | ⟨⟨k, x⟩, ms⟩ <;> rintro t ⟨⟩ <;> rfl

mutual

theorem spaced_tokens : (j : Json) → (ts : List Token) → Spaced ts → NoNumberNext ts →
    Spaced (j.tokens ++ ts)
  | .null, _, h, hn => h.cons hn
  | .bool _, _, h, hn => h.cons hn
  | .int _, _, h, hn => h.cons hn
  | .float _, _, h, hn => h.cons hn
  | .str _, _, h, hn => h.cons hn
  | .arr [], _, h, _ => (h.cons_of_not_number rfl).cons_of_not_number rfl
  | .arr (x :: xs), ts, h, _ => by
    rw [Json.tokens, List.cons_append, List.append_assoc]
    exact (spaced_tokens x _ (spaced_elementTokens xs ts h)
      (noNumberNext_elementTokens xs ts)).cons_of_not_number rfl
  | .obj [], _, h, _ => (h.cons_of_not_number rfl).cons_of_not_number rfl
  | .obj ((k, x) :: ms), ts, h, _ => by
    rw [Json.tokens, List.cons_append, List.cons_append, List.cons_append, List.append_assoc]
    exact (((spaced_tokens x _ (spaced_memberTokens ms ts h)
      (noNumberNext_memberTokens ms ts)).cons_of_not_number rfl).cons_of_not_number
        rfl).cons_of_not_number rfl

theorem spaced_elementTokens : (xs : List Json) → (ts : List Token) → Spaced ts →
    Spaced (elementTokens xs ++ ts)
  | [], _, h => h.cons_of_not_number rfl
  | x :: xs, ts, h => by
    rw [elementTokens, List.cons_append, List.append_assoc]
    exact (spaced_tokens x _ (spaced_elementTokens xs ts h)
      (noNumberNext_elementTokens xs ts)).cons_of_not_number rfl

theorem spaced_memberTokens : (ms : List (List Char × Json)) → (ts : List Token) → Spaced ts →
    Spaced (memberTokens ms ++ ts)
  | [], _, h => h.cons_of_not_number rfl
  | (k, x) :: ms, ts, h => by
    rw [memberTokens, List.cons_append, List.cons_append, List.cons_append, List.append_assoc]
    exact (((spaced_tokens x _ (spaced_memberTokens ms ts h)
      (noNumberNext_memberTokens ms ts)).cons_of_not_number rfl).cons_of_not_number
        rfl).cons_of_not_number rfl

end

theorem head?_tokens_ne_endArray (j : Json) (ts : List Token) :
    (j.tokens ++ ts).head? ≠ some .endArray := by
  match j with
  | .null => rintro ⟨⟩
  | .bool _ => rintro ⟨⟩
  | .int _ => rintro ⟨⟩
  | .float _ => rintro ⟨⟩
  | .str _ => rintro ⟨⟩
  | .arr [] => rintro ⟨⟩
  | .arr (_ :: _) => rintro ⟨⟩
  | .obj [] => rintro ⟨⟩
  | .obj ((_, _) :: _) => rintro ⟨⟩

theorem parseValue_beginArray {ts : List Token} (h : ts.head? ≠ some .endArray) (fuel : ℕ) :
    parseValue (fuel + 1) (.beginArray :: ts) = (do
      let (x, ts) ← parseValue fuel ts
      let (xs, ts) ← parseElements fuel ts
      return (.arr (x :: xs), ts)) := by
  cases ts with
  | nil => rw [parseValue]; rintro _ ⟨⟩
  | cons t ts =>
    rw [parseValue]
    rintro ts' ⟨rfl, rfl⟩
    exact h rfl

theorem insert_of_lt {k : List Char} {v : Json} {ms : Members} (h : ∀ m ∈ ms, m.1 < k) :
    insert k v ms = ms ++ [(k, v)] := by
  induction ms with
  | nil => rfl
  | cons m ms ih =>
    have hm := h m List.mem_cons_self
    rw [insert, if_neg hm.asymm, if_neg hm.ne', ih fun m' hm' => h m' (List.mem_cons_of_mem m hm')]
    rfl

/-- Sorted members are what assigning them in turn gives. -/
theorem ofMembers_of_sorted {ms : Members} (h : SortedKeys ms) : ofMembers ms = ms := by
  have hfold (acc ms : Members) (h : SortedKeys (acc ++ ms)) :
      ms.foldl (fun acc m => insert m.1 m.2 acc) acc = acc ++ ms := by
    induction ms generalizing acc with
    | nil => rw [List.append_nil]; rfl
    | cons m ms ih =>
      have hlt : ∀ m' ∈ acc, m'.1 < m.1 := by
        intro m' hm'
        rw [SortedKeys, List.map_append, List.pairwise_append] at h
        exact h.2.2 _ (List.mem_map_of_mem hm') _ (List.mem_map_of_mem List.mem_cons_self)
      rw [List.foldl_cons, insert_of_lt hlt, ih (acc ++ [(m.1, m.2)]) (by simpa using h)]
      simp
  exact hfold [] ms h

mutual

/-- The tokens of a value are read back as that value. -/
theorem parseValue_tokens : (j : Json) → j.WellFormed → (ts : List Token) → (fuel : ℕ) →
    j.tokens.length < fuel → parseValue fuel (j.tokens ++ ts) = some (j, ts)
  | _, _, _, 0, h => absurd h (Nat.not_lt_zero _)
  | .null, _, _, _ + 1, _ => rfl
  | .bool _, _, _, _ + 1, _ => rfl
  | .int _, _, _, _ + 1, _ => rfl
  | .float _, _, _, _ + 1, _ => rfl
  | .str _, _, _, _ + 1, _ => rfl
  | .arr [], _, _, _ + 1, _ => rfl
  | .arr (x :: xs), h, ts, fuel + 1, hfuel => by
    simp only [Json.tokens, List.length_cons, List.length_append] at hfuel
    rw [Json.tokens, List.cons_append, List.append_assoc,
      parseValue_beginArray (head?_tokens_ne_endArray x _), parseValue_tokens x h.1 _ fuel (by omega)]
    simp only [Option.bind_eq_bind, Option.bind_some]
    rw [parseElements_elementTokens xs h.2 ts fuel (by omega)]
    rfl
  | .obj [], _, _, _ + 1, _ => rfl
  | .obj ((k, x) :: ms), h, ts, fuel + 1, hfuel => by
    simp only [Json.tokens, List.length_cons, List.length_append] at hfuel
    rw [Json.tokens, List.cons_append, List.cons_append, List.cons_append, List.append_assoc,
      parseValue, parseValue_tokens x h.2.1 _ fuel (by omega)]
    simp only [Option.bind_eq_bind, Option.bind_some]
    rw [parseMembers_memberTokens ms h.2.2 ts fuel (by omega)]
    simp only [Option.bind_some, ofMembers_of_sorted h.1]
    rfl

theorem parseElements_elementTokens : (xs : List Json) → elementsWellFormed xs →
    (ts : List Token) → (fuel : ℕ) → (elementTokens xs).length < fuel →
    parseElements fuel (elementTokens xs ++ ts) = some (xs, ts)
  | _, _, _, 0, h => absurd h (Nat.not_lt_zero _)
  | [], _, _, _ + 1, _ => rfl
  | x :: xs, h, ts, fuel + 1, hfuel => by
    simp only [elementTokens, List.length_cons, List.length_append] at hfuel
    rw [elementTokens, List.cons_append, List.append_assoc, parseElements,
      parseValue_tokens x h.1 _ fuel (by omega)]
    simp only [Option.bind_eq_bind, Option.bind_some]
    rw [parseElements_elementTokens xs h.2 ts fuel (by omega)]
    rfl

theorem parseMembers_memberTokens : (ms : List (List Char × Json)) → membersWellFormed ms →
    (ts : List Token) → (fuel : ℕ) → (memberTokens ms).length < fuel →
    parseMembers fuel (memberTokens ms ++ ts) = some (ms, ts)
  | _, _, _, 0, h => absurd h (Nat.not_lt_zero _)
  | [], _, _, _ + 1, _ => rfl
  | (k, x) :: ms, h, ts, fuel + 1, hfuel => by
    simp only [memberTokens, List.length_cons, List.length_append] at hfuel
    rw [memberTokens, List.cons_append, List.cons_append, List.cons_append, List.append_assoc,
      parseMembers, parseValue_tokens x h.1 _ fuel (by omega)]
    simp only [Option.bind_eq_bind, Option.bind_some]
    rw [parseMembers_memberTokens ms h.2 ts fuel (by omega)]
    rfl

end

theorem parse_dump {j : Json} (h : j.WellFormed) : parse (dump j) = some j := by
  have hspaced : Spaced j.tokens := by
    have := spaced_tokens j [] trivial (fun t ht => by cases ht)
    rwa [List.append_nil] at this
  have hfuel : (render j.tokens ++ []).length < (dump j).length + 1 := by simp [dump]
  obtain ⟨fuel, hlt, hlex⟩ :=
    lex_render (tokens_readable j h) hspaced [] (fun c hc => by cases hc) hfuel
  obtain ⟨fuel, rfl⟩ := Nat.exists_eq_succ_of_ne_zero (Nat.ne_of_gt hlt)
  rw [List.append_nil] at hlex
  have hparse := parseValue_tokens j h [] (j.tokens.length + 1) (Nat.lt_succ_self _)
  rw [List.append_nil] at hparse
  simp only [parse, dump] at hlex ⊢
  simp only [hlex, lex, Option.map_some, List.append_nil, hparse]

section Escape

/-- An escaped character keeps itself, or is written in these. -/
theorem mem_escapeChar {c d : Char} (h : c ∈ escapeChar d) :
    c = d ∧ 0x20 ≤ d.toNat ∨ c ∈ "\"\\bfnrtu0123456789abcdef".toList := by
  have hpair {e : Char} (he : e ∈ "\"\\bfnrtu0123456789abcdef".toList) (hc : c ∈ ['\\', e]) :
      c ∈ "\"\\bfnrtu0123456789abcdef".toList := by
    rcases List.mem_cons.mp hc with rfl | hc
    · decide
    · rwa [List.mem_singleton.mp hc]
  have hdigit : ∀ m < 16, Nat.digitChar m ∈ "\"\\bfnrtu0123456789abcdef".toList := by decide
  have hletters : "\"\\bfnrtu0123456789abcdef".toList =
      "\"\\bfnrt".toList ++ "u0123456789abcdef".toList := rfl
  rcases escapeChar_cases d with ⟨e, he, hc, -⟩ | ⟨hlt, hc⟩ | ⟨-, -, hge, hc⟩ <;> rw [hc] at h
  · have he' : e ∈ "\"\\bfnrtu0123456789abcdef".toList := by
      rw [hletters]
      exact List.mem_append_left _ he
    exact .inr (hpair he' h)
  · have hhigh := hdigit (d.toNat / 16) (by omega)
    have hlow := hdigit (d.toNat % 16) (by omega)
    simp only [List.mem_cons, List.not_mem_nil, or_false] at h
    rcases h with rfl | rfl | rfl | rfl | rfl | rfl
    · exact .inr (by decide)
    · exact .inr (by decide)
    · exact .inr (by decide)
    · exact .inr (by decide)
    · exact .inr hhigh
    · exact .inr hlow
  · exact .inl ⟨List.mem_singleton.mp h, hge⟩

/-- A character that `dump` writes as it is. -/
def needsNoEscape (c : Char) : Bool := c != '"' && c != '\\' && decide (0x20 ≤ c.toNat)

theorem escapeChar_eq {c : Char} (h : needsNoEscape c = true) : escapeChar c = [c] := by
  simp only [needsNoEscape, Bool.and_eq_true, bne_iff_ne, decide_eq_true_eq] at h
  have hne (d : Char) (hd : d.toNat < 0x20) : c ≠ d := by
    rintro rfl
    omega
  rw [escapeChar, if_neg h.1.1, if_neg h.1.2, if_neg (hne _ (by decide)), if_neg (hne _ (by decide)),
    if_neg (hne _ (by decide)), if_neg (hne _ (by decide)), if_neg (hne _ (by decide)),
    if_neg (by omega)]

theorem two_le_length_escapeChar {c : Char} (h : needsNoEscape c = false) :
    2 ≤ (escapeChar c).length := by
  rcases escapeChar_cases c with ⟨d, -, hc, -⟩ | ⟨-, hc⟩ | ⟨hquote, hbackslash, hge, -⟩
  · rw [hc]
    exact le_rfl
  · rw [hc]
    exact Nat.le_add_left 2 4
  · simp [needsNoEscape, hquote, hbackslash] at h
    omega

theorem escape_of_forall {text : List Char} (h : ∀ c ∈ text, escapeChar c = [c]) :
    escape text = text := by
  induction text with
  | nil => rfl
  | cons c cs ih =>
    rw [escape, List.flatMap_cons, h c List.mem_cons_self]
    exact congrArg (c :: ·) (ih fun d hd => h d (List.mem_cons_of_mem c hd))

/-- Strings are told apart by what stands between their quotes. -/
theorem escape_injective : Function.Injective escape := by
  intro s t h
  have hdump : dump (.str s) = dump (.str t) := by
    simp only [dump, Json.tokens, render, List.flatMap_cons, List.flatMap_nil, Token.render, h]
  have hs : parse (dump (.str s)) = some (.str s) := parse_dump trivial
  have ht : parse (dump (.str t)) = some (.str t) := parse_dump trivial
  rw [hdump, ht] at hs
  cases hs
  rfl

theorem escape_eq_self_iff {text : List Char} :
    escape text = text ↔ text.all needsNoEscape = true := by
  rw [List.all_eq_true]
  constructor
  · intro h
    induction text with
    | nil => exact fun c hc => absurd hc List.not_mem_nil
    | cons c cs ih =>
      rw [escape, List.flatMap_cons, ← escape] at h
      by_cases hc : needsNoEscape c = true
      · rw [escapeChar_eq hc, List.singleton_append, List.cons.injEq] at h
        exact List.forall_mem_cons.mpr ⟨hc, ih h.2⟩
      · have hlen := congrArg List.length h
        have htwo := two_le_length_escapeChar (Bool.not_eq_true _ ▸ hc)
        have hcs := length_le_length_escape cs
        rw [List.length_append, List.length_cons] at hlen
        omega
  · intro h
    exact escape_of_forall fun c hc => escapeChar_eq (h c hc)

end Escape

/-- A dumped value cut inside one of its strings is not parsed. -/
theorem parse_cut {j : Json} (h : j.WellFormed) {before after : List Token} {s p : List Char}
    (hj : j.tokens = before ++ .str s :: after) (hp : p <+: escape s) :
    parse (render before ++ '"' :: p) = none := by
  have hreadable : ∀ t ∈ before, t.Readable := fun t ht =>
    tokens_readable j h t (by rw [hj]; exact List.mem_append_left _ ht)
  have hspaced : Spaced before := by
    have hall := spaced_tokens j [] trivial (fun t ht => by cases ht)
    rw [List.append_nil, hj] at hall
    clear hj hreadable
    induction before with
    | nil => trivial
    | cons t ts ih =>
      refine ⟨fun hn t' ht' => hall.1 hn t' ?_, ih hall.2⟩
      cases ts with
      | nil => cases ht'
      | cons t'' ts => exact ht'
  rw [parse, lex_unterminated hreadable hspaced hp (Nat.lt_succ_self _)]

end Values

end JsonText

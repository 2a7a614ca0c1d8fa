import AmpRack.JsonBraces

/-!
# Indented text

`pretty` is the text of a value with an indentation of four, as `std::setw (4)` asks for it. A
text is laid out when every token has its white space in front of it; `lex` skips the white space,
so `parse` inverts `pretty` as it inverts `dump`. What `parse` accepts is well formed.
-/

namespace JsonText

/-- A token with the white space in front of it. -/
abbrev Laid := List Char × Token

def newline (indent : ℕ) : List Char := '\n' :: List.replicate indent ' '

mutual

/-- `space` stands in front of the value. -/
def Json.laid (space : List Char) (indent : ℕ) : Json → List Laid
  | .null => [(space, .null)]
  | .bool b => [(space, .bool b)]
  | .int n => [(space, .int n)]
  | .float literal => [(space, .float literal)]
  | .str s => [(space, .str s)]
  | .arr [] => [(space, .beginArray), ([], .endArray)]
  | .arr (x :: xs) =>
    (space, .beginArray) :: (x.laid (newline (indent + 4)) (indent + 4) ++ laidElements indent xs)
  | .obj [] => [(space, .beginObject), ([], .endObject)]
  | .obj ((k, x) :: ms) =>
    (space, .beginObject) :: (newline (indent + 4), .str k) :: ([], .colon) ::
      (x.laid [' '] (indent + 4) ++ laidMembers indent ms)

/-- The elements after the first, with the closing bracket. -/
def laidElements (indent : ℕ) : List Json → List Laid
  | [] => [(newline indent, .endArray)]
  | x :: xs =>
    ([], .comma) :: (x.laid (newline (indent + 4)) (indent + 4) ++ laidElements indent xs)

def laidMembers (indent : ℕ) : List (List Char × Json) → List Laid
  | [] => [(newline indent, .endObject)]
  | (k, x) :: ms =>
    ([], .comma) :: (newline (indent + 4), .str k) :: ([], .colon) ::
      (x.laid [' '] (indent + 4) ++ laidMembers indent ms)

end

def layout (es : List Laid) : List Char := es.flatMap fun e => e.1 ++ e.2.render

def pretty (j : Json) : List Char := layout (j.laid [] 0)

example : pretty (.obj [(['a'], .arr [.int 1, .null]), (['b'], .obj [])]) =
    "\x7b\n    \"a\": [\n        1,\n        null\n    ],\n    \"b\": \x7b\x7d\n\x7d".toList := by
  decide

section Layout

mutual

/-- Laying out a value leaves its tokens. -/
theorem map_laid : (j : Json) → (space : List Char) → (indent : ℕ) →
    (j.laid space indent).map (·.2) = j.tokens
  | .null, _, _ => rfl
  | .bool _, _, _ => rfl
  | .int _, _, _ => rfl
  | .float _, _, _ => rfl
  | .str _, _, _ => rfl
  | .arr [], _, _ => rfl
  | .arr (x :: xs), space, indent => by
    rw [Json.laid, List.map_cons, List.map_append, map_laid x, map_laidElements xs, Json.tokens]
  | .obj [], _, _ => rfl
  | .obj ((k, x) :: ms), space, indent => by
    rw [Json.laid, List.map_cons, List.map_cons, List.map_cons, List.map_append, map_laid x,
      map_laidMembers ms, Json.tokens]

theorem map_laidElements : (xs : List Json) → (indent : ℕ) →
    (laidElements indent xs).map (·.2) = elementTokens xs
  | [], _ => rfl
  | x :: xs, indent => by
    rw [laidElements, List.map_cons, List.map_append, map_laid x, map_laidElements xs,
      elementTokens]

theorem map_laidMembers : (ms : List (List Char × Json)) → (indent : ℕ) →
    (laidMembers indent ms).map (·.2) = memberTokens ms
  | [], _ => rfl
  | (k, x) :: ms, indent => by
    rw [laidMembers, List.map_cons, List.map_cons, List.map_cons, List.map_append, map_laid x,
      map_laidMembers ms, memberTokens]

end

def IsWhite (space : List Char) : Prop := ∀ c ∈ space, isSpace c = true

theorem isWhite_newline (indent : ℕ) : IsWhite (newline indent) := by
  intro c hc
  rcases List.mem_cons.mp hc with rfl | hc
  · rfl
  · rw [List.eq_of_mem_replicate hc]
    rfl

theorem isWhite_nil : IsWhite [] := fun _ h => absurd h List.not_mem_nil

theorem isWhite_blank : IsWhite [' '] := by
  intro c hc
  rw [List.mem_singleton.mp hc]
  rfl

mutual

theorem isWhite_laid : (j : Json) → (space : List Char) → IsWhite space → (indent : ℕ) →
    ∀ e ∈ j.laid space indent, IsWhite e.1
  | .null, _, h, _ => List.forall_mem_singleton.mpr h
  | .bool _, _, h, _ => List.forall_mem_singleton.mpr h
  | .int _, _, h, _ => List.forall_mem_singleton.mpr h
  | .float _, _, h, _ => List.forall_mem_singleton.mpr h
  | .str _, _, h, _ => List.forall_mem_singleton.mpr h
  | .arr [], _, h, _ => List.forall_mem_cons.mpr ⟨h, List.forall_mem_singleton.mpr isWhite_nil⟩
  | .arr (x :: xs), space, h, indent => by
    rw [Json.laid, List.forall_mem_cons, List.forall_mem_append]
    exact ⟨h, isWhite_laid x _ (isWhite_newline _) _, isWhite_laidElements xs indent⟩
  | .obj [], _, h, _ => List.forall_mem_cons.mpr ⟨h, List.forall_mem_singleton.mpr isWhite_nil⟩
  | .obj ((k, x) :: ms), space, h, indent => by
    rw [Json.laid, List.forall_mem_cons, List.forall_mem_cons, List.forall_mem_cons,
      List.forall_mem_append]
    exact ⟨h, isWhite_newline _, isWhite_nil, isWhite_laid x _ isWhite_blank _,
      isWhite_laidMembers ms indent⟩

theorem isWhite_laidElements : (xs : List Json) → (indent : ℕ) →
    ∀ e ∈ laidElements indent xs, IsWhite e.1
  | [], indent => List.forall_mem_singleton.mpr (isWhite_newline indent)
  | x :: xs, indent => by
    rw [laidElements, List.forall_mem_cons, List.forall_mem_append]
    exact ⟨isWhite_nil, isWhite_laid x _ (isWhite_newline _) _, isWhite_laidElements xs indent⟩

theorem isWhite_laidMembers : (ms : List (List Char × Json)) → (indent : ℕ) →
    ∀ e ∈ laidMembers indent ms, IsWhite e.1
  | [], indent => List.forall_mem_singleton.mpr (isWhite_newline indent)
  | (k, x) :: ms, indent => by
    rw [laidMembers, List.forall_mem_cons, List.forall_mem_cons, List.forall_mem_cons,
      List.forall_mem_append]
    exact ⟨isWhite_nil, isWhite_newline _, isWhite_nil, isWhite_laid x _ isWhite_blank _,
      isWhite_laidMembers ms indent⟩

end

/-- `lex` skips white space. -/
theorem lex_white {space : List Char} (h : IsWhite space) (cs : List Char) {fuel : ℕ}
    (hfuel : (space ++ cs).length < fuel) :
    ∃ fuel', cs.length < fuel' ∧ lex fuel (space ++ cs) = lex fuel' cs := by
  induction space generalizing fuel with
  | nil => exact ⟨fuel, hfuel, rfl⟩
  | cons c space ih =>
    obtain ⟨fuel, rfl⟩ := Nat.exists_eq_succ_of_ne_zero (Nat.ne_of_gt (Nat.zero_lt_of_lt hfuel))
    obtain ⟨hc, hspace⟩ := List.forall_mem_cons.mp h
    obtain ⟨fuel', hlt, hlex⟩ := ih hspace (Nat.lt_of_succ_lt_succ hfuel)
    refine ⟨fuel', hlt, ?_⟩
    rw [← hlex, List.cons_append, Nat.succ_eq_add_one, lex, if_pos hc]

theorem noNumberAhead_white {space : List Char} (h : IsWhite space) {cs : List Char}
    (hcs : NoNumberAhead cs) : NoNumberAhead (space ++ cs) := by
  cases space with
  | nil => exact hcs
  | cons c space =>
    rintro d ⟨⟩
    have hc := h c List.mem_cons_self
    simp only [isSpace, Bool.or_eq_true, decide_eq_true_eq] at hc
    rcases hc with ((rfl | rfl) | rfl) | rfl <;> rfl

theorem layout_cons (e : Laid) (es : List Laid) :
    layout (e :: es) = e.1 ++ (e.2.render ++ layout es) := by
  rw [← List.append_assoc]
  rfl

theorem noNumberAhead_layout {es : List Laid} (hwhite : ∀ e ∈ es, IsWhite e.1)
    (hnext : NoNumberNext (es.map (·.2))) {cs : List Char} (hcs : NoNumberAhead cs) :
    NoNumberAhead (layout es ++ cs) := by
  cases es with
  | nil => exact hcs
  | cons e es =>
    rw [layout_cons, List.append_assoc, List.append_assoc]
    exact noNumberAhead_white (hwhite e List.mem_cons_self)
      (noNumberAhead_render (hnext e.2 rfl) _)

/-- `lex` splits the tokens of a text that is laid out off the text. -/
theorem lex_layout {es : List Laid} (hwhite : ∀ e ∈ es, IsWhite e.1)
    (hr : ∀ e ∈ es, e.2.Readable) (hs : Spaced (es.map (·.2))) (cs : List Char)
    (hcs : NoNumberAhead cs) {fuel : ℕ} (hfuel : (layout es ++ cs).length < fuel) :
    ∃ fuel', cs.length < fuel' ∧
      lex fuel (layout es ++ cs) = (lex fuel' cs).map (es.map (·.2) ++ ·) := by
  induction es generalizing fuel with
  | nil => exact ⟨fuel, hfuel, by cases h : lex fuel cs <;> simp [layout, h]⟩
  | cons e es ih =>
    obtain ⟨he, hes⟩ := List.forall_mem_cons.mp hwhite
    obtain ⟨ht, hts⟩ := List.forall_mem_cons.mp hr
    rw [layout_cons, List.append_assoc, List.append_assoc] at hfuel ⊢
    obtain ⟨fuel₁, hfuel₁, hskip⟩ := lex_white he _ hfuel
    obtain ⟨fuel₁, rfl⟩ := Nat.exists_eq_succ_of_ne_zero (Nat.ne_of_gt (Nat.zero_lt_of_lt hfuel₁))
    have hlen := one_le_length_render ht
    have hfuel' : (layout es ++ cs).length < fuel₁ := by
      rw [List.length_append] at hfuel₁
      omega
    obtain ⟨fuel', hlt, hlex⟩ := ih hes hts hs.2 hfuel'
    refine ⟨fuel', hlt, ?_⟩
    have hahead (hn : e.2.isNumber = true) : NoNumberAhead (layout es ++ cs) :=
      noNumberAhead_layout hes (hs.1 hn) hcs
    rw [hskip, lex_token ht hahead (Nat.lt_succ_iff.mp hfuel₁), hlex, Option.map_map]
    rfl

end Layout

/-- White space behind the text does no harm. -/
theorem parse_pretty {j : Json} (h : j.WellFormed) {space : List Char} (hspace : IsWhite space) :
    parse (pretty j ++ space) = some j := by
  have htokens := map_laid j [] 0
  have hspaced : Spaced ((j.laid [] 0).map (·.2)) := by
    have hj := spaced_tokens j [] trivial (fun t ht => by cases ht)
    rwa [htokens, ← List.append_nil j.tokens]
  have hreadable : ∀ e ∈ j.laid [] 0, e.2.Readable := by
    intro e he
    apply tokens_readable j h
    rw [← htokens]
    exact List.mem_map_of_mem he
  have hahead : NoNumberAhead (space ++ []) := noNumberAhead_white hspace (fun c hc => by cases hc)
  rw [List.append_nil] at hahead
  obtain ⟨fuel, hlt, hlex⟩ := lex_layout (isWhite_laid j [] isWhite_nil 0) hreadable hspaced space
    hahead (Nat.lt_succ_self _)
  have hend : lex fuel space = some [] := by
    have hfuel : (space ++ []).length < fuel := by rwa [List.append_nil]
    obtain ⟨fuel', hlt', hskip⟩ := lex_white hspace [] hfuel
    obtain ⟨fuel', rfl⟩ := Nat.exists_eq_succ_of_ne_zero (Nat.ne_of_gt hlt')
    rw [List.append_nil] at hskip
    exact hskip
  have hparse := parseValue_tokens j h [] (j.tokens.length + 1) (Nat.lt_succ_self _)
  rw [List.append_nil] at hparse
  rw [hend, Option.map_some, List.append_nil, htokens] at hlex
  simp only [parse, pretty, hlex, hparse]

section Sound

theorem readUnsigned_cases {negative : Bool} {u : List Char} {t : Token}
    (h : readUnsigned negative u = some t) :
    (∃ n : ℤ, t = .int n ∧ -2 ^ 63 ≤ n ∧ n < 2 ^ 64) ∨
      t = .float ((if negative then ['-'] else []) ++ u) := by
  simp only [readUnsigned] at h
  by_cases hdigits : u.takeWhile Char.isDigit = [] ∨
      (u.takeWhile Char.isDigit).head? = some '0' ∧ (u.takeWhile Char.isDigit).length ≠ 1
  · rw [if_pos hdigits] at h
    cases h
  rw [if_neg hdigits] at h
  by_cases hrest : u.dropWhile Char.isDigit = []
  · rw [if_pos hrest] at h
    generalize (if negative = true then -(Nat.ofDigitChars 10 (u.takeWhile Char.isDigit) 0 : ℤ)
      else (Nat.ofDigitChars 10 (u.takeWhile Char.isDigit) 0 : ℤ)) = n at h
    by_cases hrange : -2 ^ 63 ≤ n ∧ n < 2 ^ 64
    · rw [if_pos hrange] at h
      exact .inl ⟨n, (Option.some.inj h).symm, hrange⟩
    · rw [if_neg hrange] at h
      exact .inr (Option.some.inj h).symm
  · rw [if_neg hrest] at h
    split at h
    · cases h
      exact .inr rfl
    · cases h

/-- A number that is no integer is kept as it was written. -/
theorem readNumber_cases {w : List Char} {t : Token} (h : readNumber w = some t) :
    (∃ n : ℤ, t = .int n ∧ -2 ^ 63 ≤ n ∧ n < 2 ^ 64) ∨ t = .float w := by
  unfold readNumber at h
  split at h
  · exact readUnsigned_cases h
  · exact readUnsigned_cases h

theorem readable_of_readNumber {w : List Char} {t : Token} (hne : w ≠ [])
    (hw : ∀ c ∈ w, isNumberChar c = true) (h : readNumber w = some t) : t.Readable := by
  rcases readNumber_cases h with ⟨n, rfl, hn⟩ | rfl
  · exact hn
  · exact ⟨hne, hw, h⟩

/-- One turn of the lexer skips a character or comes to a token. -/
theorem lex_cons_ok {fuel : ℕ} {c : Char} {cs : List Char} {ts : List Token}
    (h : lex (fuel + 1) (c :: cs) = some ts) :
    lex fuel cs = some ts ∨
      ∃ t cs' ts', t.Readable ∧ lex fuel cs' = some ts' ∧ ts = t :: ts' := by
  have htoken {t : Token} {cs' : List Char} (h : (lex fuel cs').map (t :: ·) = some ts)
      (ht : t.Readable) :
      ∃ t cs' ts', t.Readable ∧ lex fuel cs' = some ts' ∧ ts = t :: ts' := by
    obtain ⟨ts', hts', rfl⟩ := Option.map_eq_some_iff.mp h
    exact ⟨t, cs', ts', ht, hts', rfl⟩
  have hbranch {p : Prop} [Decidable p] {t : Token} {o : Option (List Token)}
      (h : (if p then (lex fuel cs).map (t :: ·) else o) = some ts) (ht : t.Readable) :
      (∃ t cs' ts', t.Readable ∧ lex fuel cs' = some ts' ∧ ts = t :: ts') ∨ o = some ts := by
    by_cases hp : p
    · rw [if_pos hp] at h
      exact .inl (htoken h ht)
    · rw [if_neg hp] at h
      exact .inr h
  rw [lex] at h
  by_cases hspace : isSpace c = true
  · rw [if_pos hspace] at h
    exact .inl h
  rw [if_neg hspace] at h
  right
  -- the six characters that are tokens by themselves
  iterate 6
    rcases hbranch h trivial with hdone | h
    · exact hdone
  by_cases hquote : c = '"'
  · rw [if_pos hquote] at h
    split at h
    · cases h
    · exact htoken h trivial
  rw [if_neg hquote] at h
  by_cases hnumber : isNumberChar c = true
  · rw [if_pos hnumber] at h
    split at h
    · cases h
    · rename_i t ht
      refine htoken h (readable_of_readNumber ?_ ?_ ht)
      · rw [List.takeWhile_cons_of_pos hnumber]
        exact List.cons_ne_nil _ _
      · exact fun d hd => List.mem_takeWhile_imp hd
  · rw [if_neg hnumber] at h
    split at h
    · exact htoken h trivial
    · exact htoken h trivial
    · exact htoken h trivial
    · cases h

theorem lex_readable {fuel : ℕ} {cs : List Char} {ts : List Token} (h : lex fuel cs = some ts) :
    ∀ t ∈ ts, t.Readable := by
  induction fuel generalizing cs ts with
  | zero => cases h
  | succ fuel ih =>
    cases cs with
    | nil =>
      cases h
      exact fun t ht => absurd ht List.not_mem_nil
    | cons c cs =>
      rcases lex_cons_ok h with h | ⟨t, cs', ts', ht, hlex, rfl⟩
      · exact ih h
      · exact List.forall_mem_cons.mpr ⟨ht, ih hlex⟩

theorem wellFormed_ofMembers {ms : Members} (h : membersWellFormed ms) :
    (Json.obj (ofMembers ms)).WellFormed :=
  ⟨sortedKeys_ofMembers ms,
    membersWellFormed_iff.mpr fun m hm => membersWellFormed_iff.mp h m (mem_ofMembers hm)⟩

section Parser

variable {fuel : ℕ} {ts rest : List Token} {x : Json} {xs : List Json}
  {ms : List (List Char × Json)}

/-- A value that is accepted is a token, two brackets, or a value behind a bracket and what goes on
up to the other. -/
theorem parseValue_ok (h : parseValue (fuel + 1) ts = some (x, rest)) :
    (∃ t, ts = t :: rest ∧ (t.Readable → x.WellFormed)) ∨
    (∃ t t', ts = t :: t' :: rest ∧ x.WellFormed) ∨
    (∃ ts' y ts₁ ys, ts = .beginArray :: ts' ∧ parseValue fuel ts' = some (y, ts₁) ∧
      parseElements fuel ts₁ = some (ys, rest) ∧ x = .arr (y :: ys)) ∨
    ∃ k ts' y ts₁ ms, ts = .beginObject :: .str k :: .colon :: ts' ∧
      parseValue fuel ts' = some (y, ts₁) ∧ parseMembers fuel ts₁ = some (ms, rest) ∧
      x = .obj (ofMembers ((k, y) :: ms)) := by
  unfold parseValue at h
  split at h
  · cases h
  · cases h
    exact .inl ⟨_, rfl, fun _ => trivial⟩
  · cases h
    exact .inl ⟨_, rfl, fun _ => trivial⟩
  · cases h
    exact .inl ⟨_, rfl, fun ht => ht⟩
  · cases h
    exact .inl ⟨_, rfl, fun ht => ht⟩
  · cases h
    exact .inl ⟨_, rfl, fun _ => trivial⟩
  · cases h
    exact .inr (.inl ⟨_, _, rfl, trivial⟩)
  · rename_i hfuel
    cases hfuel
    obtain ⟨⟨y, ts₁⟩, hy, h⟩ := Option.bind_eq_some_iff.mp h
    obtain ⟨⟨ys, ts₂⟩, hys, h⟩ := Option.bind_eq_some_iff.mp h
    cases h
    exact .inr (.inr (.inl ⟨_, y, ts₁, ys, rfl, hy, hys, rfl⟩))
  · cases h
    exact .inr (.inl ⟨_, _, rfl, .nil, trivial⟩)
  · rename_i k ts' hfuel
    cases hfuel
    obtain ⟨⟨y, ts₁⟩, hy, h⟩ := Option.bind_eq_some_iff.mp h
    obtain ⟨⟨ms, ts₂⟩, hms, h⟩ := Option.bind_eq_some_iff.mp h
    cases h
    exact .inr (.inr (.inr ⟨k, ts', y, ts₁, ms, rfl, hy, hms, rfl⟩))
  · cases h

theorem parseElements_ok (h : parseElements (fuel + 1) ts = some (xs, rest)) :
    (ts = .endArray :: rest ∧ xs = []) ∨
    ∃ ts' y ts₁ ys, ts = .comma :: ts' ∧ parseValue fuel ts' = some (y, ts₁) ∧
      parseElements fuel ts₁ = some (ys, rest) ∧ xs = y :: ys := by
  unfold parseElements at h
  split at h
  · cases h
  · cases h
    exact .inl ⟨rfl, rfl⟩
  · rename_i ts' hfuel
    cases hfuel
    obtain ⟨⟨y, ts₁⟩, hy, h⟩ := Option.bind_eq_some_iff.mp h
    obtain ⟨⟨ys, ts₂⟩, hys, h⟩ := Option.bind_eq_some_iff.mp h
    cases h
    exact .inr ⟨ts', y, ts₁, ys, rfl, hy, hys, rfl⟩
  · cases h

theorem parseMembers_ok (h : parseMembers (fuel + 1) ts = some (ms, rest)) :
    (ts = .endObject :: rest ∧ ms = []) ∨
    ∃ k ts' y ts₁ ns, ts = .comma :: .str k :: .colon :: ts' ∧
      parseValue fuel ts' = some (y, ts₁) ∧ parseMembers fuel ts₁ = some (ns, rest) ∧
      ms = (k, y) :: ns := by
  unfold parseMembers at h
  split at h
  · cases h
  · cases h
    exact .inl ⟨rfl, rfl⟩
  · rename_i k ts' hfuel
    cases hfuel
    obtain ⟨⟨y, ts₁⟩, hy, h⟩ := Option.bind_eq_some_iff.mp h
    obtain ⟨⟨ns, ts₂⟩, hns, h⟩ := Option.bind_eq_some_iff.mp h
    cases h
    exact .inr ⟨k, ts', y, ts₁, ns, rfl, hy, hns, rfl⟩
  · cases h

end Parser

/-- What is read from readable tokens is well formed, and leaves readable tokens. -/
theorem parse_wellFormed (fuel : ℕ) {ts : List Token} (hr : ∀ t ∈ ts, t.Readable)
    {rest : List Token} :
    (∀ x, parseValue fuel ts = some (x, rest) → x.WellFormed ∧ ∀ t ∈ rest, t.Readable) ∧
    (∀ xs, parseElements fuel ts = some (xs, rest) →
      elementsWellFormed xs ∧ ∀ t ∈ rest, t.Readable) ∧
    ∀ ms, parseMembers fuel ts = some (ms, rest) →
      membersWellFormed ms ∧ ∀ t ∈ rest, t.Readable := by
  induction fuel generalizing ts rest with
  | zero =>
    refine ⟨fun x h => ?_, fun xs h => ?_, fun ms h => ?_⟩
    · simp only [parseValue] at h
      cases h
    · simp only [parseElements] at h
      cases h
    · simp only [parseMembers] at h
      cases h
  | succ fuel ih =>
    refine ⟨fun x h => ?_, fun xs h => ?_, fun ms h => ?_⟩
    · rcases parseValue_ok h with ⟨t, rfl, hx⟩ | ⟨t, t', rfl, hx⟩ |
        ⟨ts', y, ts₁, ys, rfl, hy, hys, rfl⟩ | ⟨k, ts', y, ts₁, ms, rfl, hy, hms, rfl⟩
      · obtain ⟨ht, hrest⟩ := List.forall_mem_cons.mp hr
        exact ⟨hx ht, hrest⟩
      · exact ⟨hx, fun s hs => hr s (List.mem_cons_of_mem t (List.mem_cons_of_mem t' hs))⟩
      · obtain ⟨hwy, hr₁⟩ := (ih fun t ht => hr t (List.mem_cons_of_mem _ ht)).1 y hy
        obtain ⟨hwys, hrest⟩ := (ih hr₁).2.1 ys hys
        exact ⟨⟨hwy, hwys⟩, hrest⟩
      · simp only [List.forall_mem_cons] at hr
        obtain ⟨hwy, hr₁⟩ := (ih hr.2.2.2).1 y hy
        obtain ⟨hwms, hrest⟩ := (ih hr₁).2.2 ms hms
        exact ⟨wellFormed_ofMembers ⟨hwy, hwms⟩, hrest⟩
    · rcases parseElements_ok h with ⟨rfl, rfl⟩ | ⟨ts', y, ts₁, ys, rfl, hy, hys, rfl⟩
      · exact ⟨trivial, (List.forall_mem_cons.mp hr).2⟩
      · obtain ⟨hwy, hr₁⟩ := (ih fun t ht => hr t (List.mem_cons_of_mem _ ht)).1 y hy
        obtain ⟨hwys, hrest⟩ := (ih hr₁).2.1 ys hys
        exact ⟨⟨hwy, hwys⟩, hrest⟩
    · rcases parseMembers_ok h with ⟨rfl, rfl⟩ | ⟨k, ts', y, ts₁, ns, rfl, hy, hns, rfl⟩
      · exact ⟨trivial, (List.forall_mem_cons.mp hr).2⟩
      · simp only [List.forall_mem_cons] at hr
        obtain ⟨hwy, hr₁⟩ := (ih hr.2.2.2).1 y hy
        obtain ⟨hwns, hrest⟩ := (ih hr₁).2.2 ns hns
        exact ⟨⟨hwy, hwns⟩, hrest⟩

/-- Whatever the text, what is parsed is well formed. -/
theorem wellFormed_of_parse {text : List Char} {j : Json} (h : parse text = some j) :
    j.WellFormed := by
  unfold parse at h
  split at h
  · cases h
  · rename_i ts hlex
    split at h
    · rename_i x hvalue
      cases h
      exact ((parse_wellFormed _ (lex_readable hlex)).1 j hvalue).1
    · cases h

end Sound

end JsonText

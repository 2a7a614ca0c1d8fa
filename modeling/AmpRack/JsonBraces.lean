import AmpRack.Framing
import AmpRack.JsonMembers

/-!
# Closing braces in the text of a value

Where no string contains a run of braces, the braces at the end of a text are those of its last
tokens. An object ends with the braces of its last member and one more.
-/

namespace JsonText

open Framing

variable {n : ℕ}

section Strings

theorem closing_escape (k : ℕ) (s : List Char) : closing n '}' k (escape s) = closing n '}' k s := by
  refine closing_flatMap (by decide) (fun c _ hc k hk => closing_of_notMem ?_ ?_ hk) k
  · exact List.ne_nil_of_length_pos (one_le_length_escapeChar c)
  · intro hmem
    rcases mem_escapeChar hmem with ⟨rfl, -⟩ | hmem
    · exact hc rfl
    · exact absurd hmem (by decide)

/-- A quoted string ends with a quote, and so with no brace. -/
theorem closing_str {s : List Char} (h : closing n '}' 0 s < n) {k : ℕ} (hk : k < n) :
    closing n '}' k (Token.str s).render = 0 := by
  have hquote {k : ℕ} (hk : k < n) : closing n '}' k ['"'] = 0 :=
    closing_of_notMem (by simp) (by decide) hk
  rw [Token.render, ← List.singleton_append, closing_append, hquote hk, closing_append,
    closing_escape, hquote h]

end Strings

/-- The strings among the tokens contain no run of `n` braces. -/
def BraceFree (n : ℕ) (ts : List Token) : Prop := ∀ s, Token.str s ∈ ts → closing n '}' 0 s < n

section Render

theorem closing_token {t : Token} (hr : t.Readable) (hs : BraceFree n [t]) (ht : t ≠ .endObject)
    {k : ℕ} (hk : k < n) : closing n '}' k t.render = 0 := by
  have hnumber {w : List Char} (hne : w ≠ []) (hw : ∀ c ∈ w, isNumberChar c = true) :
      closing n '}' k w = 0 :=
    closing_of_notMem hne (fun h => absurd (hw '}' h) (by decide)) hk
  cases t with
  | endObject => exact absurd rfl ht
  | int m => exact hnumber (renderInt_ne_nil m) (renderInt_isNumberChar m)
  | float literal => exact hnumber hr.1 hr.2.1
  | str s => exact closing_str (hs s List.mem_cons_self) hk
  | bool b => cases b <;> exact closing_of_notMem (by simp [Token.render]) (by decide) hk
  | beginObject | beginArray | endArray | colon | comma | null =>
    exact closing_of_notMem (by simp [Token.render]) (by decide) hk

theorem closing_render {ts : List Token} (hr : ∀ t ∈ ts, t.Readable) (hs : BraceFree n ts) (k : ℕ) :
    closing n '}' k (render ts) = closing n .endObject k ts := by
  refine closing_flatMap (f := Token.render) rfl (fun t ht hne k hk => ?_) k
  refine closing_token (hr t ht) (fun s hs' => hs s ?_) hne hk
  rw [List.mem_singleton.mp hs']
  exact ht

/-- A text with a bad string reaches the run of braces inside the first such string. -/
theorem exists_cut_of_not_braceFree {ts : List Token} (hr : ∀ t ∈ ts, t.Readable)
    (hc : closing n .endObject 0 ts < n) (h : ¬ BraceFree n ts) :
    ∃ (before after : List Token) (s p rest : List Char),
      ts = before ++ .str s :: after ∧ p <+: escape s ∧
      render ts = (render before ++ '"' :: p) ++ '}' :: rest ∧
      closing n '}' 0 (render before ++ '"' :: p) + 1 = n := by
  classical
  obtain ⟨before, t, after, rfl, hbefore, ht⟩ :=
    exists_cut (p := fun ts => decide (¬ BraceFree n ts)) (by simp [BraceFree]) (decide_eq_true h)
  have hbefore : BraceFree n before := not_not.mp (of_decide_eq_false hbefore)
  have ht : ¬ BraceFree n (before ++ [t]) := of_decide_eq_true ht
  obtain ⟨s, rfl, hs⟩ : ∃ s, t = .str s ∧ ¬ closing n '}' 0 s < n := by
    by_contra hno
    apply ht
    intro s hs
    by_contra hlt
    rcases List.mem_append.mp hs with hs | hs
    · exact hlt (hbefore s hs)
    · exact hno ⟨s, (List.mem_singleton.mp hs).symm, hlt⟩
  have hbad : contains (List.replicate n '}') (escape s) = true := by
    rw [contains_iff_closing, closing_escape]
    have := closing_le (b := '}') (Nat.zero_le n) s
    omega
  have hn : 0 < n := by omega
  obtain ⟨p, c, q, hesc, hp, hpc⟩ := exists_cut (by
    rw [not_contains_iff_closing]
    exact hn) hbad
  rw [not_contains_iff_closing] at hp
  rw [contains_iff_closing, closing_append, closing, if_neg (by omega), closing] at hpc
  have hlead : closing n '}' 0 (render before) < n := by
    rw [closing_render (fun t ht => hr t (List.mem_append_left _ ht)) hbefore]
    exact closing_lt_of_append hc
  have hquote : closing n '}' (closing n '}' 0 (render before)) ['"'] = 0 :=
    closing_of_notMem (by simp) (by decide) hlead
  by_cases hbrace : c = '}'
  · subst hbrace
    rw [if_pos rfl] at hpc
    refine ⟨before, after, s, p, q ++ '"' :: render after, rfl, ⟨_, hesc.symm⟩, ?_, ?_⟩
    · rw [render_append, render_cons, Token.render, hesc]
      simp
    · rw [closing_append, ← List.singleton_append, closing_append, hquote, hpc]
  · rw [if_neg hbrace] at hpc
    omega

end Render

section Objects

variable {ms : Members}

theorem closing_memberTokens (hms : ∀ m ∈ ms, closing n Token.endObject 0 m.2.tokens < n) {c : ℕ}
    (hc : c < n) :
    closing n Token.endObject c (memberTokens ms) =
      (ms.getLast?.elim c fun m => closing n Token.endObject 0 m.2.tokens) + 1 := by
  induction ms generalizing c with
  | nil => rw [memberTokens, closing, if_neg (by omega), if_pos rfl, closing]; rfl
  | cons m ms ih =>
    obtain ⟨k, x⟩ := m
    obtain ⟨hx, hms⟩ := List.forall_mem_cons.mp hms
    have h0 : ¬ n ≤ 0 := by omega
    rw [memberTokens, closing, if_neg (by omega), if_neg (by simp), closing, if_neg h0,
      if_neg (by simp), closing, if_neg h0, if_neg (by simp), closing_append, ih hms hx]
    cases ms with
    | nil => rfl
    | cons m ms => rw [List.getLast?_cons_cons]; rfl

/-- An object ends with one brace more than its last member. -/
theorem closing_obj (hms : ∀ m ∈ ms, closing n Token.endObject 0 m.2.tokens < n) (hn : 0 < n)
    {m : List Char × Json} (hlast : ms.getLast? = some m) :
    closing n Token.endObject 0 (Json.obj ms).tokens =
      closing n Token.endObject 0 m.2.tokens + 1 := by
  cases ms with
  | nil => cases hlast
  | cons m' ms =>
    obtain ⟨k, x⟩ := m'
    obtain ⟨hx, hms⟩ := List.forall_mem_cons.mp hms
    have h0 : ¬ n ≤ 0 := by omega
    rw [Json.tokens, closing, if_neg h0, if_neg (by simp), closing, if_neg h0, if_neg (by simp),
      closing, if_neg h0, if_neg (by simp), closing_append, closing_memberTokens hms hx]
    cases ms with
    | nil =>
      cases hlast
      rfl
    | cons m' ms =>
      rw [List.getLast?_cons_cons] at hlast
      rw [hlast]
      rfl

theorem str_mem_memberTokens {s : List Char} :
    Token.str s ∈ memberTokens ms ↔ ∃ m ∈ ms, s = m.1 ∨ Token.str s ∈ m.2.tokens := by
  induction ms with
  | nil => simp [memberTokens]
  | cons m ms ih =>
    obtain ⟨k, x⟩ := m
    rw [List.exists_mem_cons_iff, ← ih, memberTokens]
    simp [or_assoc]

theorem str_mem_obj {s : List Char} :
    Token.str s ∈ (Json.obj ms).tokens ↔ ∃ m ∈ ms, s = m.1 ∨ Token.str s ∈ m.2.tokens := by
  cases ms with
  | nil => simp [Json.tokens]
  | cons m ms =>
    obtain ⟨k, x⟩ := m
    rw [List.exists_mem_cons_iff, ← str_mem_memberTokens, Json.tokens]
    simp [or_assoc]

theorem membersWellFormed_iff : membersWellFormed ms ↔ ∀ m ∈ ms, m.2.WellFormed := by
  induction ms with
  | nil => simp [membersWellFormed]
  | cons m ms ih =>
    obtain ⟨k, x⟩ := m
    rw [membersWellFormed, ih, List.forall_mem_cons]

theorem braceFree_obj :
    BraceFree n (Json.obj ms).tokens ↔
      ∀ m ∈ ms, closing n '}' 0 m.1 < n ∧ BraceFree n m.2.tokens := by
  constructor
  · intro h m hm
    exact ⟨h m.1 (str_mem_obj.mpr ⟨m, hm, .inl rfl⟩),
      fun s hs => h s (str_mem_obj.mpr ⟨m, hm, .inr hs⟩)⟩
  · intro h s hs
    obtain ⟨m, hm, rfl | hs⟩ := str_mem_obj.mp hs
    · exact (h m hm).1
    · exact (h m hm).2 s hs

theorem braceFree_str {s : List Char} :
    BraceFree n (Json.str s).tokens ↔ closing n '}' 0 s < n := by
  constructor
  · intro h
    exact h s List.mem_cons_self
  · intro h t ht
    rw [Json.tokens, List.mem_singleton, Token.str.injEq] at ht
    rwa [ht]

theorem closing_str_tokens (hn : 0 < n) (s : List Char) :
    closing n Token.endObject 0 (Json.str s).tokens = 0 :=
  closing_of_notMem (by simp [Json.tokens]) (by simp [Json.tokens]) hn

end Objects

section Numbered

variable {js : List Json}

theorem closing_toDigits (hn : 0 < n) (k : ℕ) : closing n '}' 0 (Nat.toDigits 10 k) < n := by
  rw [closing_of_notMem Nat.toDigits_ne_nil (fun h => ?_) hn]
  · exact hn
  · exact absurd (Nat.isDigit_of_mem_toDigits (by decide) (by decide) h) (by decide)

theorem braceFree_numbered (hn : 0 < n) :
    BraceFree n (Json.obj (numbered js)).tokens ↔ ∀ j ∈ js, BraceFree n j.tokens := by
  rw [braceFree_obj]
  constructor
  · intro h j hj
    obtain ⟨m, hm, rfl⟩ := List.mem_map.mp ((map_numbered_perm js).mem_iff.mpr hj)
    exact (h m hm).2
  · intro h m hm
    obtain ⟨hj, k, hk⟩ := exists_of_mem_numbered hm
    rw [hk]
    exact ⟨closing_toDigits hn k, h m.2 hj⟩

theorem closing_numbered {c : ℕ} (hne : js ≠ []) (hc : c < n)
    (h : ∀ j ∈ js, closing n Token.endObject 0 j.tokens = c) :
    closing n Token.endObject 0 (Json.obj (numbered js)).tokens = c + 1 := by
  have hmem {m : List Char × Json} (hm : m ∈ numbered js) :
      closing n Token.endObject 0 m.2.tokens = c := h m.2 (exists_of_mem_numbered hm).1
  have hnumbered := numbered_ne_nil hne
  have hlast := List.getLast?_eq_some_getLast hnumbered
  rw [closing_obj (fun m hm => (hmem hm).trans_lt hc) (by omega) hlast,
    hmem (List.getLast_mem hnumbered)]

theorem wellFormed_numbered (h : ∀ j ∈ js, j.WellFormed) : (Json.obj (numbered js)).WellFormed :=
  ⟨sortedKeys_numbered js,
    membersWellFormed_iff.mpr fun _ hm => h _ (exists_of_mem_numbered hm).1⟩

end Numbered

end JsonText

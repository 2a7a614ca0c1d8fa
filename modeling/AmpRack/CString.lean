import AmpRack.SortedSlots
import AmpRack.Utf8Text
import Mathlib.Data.List.TakeWhile

/-!
# C strings

A C string is its bytes up to the first zero. `strcmp` orders them by the first byte in which they
differ, as unsigned numbers.
-/

namespace AmpRack

open SortedSlots

/-- The bytes of a C string, up to the terminating zero. -/
structure CString where
  bytes : List UInt8
  zero_not_mem : 0 ∉ bytes
  deriving DecidableEq

namespace CString

def empty : CString := ⟨[], List.not_mem_nil⟩

/-- The comparison goes on up to the first difference, and the terminating zero is compared too. -/
def strcmp : List UInt8 → List UInt8 → ℤ
  | [], [] => 0
  | [], b :: _ => -b.toNat
  | a :: _, [] => a.toNat
  | a :: as, b :: bs => if a = b then strcmp as bs else a.toNat - b.toNat

theorem pos_of_ne_zero {a : UInt8} (h : a ≠ 0) : 0 < a.toNat := by
  rw [Nat.pos_iff_ne_zero]
  intro hzero
  exact h (UInt8.toNat.inj hzero)

theorem strcmp_self (as : List UInt8) : strcmp as as = 0 := by
  induction as with
  | nil => rfl
  | cons a as ih => rw [strcmp, if_pos rfl, ih]

theorem eq_of_strcmp {as bs : List UInt8} (ha : 0 ∉ as) (hb : 0 ∉ bs) (h : strcmp as bs = 0) :
    as = bs := by
  induction as generalizing bs with
  | nil =>
    cases bs with
    | nil => rfl
    | cons b bs =>
      have hpos := pos_of_ne_zero fun hzero => hb (hzero ▸ List.mem_cons_self)
      rw [strcmp] at h
      omega
  | cons a as ih =>
    cases bs with
    | nil =>
      have hpos := pos_of_ne_zero fun hzero => ha (hzero ▸ List.mem_cons_self)
      rw [strcmp] at h
      omega
    | cons b bs =>
      rw [strcmp] at h
      split_ifs at h with hab
      · rw [hab, ih (List.not_mem_of_not_mem_cons ha) (List.not_mem_of_not_mem_cons hb) h]
      · have hne : a.toNat ≠ b.toNat := fun heq => hab (UInt8.toNat.inj heq)
        omega

theorem strcmp_swap (as bs : List UInt8) : strcmp bs as = -strcmp as bs := by
  induction as generalizing bs with
  | nil =>
    cases bs with
    | nil => rfl
    | cons b bs => rw [strcmp, strcmp, neg_neg]
  | cons a as ih =>
    cases bs with
    | nil => rw [strcmp, strcmp]
    | cons b bs =>
      rw [strcmp, strcmp]
      by_cases hab : a = b
      · rw [if_pos hab, if_pos hab.symm, ih]
      · rw [if_neg hab, if_neg (Ne.symm hab), neg_sub]

theorem strcmp_trans {as bs cs : List UInt8} (hb : 0 ∉ bs) (h : strcmp as bs < 0)
    (h' : strcmp bs cs < 0) : strcmp as cs < 0 := by
  induction as generalizing bs cs with
  | nil =>
    cases bs with
    | nil => exact h'
    | cons b bs =>
      have hpos := pos_of_ne_zero fun hzero => hb (hzero ▸ List.mem_cons_self)
      cases cs with
      | nil =>
        rw [strcmp] at h'
        omega
      | cons c cs =>
        rw [strcmp] at h'
        rw [strcmp]
        split_ifs at h' with hbc
        · rw [← hbc]
          omega
        · omega
  | cons a as ih =>
    cases bs with
    | nil =>
      rw [strcmp] at h
      omega
    | cons b bs =>
      cases cs with
      | nil =>
        rw [strcmp] at h'
        omega
      | cons c cs =>
        rw [strcmp] at h
        rw [strcmp] at h'
        rw [strcmp]
        by_cases hab : a = b
        · rw [if_pos hab] at h
          rw [hab]
          by_cases hbc : b = c
          · rw [if_pos hbc] at h' ⊢
            exact ih (List.not_mem_of_not_mem_cons hb) h h'
          · rw [if_neg hbc] at h' ⊢
            exact h'
        · rw [if_neg hab] at h
          by_cases hbc : b = c
          · rw [← hbc, if_neg hab]
            exact h
          · rw [if_neg hbc] at h'
            have hac : a ≠ c := by
              rintro rfl
              omega
            rw [if_neg hac]
            omega

/-- `strcmp` as a comparison function of C strings. -/
def comparison : Comparison CString where
  cmp a b := strcmp a.bytes b.bytes
  eq_zero_iff a b := by
    obtain ⟨as, ha⟩ := a
    obtain ⟨bs, hb⟩ := b
    rw [CString.mk.injEq]
    exact ⟨eq_of_strcmp ha hb, fun h => h ▸ strcmp_self as⟩
  neg_iff a b := by rw [strcmp_swap a.bytes, neg_pos]
  trans _ b _ := strcmp_trans b.zero_not_mem

/-- A text as the functions of C see it. -/
def ofText (text : List Char) : CString where
  bytes := (Utf8Text.bytes text).takeWhile (· ≠ 0)
  zero_not_mem h := by simpa using List.mem_takeWhile_imp h

theorem bytes_ofText {text : List Char} (h : Char.ofNat 0 ∉ text) :
    (ofText text).bytes = Utf8Text.bytes text := by
  refine List.takeWhile_eq_self_iff.mpr fun b hb => decide_eq_true ?_
  rintro rfl
  obtain ⟨c, hc, hzero⟩ := List.mem_flatMap.mp hb
  refine Utf8Text.not_mem_encode (by decide) ?_ hzero
  intro hcode
  have hchar : c = Char.ofNat 0 := by
    rw [← Char.ofNat_toNat c, hcode]
    rfl
  exact h (hchar ▸ hc)

theorem ofText_injective {s t : List Char} (hs : Char.ofNat 0 ∉ s) (ht : Char.ofNat 0 ∉ t)
    (h : ofText s = ofText t) : s = t := by
  have hbytes : Utf8Text.bytes s = Utf8Text.bytes t := by
    rw [← bytes_ofText hs, ← bytes_ofText ht, h]
  have hsome := Utf8Text.ofBytes_bytes s
  rw [hbytes, Utf8Text.ofBytes_bytes] at hsome
  exact (Option.some.inj hsome).symm

end CString

end AmpRack

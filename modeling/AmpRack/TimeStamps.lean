import AmpRack.JsonMembers

/-!
# Times as texts

What `std::localtime` gives, and the text that `std::put_time` makes of it for `%d-%m-%Y %H-%M-%S`. The
text says which second it is.
-/

namespace AmpRack

open JsonText

/-- `std::tm`, with the ranges that `std::localtime` keeps to. -/
structure Tm where
  sec : ℕ
  min : ℕ
  hour : ℕ
  mday : ℕ
  mon : ℕ
  /-- The years since 1900. -/
  year : ℕ
  sec_le : sec ≤ 60
  min_le : min ≤ 59
  hour_le : hour ≤ 23
  mday_le : mday ≤ 31
  mon_le : mon ≤ 11
  deriving DecidableEq

def twoDigits (n : ℕ) : List Char := [(n / 10).digitChar, (n % 10).digitChar]

namespace Tm

/-- `%H-%M-%S`. -/
def clock (t : Tm) : List Char := twoDigits t.hour ++ '-' :: twoDigits t.min ++ '-' :: twoDigits t.sec

/-- `%d-%m-%Y %H-%M-%S`. -/
def putTime (t : Tm) : List Char :=
  twoDigits t.mday ++ '-' :: twoDigits (t.mon + 1) ++ '-' :: Nat.toDigits 10 (1900 + t.year) ++
    ' ' :: t.clock

end Tm

theorem digitChar_inj {m n : ℕ} (hm : m < 10) (hn : n < 10) (h : m.digitChar = n.digitChar) : m = n := by
  have hall : ∀ a b : Fin 10, a.val.digitChar = b.val.digitChar → a.val = b.val := by decide
  exact hall ⟨m, hm⟩ ⟨n, hn⟩ h

theorem twoDigits_inj {m n : ℕ} (hm : m < 100) (hn : n < 100) (h : twoDigits m = twoDigits n) :
    m = n := by
  obtain ⟨htens, hones⟩ := List.cons.inj h
  have htens := digitChar_inj (by omega) (by omega) htens
  have hones := digitChar_inj (by omega) (by omega) (List.cons.inj hones).1
  omega

namespace Tm

variable {t u : Tm}

theorem clock_inj (h : t.clock = u.clock) : t.hour = u.hour ∧ t.min = u.min ∧ t.sec = u.sec := by
  obtain ⟨hfront, hsec⟩ := List.append_inj h rfl
  obtain ⟨hhour, hmin⟩ := List.append_inj hfront rfl
  have ht := t.hour_le
  have hu := u.hour_le
  refine ⟨twoDigits_inj (by omega) (by omega) hhour, ?_, ?_⟩
  · have ht := t.min_le
    have hu := u.min_le
    exact twoDigits_inj (by omega) (by omega) (List.cons.inj hmin).2
  · have ht := t.sec_le
    have hu := u.sec_le
    exact twoDigits_inj (by omega) (by omega) (List.cons.inj hsec).2

/-- The year may have any number of digits, as what follows it has a fixed length. -/
theorem putTime_injective : Function.Injective putTime := by
  intro t u h
  obtain ⟨hdate, hclock⟩ := List.append_inj' h rfl
  obtain ⟨hhour, hmin, hsec⟩ := clock_inj (List.cons.inj hclock).2
  obtain ⟨hfront, hyear⟩ := List.append_inj hdate rfl
  obtain ⟨hmday, hmon⟩ := List.append_inj hfront rfl
  have hyear := toDigits_injective (List.cons.inj hyear).2
  have ht := t.mday_le
  have hu := u.mday_le
  have hmday := twoDigits_inj (by omega) (by omega) hmday
  have ht := t.mon_le
  have hu := u.mon_le
  have hmon := twoDigits_inj (by omega) (by omega) (List.cons.inj hmon).2
  cases t
  cases u
  simp only [mk.injEq]
  simp only at hhour hmin hsec hyear hmday hmon
  omega

end Tm

end AmpRack

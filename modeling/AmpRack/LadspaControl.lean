import AmpRack.HalfEven
import AmpRack.Plugin
import Mathlib.Data.BitVec

/-!
# The range of a LADSPA control

The constructor makes a range and a default from the hints of a port: a side without a bound gets a
fixed one, the default is clamped into the range, and a toggled or an integer port then changes the
range or rounds it. A port without a default is given `-678`, which is replaced at the very end.

`PortRangeHint.RangeOk` says for which hints the control is consistent afterwards.
-/

namespace AmpRack

open TextScan

/-- `LADSPA_PortRangeHint`, of bounds that are numbers. -/
structure PortRangeHint where
  hintDescriptor : BitVec 32
  lowerBound : ℚ
  upperBound : ℚ
  deriving DecidableEq

/-- No other rate is set before the constructor is done. -/
def sampleRate : ℚ := 48000

/-- What stands for a default that there is not. -/
def noDefault : ℚ := -678

namespace PortRangeHint

def isHint (h : PortRangeHint) (mask : BitVec 32) : Bool := h.hintDescriptor &&& mask != 0

def isBoundedBelow (h : PortRangeHint) : Bool := h.isHint 0x1

def isBoundedAbove (h : PortRangeHint) : Bool := h.isHint 0x2

def isToggled (h : PortRangeHint) : Bool := h.isHint 0x4

def isSampleRate (h : PortRangeHint) : Bool := h.isHint 0x8

def isInteger (h : PortRangeHint) : Bool := h.isHint 0x20

def lower (h : PortRangeHint) : ℚ :=
  if h.isSampleRate then h.lowerBound * sampleRate else h.lowerBound

def upper (h : PortRangeHint) : ℚ :=
  if h.isSampleRate then h.upperBound * sampleRate else h.upperBound

def min (h : PortRangeHint) : ℚ :=
  if h.isBoundedBelow then h.lower else if h.isBoundedAbove then 0 else -1

def max (h : PortRangeHint) : ℚ := if h.isBoundedAbove then h.upper else 1

/-- The bounds are used whether or not they are bounds of the port. -/
def dflt (h : PortRangeHint) : ℚ :=
  let d := h.hintDescriptor &&& 0x3C0
  if d = 0x40 then h.lower
  else if d = 0x80 then h.lower * (3 / 4) + h.upper * (1 / 4)
  else if d = 0xC0 then h.lower * (1 / 2) + h.upper * (1 / 2)
  else if d = 0x100 then h.lower * (1 / 4) + h.upper * (3 / 4)
  else if d = 0x140 then h.upper
  else if d = 0x200 then 0
  else if d = 0x240 then 1
  else if d = 0x280 then 100
  else if d = 0x2C0 then 440
  else noDefault

end PortRangeHint

/-- The check of the default, against the minimum first. -/
def clampDefault (min max d : ℚ) : ℚ :=
  let d := if d < min then min else d
  if max < d then max else d

namespace PluginControl

/-- The end of the constructor, where the default goes to the interface before it is replaced. -/
def ofRange (type : ControlType) (min max d : ℚ) : PluginControl where
  type := type
  min := min
  max := max
  val := d
  defValue := some (if d = noDefault then 0 else d)

/-- `PluginControl::PluginControl (const LADSPA_Descriptor *, int)`. -/
def ofLadspa (h : PortRangeHint) : PluginControl :=
  let d := clampDefault h.min h.max h.dflt
  if h.isToggled then ofRange .toggle 0 1 (roundHalfEven d)
  else if h.isInteger then
    ofRange .int (roundHalfEven h.min) (roundHalfEven h.max) (roundHalfEven d)
  else ofRange .float h.min h.max d

/-- The default lies in the range and is what the interface starts from. -/
structure RangeConsistent (c : PluginControl) : Prop where
  range : c.min ≤ c.max
  dflt : ∃ d, c.defValue = some d ∧ c.min ≤ d ∧ d ≤ c.max ∧ c.val = d

end PluginControl

namespace PortRangeHint

/-- The default is at least `a` once it has been clamped. -/
def DefaultAtLeast (h : PortRangeHint) (a : ℚ) : Prop := a ≤ h.max ∧ (a ≤ h.dflt ∨ a ≤ h.min)

/-- The default is at most `b` once it has been clamped. -/
def DefaultAtMost (h : PortRangeHint) (b : ℚ) : Prop := h.max ≤ b ∨ h.dflt ≤ b ∧ h.min ≤ b

/-- The single bound of a port leaves room for the fixed one on the other side. -/
def SingleBoundOk (h : PortRangeHint) (below above : ℚ → Prop) : Prop :=
  (h.isBoundedBelow = true → h.isBoundedAbove = false → below h.lower) ∧
    (h.isBoundedBelow = false → h.isBoundedAbove = true → above h.upper)

/-- The default of a toggled port is rounded to zero or one; of any other port the single bound does
not turn the range round and the default does not come to `-678`. -/
def RangeOk (h : PortRangeHint) : Prop :=
  if h.isToggled then h.DefaultAtLeast (-1 / 2) ∧ ¬ h.DefaultAtLeast (3 / 2)
  else if h.isInteger then
    h.SingleBoundOk (· < 3 / 2) (-1 / 2 ≤ ·) ∧
      ¬ (h.DefaultAtLeast (-1357 / 2) ∧ h.DefaultAtMost (-1355 / 2))
  else h.SingleBoundOk (· ≤ 1) (0 ≤ ·) ∧ ¬ (h.DefaultAtLeast (-678) ∧ h.DefaultAtMost (-678))

instance (h : PortRangeHint) (a : ℚ) : Decidable (h.DefaultAtLeast a) :=
  inferInstanceAs (Decidable (_ ∧ _))

instance (h : PortRangeHint) (b : ℚ) : Decidable (h.DefaultAtMost b) :=
  inferInstanceAs (Decidable (_ ∨ _))

instance (h : PortRangeHint) (below above : ℚ → Prop) [DecidablePred below]
    [DecidablePred above] : Decidable (h.SingleBoundOk below above) :=
  inferInstanceAs (Decidable (_ ∧ _))

instance (h : PortRangeHint) : Decidable h.RangeOk := by
  unfold RangeOk
  infer_instance

section Range

variable {h : PortRangeHint}

theorem le_clampDefault_iff (a min max d : ℚ) :
    a ≤ clampDefault min max d ↔ a ≤ max ∧ (a ≤ d ∨ a ≤ min) := by
  unfold clampDefault
  dsimp only
  split_ifs <;> grind

theorem clampDefault_le_iff (b min max d : ℚ) :
    clampDefault min max d ≤ b ↔ max ≤ b ∨ d ≤ b ∧ min ≤ b := by
  unfold clampDefault
  dsimp only
  split_ifs <;> grind

theorem lower_le_upper (hle : h.lowerBound ≤ h.upperBound) : h.lower ≤ h.upper := by
  unfold lower upper
  split_ifs
  · exact mul_le_mul_of_nonneg_right hle (by norm_num [sampleRate])
  · exact hle

/-- Apart from a single bound, the range is in order whatever it is rounded by. -/
theorem min_le_max_iff {f : ℚ → ℚ} (hf : Monotone f) (hb : h.isBoundedBelow = true →
    h.isBoundedAbove = true → h.lowerBound ≤ h.upperBound) :
    f h.min ≤ f h.max ↔ h.SingleBoundOk (f · ≤ f 1) (f 0 ≤ f ·) := by
  unfold min max SingleBoundOk
  cases hbelow : h.isBoundedBelow <;> cases habove : h.isBoundedAbove
  · simpa using hf (by norm_num)
  · simp
  · simp
  · simpa using hf (lower_le_upper (hb hbelow habove))

/-- The clamped default is between the ends of a range that is in order, before and after both are
rounded. -/
theorem clampDefault_mem {f : ℚ → ℚ} (hf : Monotone f) (hle : f h.min ≤ f h.max) :
    f h.min ≤ f (clampDefault h.min h.max h.dflt) ∧
      f (clampDefault h.min h.max h.dflt) ≤ f h.max := by
  have hmax : clampDefault h.min h.max h.dflt ≤ h.max := (clampDefault_le_iff ..).mpr (.inl le_rfl)
  refine ⟨?_, hf hmax⟩
  rcases le_total h.min h.max with hrange | hrange
  · exact hf ((le_clampDefault_iff ..).mpr ⟨hrange, .inr le_rfl⟩)
  · have hback : h.max ≤ clampDefault h.min h.max h.dflt :=
      (le_clampDefault_iff ..).mpr ⟨le_rfl, .inr hrange⟩
    exact hle.trans (hf hback)

/-- Where the default is replaced at the end, the interface has another value. -/
theorem rangeConsistent_iff {type : ControlType} {min max d : ℚ} :
    (PluginControl.ofRange type min max d).RangeConsistent ↔
      min ≤ max ∧ (min ≤ d ∧ d ≤ max) ∧ d ≠ noDefault := by
  constructor
  · rintro ⟨hrange, d', hd', hmin, hmax, hval⟩
    change d = d' at hval
    subst hval
    have hd : d ≠ noDefault := by
      rintro rfl
      rw [PluginControl.ofRange, if_pos rfl] at hd'
      cases hd'
    exact ⟨hrange, ⟨hmin, hmax⟩, hd⟩
  · rintro ⟨hrange, ⟨hmin, hmax⟩, hd⟩
    exact ⟨hrange, d, congrArg some (if_neg hd), hmin, hmax, rfl⟩

theorem SingleBoundOk.congr {below below' above above' : ℚ → Prop}
    (hbelow : ∀ q, below q ↔ below' q) (habove : ∀ q, above q ↔ above' q) :
    h.SingleBoundOk below above ↔ h.SingleBoundOk below' above' := by
  simp only [SingleBoundOk, hbelow, habove]

theorem zero_le_rounded_iff (d : ℚ) : 0 ≤ (roundHalfEven d : ℚ) ↔ -1 / 2 ≤ d := by
  rw [Int.cast_nonneg_iff, le_roundHalfEven_iff_of_even rfl]
  norm_num

theorem rounded_le_one_iff (d : ℚ) : (roundHalfEven d : ℚ) ≤ 1 ↔ d < 3 / 2 := by
  have htwo : (2 : ℤ) ≤ roundHalfEven d ↔ 3 / 2 ≤ d := by
    rw [le_roundHalfEven_iff_of_even rfl]
    norm_num
  rw [← not_le, ← htwo]
  norm_cast
  omega

theorem rounded_eq_noDefault_iff (d : ℚ) :
    (roundHalfEven d : ℚ) = noDefault ↔ -1357 / 2 ≤ d ∧ d ≤ -1355 / 2 := by
  have hcast : noDefault = (-678 : ℤ) := by norm_num [noDefault]
  rw [hcast, Int.cast_inj, le_antisymm_iff, roundHalfEven_le_iff_of_even rfl,
    le_roundHalfEven_iff_of_even rfl, and_comm]
  norm_num

end Range

/-- For every combination of hints the control is consistent exactly when the hints are `RangeOk`. -/
theorem rangeConsistent_iff_rangeOk (h : PortRangeHint) (hb : h.isBoundedBelow = true →
    h.isBoundedAbove = true → h.lowerBound ≤ h.upperBound) :
    (PluginControl.ofLadspa h).RangeConsistent ↔ h.RangeOk := by
  unfold PluginControl.ofLadspa RangeOk DefaultAtLeast DefaultAtMost
  split_ifs with htoggled hinteger
  · rw [rangeConsistent_iff, zero_le_rounded_iff, rounded_le_one_iff, ← not_le,
      le_clampDefault_iff, le_clampDefault_iff]
    refine ⟨fun hr => hr.2.1, fun hr => ⟨zero_le_one, hr, fun hd => ?_⟩⟩
    -- a default between zero and one is not the sentinel
    have hzero := (zero_le_rounded_iff _).mpr ((le_clampDefault_iff ..).mpr hr.1)
    rw [hd] at hzero
    norm_num [noDefault] at hzero
  · rw [rangeConsistent_iff]
    have hmono : Monotone fun q : ℚ => (roundHalfEven q : ℚ) :=
      fun _ _ hle => Int.cast_le.mpr (roundHalfEven_mono hle)
    have hends : roundHalfEven 0 = 0 ∧ roundHalfEven 1 = 1 :=
      ⟨by simpa using roundHalfEven_intCast 0, by simpa using roundHalfEven_intCast 1⟩
    have hrange : (roundHalfEven h.min : ℚ) ≤ roundHalfEven h.max ↔
        h.SingleBoundOk (· < 3 / 2) (-1 / 2 ≤ ·) := by
      rw [min_le_max_iff hmono hb]
      simp only [hends, Int.cast_zero, Int.cast_one]
      exact SingleBoundOk.congr rounded_le_one_iff zero_le_rounded_iff
    rw [hrange, ne_eq, rounded_eq_noDefault_iff, le_clampDefault_iff, clampDefault_le_iff]
    have hmem := clampDefault_mem (f := fun q => (roundHalfEven q : ℚ)) (h := h) hmono
    exact ⟨fun hr => ⟨hr.1, hr.2.2⟩, fun hr => ⟨hr.1, hmem (hrange.mpr hr.1), hr.2⟩⟩
  · rw [rangeConsistent_iff]
    have hsentinel : clampDefault h.min h.max h.dflt = noDefault ↔
        (-678 ≤ h.max ∧ (-678 ≤ h.dflt ∨ -678 ≤ h.min)) ∧
          (h.max ≤ -678 ∨ h.dflt ≤ -678 ∧ h.min ≤ -678) := by
      rw [← le_clampDefault_iff, ← clampDefault_le_iff, ← le_antisymm_iff, eq_comm]
      rfl
    have hrange : h.min ≤ h.max ↔ h.SingleBoundOk (· ≤ 1) (0 ≤ ·) :=
      min_le_max_iff (f := id) monotone_id hb
    have hmem := clampDefault_mem (f := id) (h := h) monotone_id
    rw [hrange, ne_eq, hsentinel]
    exact ⟨fun hr => ⟨hr.1, hr.2.2⟩, fun hr => ⟨hr.1, hmem (hrange.mpr hr.1), hr.2⟩⟩

theorem rangeConsistent_default_low : (PluginControl.ofLadspa ⟨0x83, 0, 4⟩).RangeConsistent :=
  (rangeConsistent_iff_rangeOk ⟨0x83, 0, 4⟩ (fun _ _ => by norm_num)).mpr (by decide +kernel)

/-- A toggled port without a default starts below its range. -/
theorem toggled_without_default_not_consistent :
    ¬ (PluginControl.ofLadspa ⟨0x4, 0, 0⟩).RangeConsistent := by
  have hcontrol : PluginControl.ofLadspa ⟨0x4, 0, 0⟩ = .ofRange .toggle 0 1 (-1) := by
    decide +kernel
  rw [hcontrol, rangeConsistent_iff]
  rintro ⟨-, ⟨hmin, -⟩, -⟩
  norm_num at hmin

end PortRangeHint

end AmpRack

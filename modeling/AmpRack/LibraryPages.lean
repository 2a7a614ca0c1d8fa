import AmpRack.PresetTabs
import Mathlib.Data.List.GetD

/-!
# The pages of the library

The library is shown a page at a time. A `Pager` has the page number and the adjustment of the spin
button, and of the rows only which entries of the library they show. The number is changed before
the adjustment is, which holds it between its bounds and has the rows loaded only if it moves, so
that number, adjustment and rows can come apart.
-/

namespace AmpRack

open JsonText GuardedRun

/-- `library_load`: `i` entries have been skipped and `e` rows made. -/
def loadRows {α : Type*} (skip : ℕ) : ℕ → ℕ → List α → List α
  | _, _, [] => []
  | i, e, p :: ps =>
    if i < skip then loadRows skip (i + 1) e ps
    else if pageSize < e + 1 then []
    else p :: loadRows skip i (e + 1) ps

section LoadRows

variable {α : Type*}

theorem loadRows_of_le {skip i e : ℕ} (hi : skip ≤ i) (ps : List α) :
    loadRows skip i e ps = ps.take (pageSize - e) := by
  induction ps generalizing e with
  | nil => rw [loadRows, List.take_nil]
  | cons p ps ih =>
    rw [loadRows, if_neg (Nat.not_lt.mpr hi)]
    by_cases he : pageSize < e + 1
    · rw [if_pos he, Nat.sub_eq_zero_of_le (Nat.le_of_lt_succ he), List.take_zero]
    · have hroom : pageSize - e = (pageSize - (e + 1)) + 1 := by omega
      rw [if_neg he, ih, hroom, List.take_succ_cons]

theorem loadRows_eq {skip i e : ℕ} (hi : i ≤ skip) (ps : List α) :
    loadRows skip i e ps = (ps.drop (skip - i)).take (pageSize - e) := by
  induction ps generalizing i with
  | nil => rw [loadRows, List.drop_nil, List.take_nil]
  | cons p ps ih =>
    by_cases hlt : i < skip
    · have hskip : skip - i = (skip - (i + 1)) + 1 := by omega
      rw [loadRows, if_pos hlt, ih hlt, hskip, List.drop_succ_cons]
    · rw [loadRows_of_le (Nat.not_lt.mp hlt), Nat.sub_eq_zero_of_le (Nat.not_lt.mp hlt),
        List.drop_zero]

theorem loadRows_zero (skip : ℕ) (ps : List α) :
    loadRows skip 0 0 ps = (ps.drop skip).take pageSize :=
  loadRows_eq (Nat.zero_le skip) ps

theorem loadRows_map {β : Type*} (f : α → β) (skip : ℕ) (ps : List α) :
    loadRows skip 0 0 (ps.map f) = (loadRows skip 0 0 ps).map f := by
  rw [loadRows_zero, loadRows_zero, List.map_take, List.map_drop]

end LoadRows

/-- `size` is that of `library_json`. -/
structure Pager extends PageSpin where
  size : ℕ
  rows : List ℕ := []

/-- A library of `size` presets is downloaded, or a value is entered for the page number. -/
inductive PageOp
  | next
  | prev
  | spin (v : ℚ)
  | refresh (size : ℕ)

namespace Pager

def libraryLoad (s : Pager) : Pager :=
  { s with rows := loadRows (s.page * pageSize) 0 0 (List.range s.size) }

/-- The pager when `my` is done. -/
def start (size : ℕ) : Pager := libraryLoad { size := size, upper := size / pageSize }

/-- `change_value` loads the page. -/
def setValue (s : Pager) (v : ℚ) : Pager :=
  (s.toPageSpin.setValue v).elim s fun spin => { s with toPageSpin := spin }.libraryLoad

def step (s : Pager) : PageOp → Except Empty Pager
  | .next => .ok ({ s with page := s.page + 1 }.setValue (s.page + 1 : ℕ))
  | .prev => .ok ({ s with page := s.page - 1 }.setValue (s.page - 1 : ℕ))
  | .spin v => .ok (s.setValue v)
  | .refresh size =>
    .ok { s with page := 0, size := size, upper := size / pageSize }.libraryLoad

/-- The entries of a page. -/
def entries (size page : ℕ) : List ℕ :=
  List.range' (page * pageSize) (min ((page + 1) * pageSize) size - page * pageSize)

/-- The rows are those of the page that the number says. -/
def Coherent (s : Pager) : Prop := s.rows = entries s.size s.page

/-- The adjustment moves, or the page has as few entries as the one that is left: none, unless the
number is at zero and stays there. -/
def PageOk (s : Pager) : PageOp → Prop
  | .next => s.clamp (s.page + 1 : ℕ) ≠ s.value ∨ s.size ≤ s.page * pageSize
  | .prev => s.clamp (s.page - 1 : ℕ) ≠ s.value ∨ s.page = 0 ∨
      s.size ≤ (s.page - 1) * pageSize
  | .spin _ => True
  | .refresh _ => True

/-- A library that is downloaded is the one that is there. -/
def Keeps (size : ℕ) (op : PageOp) : Prop := ∀ m, op = .refresh m → m = size

/-- Some clicks on a library that stays as it is bring the entry on the screen. -/
def Shown (size k : ℕ) : Prop :=
  ∃ ops, (∀ op ∈ ops, Keeps size op) ∧ ∃ s, run step (start size) ops = .ok s ∧ k ∈ s.rows

variable {s : Pager} {size page : ℕ}

theorem mem_entries {k : ℕ} : k ∈ entries size page ↔ k / pageSize = page ∧ k < size := by
  rw [entries, List.mem_range'_1, pageSize]
  omega

theorem entries_eq_nil_iff : entries size page = [] ↔ size ≤ page * pageSize := by
  rw [entries, List.range'_eq_nil_iff, pageSize]
  omega

/-- Pages apart have no entry in common. -/
theorem entries_succ_eq_iff : entries size page = entries size (page + 1) ↔
    size ≤ page * pageSize := by
  constructor
  · intro h
    by_contra hlt
    have hmem : page * pageSize ∈ entries size page :=
      mem_entries.mpr ⟨Nat.mul_div_cancel page (by decide), Nat.not_le.mp hlt⟩
    rw [h] at hmem
    have hpage := (mem_entries.mp hmem).1
    rw [Nat.mul_div_cancel page (by decide)] at hpage
    omega
  · intro h
    rw [entries_eq_nil_iff.mpr h, entries_eq_nil_iff.mpr (h.trans (by rw [pageSize]; omega))]

theorem rows_libraryLoad (s : Pager) : s.libraryLoad.rows = entries s.size s.page := by
  rw [libraryLoad, loadRows_zero, List.range_eq_range', List.drop_range', entries]
  simp only [Nat.zero_add, Nat.mul_one]
  rcases le_total pageSize (s.size - s.page * pageSize) with h | h
  · rw [List.take_range'_of_length_ge h]
    congr 1
    rw [pageSize] at h ⊢
    omega
  · rw [List.take_range'_of_length_le h]
    congr 1
    rw [pageSize] at h ⊢
    omega

theorem coherent_libraryLoad (s : Pager) : Coherent s.libraryLoad := rows_libraryLoad s

theorem coherent_start (size : ℕ) : Coherent (start size) := coherent_libraryLoad _

theorem setValue_of_eq {v : ℚ} (h : s.clamp v = s.value) : s.setValue v = s := by
  rw [setValue, PageSpin.setValue_of_eq h, Option.elim_none]

theorem setValue_of_ne {v : ℚ} (h : s.clamp v ≠ s.value) :
    s.setValue v = { s with value := s.clamp v, page := ⌊s.clamp v⌋.toNat }.libraryLoad := by
  rw [setValue, PageSpin.setValue_of_ne h, Option.elim_some]

theorem coherent_setValue (s : Pager) (v : ℚ) (h : s.clamp v ≠ s.value ∨ Coherent s) :
    Coherent (s.setValue v) := by
  by_cases hsame : s.clamp v = s.value
  · rw [setValue_of_eq hsame]
    exact h.resolve_left fun hne => hne hsame
  · rw [setValue_of_ne hsame]
    exact coherent_libraryLoad _

/-- A page is turned rightly if the rows are loaded again, or if they are no others. -/
theorem coherent_turn_iff (h : Coherent s) (page' : ℕ) :
    Coherent ({ s with page := page' }.setValue page') ↔
      s.clamp page' ≠ s.value ∨ entries s.size s.page = entries s.size page' := by
  have hturned : Coherent { s with page := page' } ↔
      entries s.size s.page = entries s.size page' := by
    rw [Coherent, h]
  constructor
  · intro hset
    by_cases hsame : s.clamp page' = s.value
    · have hstays : { s with page := page' }.setValue page' = { s with page := page' } :=
        setValue_of_eq (s := { s with page := page' }) hsame
      rw [hstays] at hset
      exact .inr (hturned.mp hset)
    · exact .inl hsame
  · exact fun hor => coherent_setValue { s with page := page' } page' (hor.imp_right hturned.mpr)

theorem coherent_step_iff (h : Coherent s) {op : PageOp} {s' : Pager} (hs : s.step op = .ok s') :
    Coherent s' ↔ s.PageOk op := by
  cases op with
  | next =>
    cases hs
    rw [coherent_turn_iff h, entries_succ_eq_iff]
    rfl
  | prev =>
    cases hs
    rw [coherent_turn_iff h, PageOk]
    apply or_congr_right
    cases hpage : s.page with
    | zero => simp
    | succ page =>
      rw [Nat.add_sub_cancel, eq_comm, entries_succ_eq_iff]
      simp
  | spin v =>
    cases hs
    exact iff_of_true (coherent_setValue s v (.inr h)) trivial
  | refresh size =>
    cases hs
    exact iff_of_true (coherent_libraryLoad _) trivial

theorem exists_step (s : Pager) (op : PageOp) : ∃ s', s.step op = .ok s' := by
  cases op <;> exact ⟨_, rfl⟩

theorem coherent_iff_pageOk (size : ℕ) (ops : List PageOp) :
    Always step Coherent (start size) ops ↔ Admits step PageOk (start size) ops := by
  refine always_iff_admits (fun _ h => h) (fun s op h hok => ?_)
    (fun s op s' h hs h' => (coherent_step_iff h hs).mp h') (coherent_start size)
  obtain ⟨s', hs⟩ := exists_step s op
  exact ⟨s', hs, (coherent_step_iff h hs).mpr hok⟩

/-- The adjustment is between its bounds, and the rows are those of the first page or of one below
`upper`, of which there are only ever more than the first when the adjustment has room to move. -/
structure OnPage (size : ℕ) (s : Pager) : Prop where
  size_eq : s.size = size
  upper_eq : s.upper = size / pageSize
  value_mem : 1 ≤ s.value ∧ s.value ≤ Max.max 1 ((s.upper : ℚ) - 1)
  rows_eq : ∃ page, s.rows = entries size page ∧ (page = 0 ∨ 3 ≤ s.upper ∧ page < s.upper)

/-- The adjustment moves only if there is more than one value for it. -/
theorem onPage_setValue (h : OnPage size s) (v : ℚ) : OnPage size (s.setValue v) := by
  by_cases hsame : s.clamp v = s.value
  · rw [setValue_of_eq hsame]
    exact h
  · rw [setValue_of_ne hsame]
    obtain ⟨hlow, hhigh⟩ := s.clamp_mem v
    have hroom : Max.max 1 ((s.upper : ℚ) - 1) = (s.upper : ℚ) - 1 := by
      apply max_eq_right
      by_contra hnarrow
      rw [max_eq_left (not_le.mp hnarrow).le] at hhigh
      have hvalue := h.value_mem
      rw [max_eq_left (not_le.mp hnarrow).le] at hvalue
      exact hsame (by linarith [hvalue.1, hvalue.2])
    have hupper : 3 ≤ s.upper := by
      have hvalue := h.value_mem
      rw [hroom] at hhigh hvalue
      by_contra hfew
      have hle : (s.upper : ℚ) ≤ 2 := by exact_mod_cast (by omega : s.upper ≤ 2)
      exact hsame (by linarith [hvalue.1, hvalue.2])
    refine ⟨h.size_eq, h.upper_eq, ⟨hlow, hhigh⟩, _,
      (rows_libraryLoad _).trans (by rw [h.size_eq]), .inr ⟨hupper, ?_⟩⟩
    rw [hroom] at hhigh
    have hfloor : (⌊s.clamp v⌋ : ℚ) ≤ s.clamp v := Int.floor_le _
    have hpage : ⌊s.clamp v⌋ < (s.upper : ℤ) := by
      have hlt : (⌊s.clamp v⌋ : ℚ) < (s.upper : ℚ) := by linarith
      exact_mod_cast hlt
    change ⌊s.clamp v⌋.toNat < s.upper
    omega

theorem onPage_start (size : ℕ) : OnPage size (start size) :=
  ⟨rfl, rfl, ⟨le_rfl, le_max_left _ _⟩, 0, rows_libraryLoad _, .inl rfl⟩

theorem onPage_step (h : OnPage size s) {op : PageOp} (hop : Keeps size op) :
    ∃ s', s.step op = .ok s' ∧ OnPage size s' := by
  have hturn (page' : ℕ) : OnPage size { s with page := page' } :=
    ⟨h.size_eq, h.upper_eq, h.value_mem, h.rows_eq⟩
  cases op with
  | next => exact ⟨_, rfl, onPage_setValue (hturn _) _⟩
  | prev => exact ⟨_, rfl, onPage_setValue (hturn _) _⟩
  | spin v => exact ⟨_, rfl, onPage_setValue h v⟩
  | refresh m =>
    cases hop m rfl
    refine ⟨_, rfl, rfl, rfl, ?_, 0, rows_libraryLoad _, .inl rfl⟩
    have hvalue := h.value_mem
    rw [h.upper_eq] at hvalue
    exact hvalue

theorem onPage_of_run {ops : List PageOp} (hops : ∀ op ∈ ops, Keeps size op)
    (hr : run step (start size) ops = .ok s) : OnPage size s := by
  have hadmits : Admits step (fun _ op => Keeps size op) (start size) ops := by
    intro bs op hbefore _ _
    exact hops op (hbefore.subset (by simp))
  exact (always_of_admits (fun _ _ h hop => onPage_step h hop) (onPage_start size) hadmits).last hr

theorem shown_of_lt {k : ℕ} (hk : k < size) (hfirst : k < pageSize) : Shown size k := by
  refine ⟨[], by simp, start size, rfl, ?_⟩
  rw [start, rows_libraryLoad]
  exact mem_entries.mpr ⟨Nat.div_eq_of_lt hfirst, hk⟩

/-- The adjustment takes a number between its bounds. -/
theorem setValue_eq {page : ℕ} (hlow : 1 ≤ page) (hhigh : page + 1 ≤ s.upper)
    (hne : (page : ℚ) ≠ s.value) :
    s.setValue page = { s with value := page, page := page }.libraryLoad := by
  have hmem : s.clamp page = page := by
    apply PageSpin.clamp_of_mem
    refine ⟨by exact_mod_cast hlow, le_max_of_le_right ?_⟩
    have hcast : (page : ℚ) + 1 ≤ s.upper := by exact_mod_cast hhigh
    linarith
  rw [setValue_of_ne (hmem.trans_ne hne), hmem, Int.floor_natCast, Int.toNat_natCast]

/-- The first value of the adjustment is reached by way of the second. -/
theorem shown_of_upper {k : ℕ} (hk : k < size) (hupper : 3 ≤ size / pageSize)
    (hpage : k / pageSize < size / pageSize) : Shown size k := by
  rcases Nat.lt_trichotomy (k / pageSize) 1 with hzero | hone | hmore
  · exact shown_of_lt hk (by rw [pageSize] at hzero ⊢; omega)
  · refine ⟨[.spin (2 : ℕ), .spin (1 : ℕ)], by simp [Keeps], _, rfl, ?_⟩
    have hsecond : (start size).setValue (2 : ℕ) =
        { start size with value := (2 : ℕ), page := 2 }.libraryLoad :=
      setValue_eq (by decide) hupper (by change ((2 : ℕ) : ℚ) ≠ 1; norm_num)
    rw [hsecond, setValue_eq le_rfl (hupper.trans' (by decide))
      (by change ((1 : ℕ) : ℚ) ≠ ((2 : ℕ) : ℚ); norm_num), rows_libraryLoad]
    exact mem_entries.mpr ⟨hone, hk⟩
  · refine ⟨[.spin (k / pageSize : ℕ)], by simp [Keeps], _, rfl, ?_⟩
    rw [setValue_eq (by omega) hpage, rows_libraryLoad]
    · exact mem_entries.mpr ⟨rfl, hk⟩
    · change ((k / pageSize : ℕ) : ℚ) ≠ 1
      exact_mod_cast hmore.ne'

theorem shown_iff {k : ℕ} : Shown size k ↔
    k < size ∧ (k < pageSize ∨ 3 ≤ size / pageSize ∧ k / pageSize < size / pageSize) := by
  constructor
  · rintro ⟨ops, hops, s, hr, hk⟩
    have h := onPage_of_run hops hr
    obtain ⟨page, hrows, hpage⟩ := h.rows_eq
    rw [hrows] at hk
    obtain ⟨hdiv, hlt⟩ := mem_entries.mp hk
    rw [← hdiv, h.upper_eq] at hpage
    refine ⟨hlt, hpage.imp_left fun hzero => ?_⟩
    exact (Nat.div_eq_zero_iff_lt (by decide)).mp hzero
  · rintro ⟨hk, hfirst | ⟨hupper, hpage⟩⟩
    · exact shown_of_lt hk hfirst
    · exact shown_of_upper hk hupper hpage

theorem complete_iff (size : ℕ) : (∀ k < size, Shown size k) ↔
    size ≤ pageSize ∨ 3 * pageSize ≤ size ∧ pageSize ∣ size := by
  simp only [shown_iff, pageSize]
  constructor
  · intro h
    by_cases hsmall : size ≤ 50
    · exact .inl hsmall
    · have hlast := (h (size - 1) (by omega)).2
      omega
  · rintro (hsmall | ⟨hlarge, hdvd⟩) k hk
    · omega
    · refine ⟨hk, .inr ⟨by omega, ?_⟩⟩
      omega

/-- Number and rows agree all through a run exactly when each turn of a page that goes past the
bounds of the adjustment leaves an empty page or none; and all entries can be seen exactly when
there is one page, or three and more with the last of them full. -/
theorem coherent_and_complete_iff (size : ℕ) :
    (∀ ops, Always step Coherent (start size) ops ↔ Admits step PageOk (start size) ops) ∧
      ((∀ k < size, Shown size k) ↔ size ≤ pageSize ∨ 3 * pageSize ≤ size ∧ pageSize ∣ size) :=
  ⟨coherent_iff_pageOk size, complete_iff size⟩

/-- The adjustment is at one, so that a click on the arrow does not load the page it turns to; and
the second page of two cannot be come by. -/
theorem second_page_of_two_not_shown :
    ¬ Always step Coherent (start 51) [.next] ∧ ¬ Shown 51 50 := by
  constructor
  · intro h
    obtain ⟨s, hs, hcoherent⟩ := h [.next] (List.prefix_refl _)
    have hstep : (start 51).step .next = .ok s := hs
    rcases (coherent_step_iff (coherent_start 51) hstep).mp hcoherent with hmoves | hempty
    · exact hmoves (PageSpin.clamp_of_mem (v := (1 : ℕ)) (by norm_num))
    · exact absurd hempty (by decide)
  · rw [shown_iff]
    decide

end Pager

namespace PresetTabs

/-- The pager of the library tab. -/
structure HasPager (t : PresetTabs) (s : Pager) : Prop where
  size : s.size = (elements t.libraryJson).length
  rows : t.rows .library = s.rows.map fun k => (elements t.libraryJson).getD k .null
  spin : s.toPageSpin = t.toPageSpin

/-- What an operation of the tabs is to the pager. -/
def pageOps : TabOp → List PageOp
  | .save _ _ _ | .importPresets _ | .delete _ _ | .heart _ _ _ => []
  | .refresh downloaded => [.refresh (elements downloaded).length]
  | .spin v => [.spin v]
  | .next => [.next]
  | .prev => [.prev]

variable {entry : Folder → Text → Option (Folder × Text)} {t t' : PresetTabs} {s : Pager}

theorem map_getD_range (js : List Json) :
    (List.range js.length).map (fun k => js.getD k .null) = js := by
  apply List.ext_getElem
  · rw [List.length_map, List.length_range]
  · intro k hk hk'
    rw [List.getElem_map, List.getElem_range, List.getD_eq_getElem _ _ hk']

/-- What the library tab goes by, its rows apart. -/
structure SamePage (t t' : PresetTabs) : Prop where
  libraryJson : t'.libraryJson = t.libraryJson
  spin : t'.toPageSpin = t.toPageSpin

theorem samePage_addPreset {w : Tab} {j : Json} (h : t.addPreset w j = .ok t') : SamePage t t' := by
  obtain ⟨-, rfl⟩ := addPreset_ok h
  exact ⟨rfl, rfl⟩

theorem samePage_addPresetMulti {w : Tab} {js : List Json} (h : t.addPresetMulti w js = .ok t') :
    SamePage t t' := by
  induction js generalizing t with
  | nil =>
    cases h
    exact ⟨rfl, rfl⟩
  | cons j js ih =>
    rw [addPresetMulti, List.foldlM_cons] at h
    obtain ⟨t₁, hj, hrest⟩ := exists_of_bind_ok h
    have hfirst := samePage_addPreset hj
    have hlater := ih hrest
    exact ⟨hlater.libraryJson.trans hfirst.libraryJson, hlater.spin.trans hfirst.spin⟩

theorem HasPager.of_samePage (h : t.HasPager s) (hsame : SamePage t t')
    (hrows : t'.rows .library = t.rows .library) : t'.HasPager s := by
  constructor
  · rw [hsame.libraryJson, h.size]
  · rw [hrows, hsame.libraryJson, h.rows]
  · rw [hsame.spin, h.spin]

theorem hasPager_push (h : t.HasPager s) {w : Tab} (hw : w ≠ .library) (files : Folders) (j : Json) :
    ({ t with files := files }.push w j).HasPager s :=
  h.of_samePage ⟨rfl, rfl⟩ (Function.update_of_ne (Ne.symm hw) _ _)

/-- The rows of the library are made by the same loop. -/
theorem hasPager_libraryLoad (hsize : s.size = (elements t.libraryJson).length)
    (hspin : s.toPageSpin = t.toPageSpin) (h : t.libraryLoad = .ok t') :
    t'.HasPager s.libraryLoad := by
  have hsame := samePage_addPresetMulti
    (t := { t with rows := Function.update t.rows .library [] }) h
  have hpushed := addPresetMulti_pushed
    (s := { t with rows := Function.update t.rows .library [] }) h
  constructor
  · rw [hsame.libraryJson]
    exact hsize
  · rw [hpushed.rows, hsame.libraryJson, Pager.libraryLoad, ← loadRows_map, hsize, map_getD_range,
      loadRows_zero, hspin]
    simp
  · exact hspin.trans hsame.spin.symm

theorem hasPager_setValue (h : t.HasPager s) {v : ℚ} (hs : t.setValue v = .ok t') :
    t'.HasPager (s.setValue v) := by
  rw [setValue] at hs
  rw [Pager.setValue, h.spin]
  cases hset : t.toPageSpin.setValue v with
  | none =>
    rw [hset] at hs
    cases hs
    exact h
  | some spin =>
    rw [hset] at hs
    exact hasPager_libraryLoad (t := { t with toPageSpin := spin }) h.size rfl hs

theorem hasPager_import {presets : List Json} (h : t.HasPager s)
    (hs : presets.foldlM (importPreset entry) t = .ok t') : t'.HasPager s := by
  induction presets generalizing t with
  | nil =>
    cases hs
    exact h
  | cons preset presets ih =>
    rw [List.foldlM_cons] at hs
    obtain ⟨t₁, hturn, hrest⟩ := exists_of_bind_ok hs
    obtain ⟨name, preset', -, -, rfl⟩ := importPreset_ok hturn
    exact ih (hasPager_push h (by decide) _ _) hrest

/-- The library tab turns its pages as the pager does; nothing else in the tabs touches it. -/
theorem hasPager_step (h : t.HasPager s) {op : TabOp} (hs : step entry t op = .ok t') :
    ∃ s', run Pager.step s (pageOps op) = .ok s' ∧ t'.HasPager s' := by
  cases op with
  | save name saved elsewhere =>
    obtain ⟨j, -, -, rfl⟩ := save_ok hs
    exact ⟨s, rfl, hasPager_push h (by decide) _ _⟩
  | importPresets j => exact ⟨s, rfl, hasPager_import h hs⟩
  | delete row elsewhere =>
    refine ⟨s, rfl, ?_⟩
    rcases delete_ok hs with ⟨-, rfl⟩ | ⟨-, -, name, rfl⟩
    · exact h
    · have huser : Tab.library ≠ .user := by decide
      exact h.of_samePage ⟨rfl, rfl⟩
        (Function.update_of_ne huser ((t.rows .user).eraseIdx row) t.rows)
  | heart w row active =>
    refine ⟨s, rfl, ?_⟩
    rcases heart_ok hs with ⟨-, rfl⟩ | ⟨j, name, -, -, ⟨-, rfl⟩ | ⟨-, rfl⟩⟩
    · exact h
    · exact hasPager_push h (by decide) _ _
    · exact h.of_samePage ⟨rfl, rfl⟩ rfl
  | refresh downloaded =>
    exact ⟨_, rfl, hasPager_libraryLoad
      (t := { t with
        page := 0
        libraryJson := downloaded
        upper := (elements downloaded).length / pageSize }) rfl (by rw [h.spin]) hs⟩
  | spin v => exact ⟨_, rfl, hasPager_setValue h hs⟩
  | next =>
    refine ⟨_, rfl, ?_⟩
    rw [h.spin]
    exact hasPager_setValue (t := { t with page := t.page + 1 })
      (s := { s with toPageSpin := { t.toPageSpin with page := t.page + 1 } })
      ⟨h.size, h.rows, rfl⟩ hs
  | prev =>
    refine ⟨_, rfl, ?_⟩
    rw [h.spin]
    exact hasPager_setValue (t := { t with page := t.page - 1 })
      (s := { s with toPageSpin := { t.toPageSpin with page := t.page - 1 } })
      ⟨h.size, h.rows, rfl⟩ hs

theorem hasPager_my {files : Folders} {quick library : Json} (hs : my files quick library = .ok t) :
    t.HasPager (Pager.start (elements library).length) := by
  obtain ⟨t₁, huser, hs⟩ := exists_of_bind_ok hs
  obtain ⟨t₂, hheart, hs⟩ := exists_of_bind_ok hs
  obtain ⟨t₃, hfactory, hload⟩ := exists_of_bind_ok hs
  have h₁ := samePage_addPresetMulti huser
  have h₂ := samePage_addPresetMulti hheart
  have h₃ := samePage_addPresetMulti hfactory
  refine hasPager_libraryLoad (t := t₃) ?_ ?_ hload
  · rw [h₃.libraryJson, h₂.libraryJson, h₁.libraryJson]
  · rw [h₃.spin, h₂.spin, h₁.spin]

end PresetTabs

end AmpRack

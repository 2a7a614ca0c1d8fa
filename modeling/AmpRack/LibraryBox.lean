import AmpRack.BoxOrder
import AmpRack.LibraryPages

/-!
# The rows of the library

`library_load` takes the rows of the library box away, walking from a child to its next sibling while
it removes them, and makes a row for every entry of the page. `add_preset` puts the row into the box
before it converts the name of the entry to a string, which throws when the name is none.
-/

namespace AmpRack

open BoxOrder JsonText GuardedRun

inductive LibraryFault
  | thrown (t : Thrown)
  | signedOverflow
  deriving DecidableEq

/-- The library box. Its children are the numbers of the row widgets, and `preset` the entries that
rows were made for. -/
structure LibraryBox where
  children : List ℕ
  preset : ℕ → Json
  nextWidget : ℕ
  nodup : children.Nodup
  lt_next : ∀ w ∈ children, w < nextWidget

namespace LibraryBox

/-- The `while` loop that removes the children. A widget that is in no box has no next sibling. -/
def removeFrom (children : List ℕ) : Option ℕ → List ℕ
  | none => children
  | some iter =>
    if iter ∈ children then removeFrom (children.erase iter) (nextSibling iter children)
    else children
termination_by children.length
decreasing_by
  rename_i h
  have hpos := List.length_pos_of_mem h
  rw [List.length_erase_of_mem h]
  omega

/-- The children are removed from the front, so the next sibling is always the first that is left. -/
theorem removeFrom_head (children : List ℕ) : removeFrom children children.head? = [] := by
  induction children with
  | nil => rw [List.head?_nil, removeFrom]
  | cons c cs ih =>
    rw [List.head?_cons, removeFrom, if_pos List.mem_cons_self, List.erase_cons_head, nextSibling,
      if_pos rfl]
    exact ih

def rows (b : LibraryBox) : List Json := b.children.map b.preset

def removeRows (b : LibraryBox) : LibraryBox where
  children := removeFrom b.children b.children.head?
  preset := b.preset
  nextWidget := b.nextWidget
  nodup := by
    rw [removeFrom_head]
    exact List.nodup_nil
  lt_next := by
    rw [removeFrom_head]
    exact fun w hw => absurd hw List.not_mem_nil

theorem rows_removeRows (b : LibraryBox) : b.removeRows.rows = [] := by
  change (removeFrom b.children b.children.head?).map b.preset = []
  rw [removeFrom_head, List.map_nil]

/-- `gtk_box_append` of a new row. -/
def append (b : LibraryBox) (p : Json) : LibraryBox where
  children := b.children ++ [b.nextWidget]
  preset := Function.update b.preset b.nextWidget p
  nextWidget := b.nextWidget + 1
  nodup := List.nodup_append.mpr ⟨b.nodup, List.nodup_singleton _, by
    rintro w hw v hv rfl
    exact Nat.lt_irrefl _ (List.mem_singleton.mp hv ▸ b.lt_next w hw)⟩
  lt_next := by
    intro w hw
    obtain hw | hw := List.mem_append.mp hw
    · exact Nat.lt_succ_of_lt (b.lt_next w hw)
    · rw [List.mem_singleton.mp hw]
      exact Nat.lt_succ_self _

theorem rows_append (b : LibraryBox) (p : Json) : (b.append p).rows = b.rows ++ [p] := by
  have hold : b.children.map (Function.update b.preset b.nextWidget p) = b.rows := by
    apply List.map_congr_left
    intro w hw
    exact Function.update_of_ne (Nat.ne_of_lt (b.lt_next w hw)) _ _
  simp only [rows, append, List.map_append, List.map_cons, List.map_nil, Function.update_self]
  rw [hold, rows]

def addPreset (b : LibraryBox) (p : Json) : Except LibraryFault LibraryBox :=
  if (rowName p).isSome then .ok (b.append p) else .error (.thrown .typeError)

/-- The `for` loop: `i` entries have been skipped and `e` rows made. -/
def loadFrom (skip : ℕ) (b : LibraryBox) (i e : ℕ) : List Json → Except LibraryFault LibraryBox
  | [] => .ok b
  | p :: ps =>
    if i < skip then loadFrom skip b (i + 1) e ps
    else if pageSize < e + 1 then .ok b
    else (b.addPreset p).bind fun b => loadFrom skip b i (e + 1) ps

def libraryLoad (b : LibraryBox) (library : Json) (page : ℕ) : Except LibraryFault LibraryBox :=
  if page * pageSize < 2 ^ 31 then
    loadFrom (page * pageSize) b.removeRows 0 0 (elements library)
  else .error .signedOverflow

/-- The entries with the numbers `page * pageSize` to `min ((page + 1) * pageSize) n - 1`. -/
def pageEntries (js : List Json) (page : ℕ) : List Json :=
  (Pager.entries js.length page).map fun k => js.getD k .null

/-- `library_load` returns and leaves the rows of the page in the box. -/
def LoadsPage (b : LibraryBox) (library : Json) (page : ℕ) : Prop :=
  ∃ b', b.libraryLoad library page = .ok b' ∧ b'.rows = pageEntries (elements library) page

variable {b b' : LibraryBox} {skip i e : ℕ}

theorem pageEntries_eq (js : List Json) (page : ℕ) :
    pageEntries js page = loadRows (page * pageSize) 0 0 js := by
  have hentries := Pager.rows_libraryLoad { size := js.length, page := page, upper := 0 }
  rw [pageEntries, ← hentries, Pager.libraryLoad, ← loadRows_map, PresetTabs.map_getD_range]

theorem addPreset_eq_ok {p : Json} :
    b.addPreset p = .ok b' ↔ (rowName p).isSome ∧ b' = b.append p := by
  rw [addPreset]
  split_ifs with h
  · simp [h, eq_comm]
  · simp [h]

/-- The loop goes through exactly when every entry it makes a row for has a name. -/
theorem loadFrom_ok_iff (ps : List Json) :
    (∃ b', loadFrom skip b i e ps = .ok b' ∧ b'.rows = b.rows ++ loadRows skip i e ps) ↔
      ∀ p ∈ loadRows skip i e ps, (rowName p).isSome := by
  induction ps generalizing b i e with
  | nil => simp [loadFrom, loadRows]
  | cons p ps ih =>
    rw [loadFrom, loadRows]
    split_ifs with hskip hfull
    · exact ih
    · simp
    · rw [List.forall_mem_cons, ← ih (b := b.append p), rows_append, List.append_assoc]
      constructor
      · rintro ⟨b', hb', hrows⟩
        obtain ⟨b₁, hadd, hrest⟩ := exists_of_bind_ok hb'
        obtain ⟨hname, rfl⟩ := addPreset_eq_ok.mp hadd
        exact ⟨hname, b', hrest, hrows⟩
      · rintro ⟨hname, b', hrest, hrows⟩
        refine ⟨b', ?_, hrows⟩
        rw [addPreset_eq_ok.mpr ⟨hname, rfl⟩]
        exact hrest

theorem loadsPage_iff (b : LibraryBox) (library : Json) {page : ℕ}
    (hpage : page * pageSize < 2 ^ 31) :
    b.LoadsPage library page ↔
      ∀ p ∈ pageEntries (elements library) page, (rowName p).isSome := by
  rw [LoadsPage, libraryLoad, if_pos hpage, pageEntries_eq, ← loadFrom_ok_iff (b := b.removeRows),
    rows_removeRows, List.nil_append]

theorem flatMap_pages (js : List Json) (count : ℕ) :
    (List.range count).flatMap (pageEntries js) = js.take (count * pageSize) := by
  induction count with
  | zero => rw [List.range_zero, List.flatMap_nil, Nat.zero_mul, List.take_zero]
  | succ count ih =>
    rw [List.range_succ, List.flatMap_append, ih, List.flatMap_singleton, pageEntries_eq,
      loadRows_zero, Nat.succ_mul, List.take_add]

/-- Whatever the box held before, a page is loaded exactly when all of its entries have names; and
the pages, one behind the other, are the library. -/
theorem loadsPage_iff_named (library : Json) :
    (∀ (b : LibraryBox) (page : ℕ), page * pageSize < 2 ^ 31 →
      (b.LoadsPage library page ↔
        ∀ p ∈ pageEntries (elements library) page, (rowName p).isSome)) ∧
      (List.range (((elements library).length + pageSize - 1) / pageSize)).flatMap
        (pageEntries (elements library)) = elements library := by
  constructor
  · exact fun b page => b.loadsPage_iff library
  · rw [flatMap_pages, List.take_of_length_le]
    rw [pageSize]
    omega

def example51 : Json := .arr (List.replicate 51 (.obj [("name".toList, .str "Clean".toList)]))

def emptyBox : LibraryBox := ⟨[], fun _ => .null, 0, List.nodup_nil, by simp⟩

/-- The second page of 51 entries is the last one. -/
theorem second_page_loads : emptyBox.LoadsPage example51 1 ∧
    (pageEntries (elements example51) 1).length = 1 :=
  ⟨((loadsPage_iff_named example51).1 emptyBox 1 (by decide)).mpr (by decide), by decide⟩

/-- One entry without a name. -/
theorem nameless_entry_throws : ¬ emptyBox.LoadsPage (.arr [.obj []]) 0 := by
  intro h
  have hnamed := (loadsPage_iff emptyBox (.arr [.obj []]) (by decide)).mp h
  exact absurd hnamed (by decide)

theorem named_of_addPresetMulti {t t' : PresetTabs} {w : Tab} {js : List Json}
    (h : t.addPresetMulti w js = .ok t') : ∀ p ∈ js, (rowName p).isSome := by
  induction js generalizing t with
  | nil => exact fun p hp => absurd hp List.not_mem_nil
  | cons j js ih =>
    rw [PresetTabs.addPresetMulti, List.foldlM_cons] at h
    obtain ⟨t₁, hj, hrest⟩ := exists_of_bind_ok h
    exact List.forall_mem_cons.mpr ⟨(PresetTabs.addPreset_ok hj).1, ih hrest⟩

/-- The box has the rows that the tab is said to have. -/
theorem libraryLoad_tabs {t t' : PresetTabs} (b : LibraryBox) (hpage : t.page * pageSize < 2 ^ 31)
    (h : t.libraryLoad = .ok t') :
    ∃ b', b.libraryLoad t.libraryJson t.page = .ok b' ∧ b'.rows = t'.rows .library := by
  have hslice := (loadRows_zero (t.page * pageSize) (elements t.libraryJson)).symm
  rw [← pageEntries_eq] at hslice
  rw [PresetTabs.libraryLoad, hslice] at h
  have hrows : t'.rows .library = pageEntries (elements t.libraryJson) t.page := by
    rw [(PresetTabs.addPresetMulti_pushed h).rows]
    simp
  rw [hrows]
  exact (b.loadsPage_iff t.libraryJson hpage).mpr (named_of_addPresetMulti h)

end LibraryBox

end AmpRack

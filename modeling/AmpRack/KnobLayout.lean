import AmpRack.BrowserFilters
import AmpRack.RaggedRows

/-!
# The knobs of a card

The constructor of a card goes through the controls and, if there are less than fifteen, through the
table that `knobs.json` has for their number: every control but the atoms takes a cell, which says
how large its knob is. A row of the table is a row of knobs on the card. A switch takes a cell too,
and gets a button in a row of its own.
-/

namespace AmpRack

open JsonText RaggedRows VectorEdits

/-- What the constructor reads of a control. -/
structure NamedControl where
  type : ControlType
  name : Text

/-- What a control becomes: the widgets for a file, a slider with a line of its own, which for a
switch is a button, or a knob in the box that was made at the control `box`. -/
inductive CardWidget
  | fileChooser
  | slider (switch : Bool)
  | knob (box : ℕ) (number : ℤ) (size : ℕ)
  deriving DecidableEq

inductive LayoutFault
  | typeError
  | outOfRange
  deriving DecidableEq

namespace KnobLayout

def knobSizes : List ℕ := [48, 84, 100, 140]

def bypassContains : List String :=
  ["Pull the", "witch", "oggle", "prefilter", "bypass", "stick it!", "vibe", "hold"]

def isSwitch (name : Text) : Bool :=
  bypassContains.any fun part => Framing.contains (Browser.lower part.toList) (Browser.lower name)

/-- `j [key]`. A member that is missing is null. -/
def member (key : Text) : Json → Except LayoutFault Json
  | .null => .ok .null
  | .obj ms => .ok (((Json.obj ms).get? key).getD .null)
  | _ => .error .typeError

/-- `j [i]`, for an `int`. An element that is missing is null. -/
def element (i : ℕ) : Json → Except LayoutFault Json
  | .null => .ok .null
  | .arr xs => .ok (xs.getD i .null)
  | _ => .error .typeError

/-- `j.size ()` -/
def size : Json → ℕ
  | .null => 0
  | .arr xs => xs.length
  | .obj ms => ms.length
  | _ => 1

structure State where
  row : ℕ := 0
  col : ℕ := 0
  currentBox : Option ℕ := none
  widgets : List CardWidget := []

/-- `knob_sizes [layout [col].get <int> ()]`, with the number that is part of the knob's name. -/
def knobSize (layout : Json) (col : ℕ) : Except LayoutFault (ℤ × ℕ) :=
  match element col layout with
  | .error f => .error f
  | .ok cell =>
    match getInt cell with
    | none => .error .typeError
    | some number =>
      match at? knobSizes number with
      | none => .error .outOfRange
      | some kSize => .ok (number, kSize)

/-- The row of the table that the loop has come to. -/
def layoutAt (knobs : Json) (n row : ℕ) : Except LayoutFault Json :=
  (member (Nat.toDigits 10 n) knobs).bind (member (Nat.toDigits 10 row))

/-- The end of a turn: a new widget, and the next column or row. -/
def State.advance (s : State) (layoutSize : ℕ) (widget : CardWidget) (currentBox : Option ℕ) :
    State :=
  if layoutSize ≤ s.col + 1 then ⟨s.row + 1, 0, none, s.widgets ++ [widget]⟩
  else ⟨s.row, s.col + 1, currentBox, s.widgets ++ [widget]⟩

/-- A turn of the loop, for `n` controls. `amps` is null, so there is no drop down list of values;
`bnobs` is true. -/
def addControl (knobs : Json) (n : ℕ) (s : State) (control : NamedControl) :
    Except LayoutFault State :=
  if control.type = .atom then .ok { s with widgets := s.widgets ++ [.fileChooser] }
  else if n < 15 then
    match layoutAt knobs n s.row with
    | .error f => .error f
    | .ok layout =>
      match knobSize layout s.col with
      | .error f => .error f
      | .ok (number, kSize) =>
        if isSwitch control.name then .ok (s.advance (size layout) (.slider true) s.currentBox)
        else
          let box := s.currentBox.getD s.widgets.length
          .ok (s.advance (size layout) (.knob box number kSize) (some box))
  else .ok (s.advance 1 (.slider (isSwitch control.name)) s.currentBox)

/-- The loop of `PluginUI::PluginUI` over the controls. -/
def layout (knobs : Json) (controls : List NamedControl) : Except LayoutFault State :=
  controls.foldlM (addControl knobs controls.length) {}

/-- What stands in `knobs` for `n` controls are these rows, of sizes that there are. -/
structure Table (knobs : Json) (n : ℕ) (rows : List (List ℕ)) : Prop where
  read : ∀ (r : ℕ) (row : List ℕ), rows[r]? = some row →
    layoutAt knobs n r = .ok (.arr (row.map fun v : ℕ => .int v))
  nonempty : ∀ row ∈ rows, row ≠ []
  sizes : ∀ row ∈ rows, ∀ v ∈ row, v < knobSizes.length

/-- How many cells are taken in front of the control at place `i`. -/
def cellOf (controls : List NamedControl) (i : ℕ) : ℕ :=
  (controls.take i).countP (·.type ≠ .atom)

/-- The knobs are those of the table, and two of them are in one box when their cells are in one
row. -/
structure LaidOut (rows : List (List ℕ)) (controls : List NamedControl)
    (widgets : List CardWidget) : Prop where
  length : widgets.length = controls.length
  files : ∀ (i : ℕ) (c : NamedControl), controls[i]? = some c → c.type = .atom →
    widgets[i]? = some .fileChooser
  switches : ∀ (i : ℕ) (c : NamedControl), controls[i]? = some c → c.type ≠ .atom →
    isSwitch c.name = true → widgets[i]? = some (.slider true)
  knobs : ∀ (i : ℕ) (c : NamedControl), controls[i]? = some c → c.type ≠ .atom →
    isSwitch c.name = false → ∃ (box v kSize : ℕ), rows.flatten[cellOf controls i]? = some v ∧
      knobSizes[v]? = some kSize ∧ widgets[i]? = some (.knob box v kSize)
  boxes : ∀ (i j box box' : ℕ) (v v' : ℤ) (kSize kSize' : ℕ),
    widgets[i]? = some (.knob box v kSize) → widgets[j]? = some (.knob box' v' kSize') →
      (box = box' ↔ rowOf rows (cellOf controls i) = rowOf rows (cellOf controls j))

/-- What holds in front of every turn, after the controls `before`. -/
structure Reached (rows : List (List ℕ)) (before : List NamedControl) (s : State) : Prop where
  laid : LaidOut rows before s.widgets
  stands : StandsAt rows (before.countP (·.type ≠ .atom)) (s.row, s.col)
  older : ∀ (i box : ℕ) (v : ℤ) (kSize : ℕ), s.widgets[i]? = some (.knob box v kSize) →
    box < before.length ∧ rowOf rows (cellOf before i) ≤ s.row
  current : ∀ (i box : ℕ) (v : ℤ) (kSize : ℕ), s.widgets[i]? = some (.knob box v kSize) →
    (rowOf rows (cellOf before i) = s.row ↔ s.currentBox = some box)
  made : ∀ box, s.currentBox = some box → box < before.length

section Turns

variable {knobs : Json} {n : ℕ} {rows : List (List ℕ)} {before : List NamedControl}
  {c : NamedControl} {s s' : State} {w : CardWidget}

theorem cellOf_concat {i : ℕ} (h : i ≤ before.length) :
    cellOf (before ++ [c]) i = cellOf before i := by
  rw [cellOf, cellOf, List.take_append_of_le_length h]

theorem cellOf_length (before : List NamedControl) :
    cellOf before before.length = before.countP (·.type ≠ .atom) := by
  rw [cellOf, List.take_length]

/-- The widget of one control more, and what it has to be. -/
theorem LaidOut.concat {widgets : List CardWidget} (h : LaidOut rows before widgets)
    (hfile : c.type = .atom → w = .fileChooser)
    (hswitch : c.type ≠ .atom → isSwitch c.name = true → w = .slider true)
    (hknob : c.type ≠ .atom → isSwitch c.name = false → ∃ box v kSize : ℕ,
      rows.flatten[cellOf before before.length]? = some v ∧ knobSizes[v]? = some kSize ∧
        w = .knob box v kSize)
    (hbox : ∀ (i box box' : ℕ) (v v' : ℤ) (kSize kSize' : ℕ),
      widgets[i]? = some (.knob box v kSize) → w = .knob box' v' kSize' →
        (box = box' ↔ rowOf rows (cellOf before i) =
          rowOf rows (cellOf before before.length))) :
    LaidOut rows (before ++ [c]) (widgets ++ [w]) := by
  have hlength := h.length
  have hget {i : ℕ} (hi : i < before.length) : (widgets ++ [w])[i]? = widgets[i]? :=
    List.getElem?_append_left (by omega)
  have hlast : (widgets ++ [w])[before.length]? = some w := by
    rw [← hlength]
    exact List.getElem?_concat_length
  constructor
  · rw [List.length_append, List.length_append, hlength]
    rfl
  · intro i d hd hatom
    obtain ⟨hi, hd⟩ | ⟨rfl, rfl⟩ := getElem?_concat_cases hd
    · rw [hget hi]
      exact h.files i d hd hatom
    · rw [hlast, hfile hatom]
  · intro i d hd hatom hs
    obtain ⟨hi, hd⟩ | ⟨rfl, rfl⟩ := getElem?_concat_cases hd
    · rw [hget hi]
      exact h.switches i d hd hatom hs
    · rw [hlast, hswitch hatom hs]
  · intro i d hd hatom hs
    obtain ⟨hi, hd⟩ | ⟨rfl, rfl⟩ := getElem?_concat_cases hd
    · rw [hget hi, cellOf_concat hi.le]
      exact h.knobs i d hd hatom hs
    · rw [hlast, cellOf_concat le_rfl]
      obtain ⟨box, v, kSize, hv, hsize, rfl⟩ := hknob hatom hs
      exact ⟨box, v, kSize, hv, hsize, rfl⟩
  · have hnew : cellOf (before ++ [c]) widgets.length = cellOf before before.length := by
      rw [hlength, cellOf_concat le_rfl]
    have hold {i : ℕ} (hi : i < widgets.length) : cellOf (before ++ [c]) i = cellOf before i :=
      cellOf_concat (by omega)
    intro i j box box' v v' kSize kSize' hi hj
    obtain ⟨hlt, hi'⟩ | ⟨rfl, hw⟩ := getElem?_concat_cases hi
    · obtain ⟨hlt', hj'⟩ | ⟨rfl, hw'⟩ := getElem?_concat_cases hj
      · rw [hold hlt, hold hlt']
        exact h.boxes i j box box' v v' kSize kSize' hi' hj'
      · rw [hold hlt, hnew]
        exact hbox i box box' v v' kSize kSize' hi' hw'
    · obtain ⟨hlt', hj'⟩ | ⟨rfl, hw'⟩ := getElem?_concat_cases hj
      · rw [hold hlt', hnew, eq_comm, eq_comm (a := rowOf _ _)]
        exact hbox j box' box v' v kSize' kSize hj' hw
      · rw [hw] at hw'
        cases hw'
        exact iff_of_true rfl rfl

theorem reached_nil (rows : List (List ℕ)) : Reached rows [] {} where
  laid := ⟨rfl, fun _ _ h => (by cases h), fun _ _ h => (by cases h), fun _ _ h => (by cases h),
    fun _ _ _ _ _ _ _ _ h => (by cases h)⟩
  stands := standsAt_zero rows
  older _ _ _ _ h := (by cases h)
  current _ _ _ _ h := (by cases h)
  made _ h := (by cases h)

/-- The widget for a file takes no cell. -/
theorem Reached.file (h : Reached rows before s) (hc : c.type = .atom) :
    Reached rows (before ++ [c]) { s with widgets := s.widgets ++ [.fileChooser] } := by
  have hlength := h.laid.length
  have hknob {i box : ℕ} {v : ℤ} {kSize : ℕ}
      (hi : (s.widgets ++ [.fileChooser])[i]? = some (.knob box v kSize)) :
      i < before.length ∧ s.widgets[i]? = some (.knob box v kSize) := by
    obtain ⟨hlt, hi⟩ | ⟨-, hw⟩ := getElem?_concat_cases hi
    · exact ⟨by omega, hi⟩
    · cases hw
  constructor
  · exact h.laid.concat (fun _ => rfl) (fun hne => absurd hc hne) (fun hne => absurd hc hne)
      fun _ _ _ _ _ _ _ _ hw => (by cases hw)
  · rw [List.countP_append]
    simpa [hc] using h.stands
  · intro i box v kSize hi
    obtain ⟨hlt, hi⟩ := hknob hi
    rw [List.length_append, cellOf_concat hlt.le]
    obtain ⟨hbox, hrow⟩ := h.older i box v kSize hi
    exact ⟨hbox.trans (Nat.lt_succ_self _), hrow⟩
  · intro i box v kSize hi
    obtain ⟨hlt, hi⟩ := hknob hi
    rw [cellOf_concat hlt.le]
    exact h.current i box v kSize hi
  · intro box hbox
    rw [List.length_append]
    exact (h.made box hbox).trans (Nat.lt_succ_self _)

theorem advance_cursor (s : State) (layoutSize : ℕ) (w : CardWidget) (box : Option ℕ) :
    ((s.advance layoutSize w box).row, (s.advance layoutSize w box).col) =
      next layoutSize (s.row, s.col) := by
  rw [State.advance, next]
  split_ifs
  · rfl
  · rfl

theorem widgets_advance (s : State) (layoutSize : ℕ) (w : CardWidget) (box : Option ℕ) :
    (s.advance layoutSize w box).widgets = s.widgets ++ [w] := by
  rw [State.advance]
  split_ifs
  · rfl
  · rfl

/-- A turn that takes a cell. -/
theorem Reached.advance {row : List ℕ} {box' : Option ℕ} (h : Reached rows before s)
    (hrow : rows[s.row]? = some row) (hlt : s.col < row.length) (hc : c.type ≠ .atom)
    (hlaid : LaidOut rows (before ++ [c]) (s.widgets ++ [w]))
    (hboxes : ∀ (i box : ℕ) (v : ℤ) (kSize : ℕ),
      (s.widgets ++ [w])[i]? = some (.knob box v kSize) →
        box ≤ before.length ∧ rowOf rows (cellOf (before ++ [c]) i) ≤ s.row ∧
          (rowOf rows (cellOf (before ++ [c]) i) = s.row ↔ box' = some box))
    (hmade : ∀ box, box' = some box → box ≤ before.length) :
    Reached rows (before ++ [c]) (s.advance row.length w box') := by
  have hcursor := advance_cursor s row.length w box'
  have hstands := h.stands.next hrow hlt
  rw [← hcursor] at hstands
  have hcount : (before ++ [c]).countP (·.type ≠ .atom) = before.countP (·.type ≠ .atom) + 1 := by
    rw [List.countP_append]
    simp [hc]
  constructor
  · rw [widgets_advance]
    exact hlaid
  · rw [hcount]
    exact hstands
  · intro i box v kSize hi
    rw [widgets_advance] at hi
    obtain ⟨hbox, hle, -⟩ := hboxes i box v kSize hi
    rw [List.length_append]
    refine ⟨Nat.lt_succ_of_le hbox, hle.trans ?_⟩
    rw [State.advance]
    split_ifs
    · exact Nat.le_succ _
    · exact le_rfl
  · intro i box v kSize hi
    rw [widgets_advance] at hi
    obtain ⟨-, hle, hiff⟩ := hboxes i box v kSize hi
    rw [State.advance]
    split_ifs
    · exact iff_of_false (by dsimp only; omega) (by simp)
    · exact hiff
  · intro box hbox
    rw [List.length_append]
    apply Nat.lt_succ_of_le
    rw [State.advance] at hbox
    split_ifs at hbox
    exact hmade box hbox

/-- A switch takes a cell and leaves the box as it is. -/
theorem Reached.switch {row : List ℕ} (h : Reached rows before s) (hrow : rows[s.row]? = some row)
    (hlt : s.col < row.length) (hc : c.type ≠ .atom) (hs : isSwitch c.name = true) :
    Reached rows (before ++ [c]) (s.advance row.length (.slider true) s.currentBox) := by
  have hlength := h.laid.length
  apply h.advance hrow hlt hc
  · exact h.laid.concat (fun hatom => absurd hatom hc) (fun _ _ => rfl)
      (fun _ hno => by rw [hs] at hno; cases hno) fun _ _ _ _ _ _ _ _ hw => (by cases hw)
  · intro i box v kSize hi
    obtain ⟨hi', hi⟩ | ⟨-, hw⟩ := getElem?_concat_cases hi
    · obtain ⟨hbox, hle⟩ := h.older i box v kSize hi
      rw [cellOf_concat (by omega)]
      exact ⟨hbox.le, hle, h.current i box v kSize hi⟩
    · cases hw
  · exact fun box hbox => (h.made box hbox).le

/-- A knob goes to the box of its row, which is made for the first. -/
theorem Reached.knob {row : List ℕ} {v kSize : ℕ} (h : Reached rows before s)
    (hrow : rows[s.row]? = some row) (hv : row[s.col]? = some v) (hc : c.type ≠ .atom)
    (hs : isSwitch c.name = false) (hsize : knobSizes[v]? = some kSize) :
    Reached rows (before ++ [c]) (s.advance row.length
      (.knob (s.currentBox.getD s.widgets.length) v kSize)
      (some (s.currentBox.getD s.widgets.length))) := by
  have hlength := h.laid.length
  have hlt : s.col < row.length := (List.getElem?_eq_some_iff.mp hv).1
  have hcell : rows.flatten[cellOf before before.length]? = some v := by
    rw [cellOf_length, ← h.stands.cell hrow hlt, hv]
  have hhere : rowOf rows (cellOf before before.length) = s.row := by
    rw [cellOf_length]
    exact h.stands.rowOf hrow hlt
  have hsame (i box : ℕ) (u : ℤ) (l : ℕ) (hi : s.widgets[i]? = some (.knob box u l)) :
      rowOf rows (cellOf before i) = s.row ↔ s.currentBox.getD s.widgets.length = box := by
    rw [h.current i box u l hi]
    cases hbox : s.currentBox with
    | none =>
      have hold := (h.older i box u l hi).1
      exact iff_of_false (by simp) (by rw [Option.getD_none]; omega)
    | some b => rw [Option.getD_some, Option.some.injEq]
  have hmade : s.currentBox.getD s.widgets.length ≤ before.length := by
    cases hbox : s.currentBox with
    | none => exact hlength.le
    | some b => exact (h.made b hbox).le
  apply h.advance hrow hlt hc
  · refine h.laid.concat (fun hatom => absurd hatom hc) (fun _ hno => by rw [hs] at hno; cases hno)
      (fun _ _ => ⟨_, v, kSize, hcell, hsize, rfl⟩) fun i box box' u u' l l' hi hw => ?_
    cases hw
    rw [hhere, hsame i box u l hi, eq_comm]
  · intro i box u l hi
    obtain ⟨hi', hi⟩ | ⟨rfl, hw⟩ := getElem?_concat_cases hi
    · obtain ⟨hbox, hle⟩ := h.older i box u l hi
      rw [cellOf_concat (by omega), Option.some.injEq]
      exact ⟨hbox.le, hle, hsame i box u l hi⟩
    · cases hw
      rw [hlength, cellOf_concat le_rfl, hhere]
      exact ⟨by rwa [hlength] at hmade, le_rfl, iff_of_true rfl rfl⟩
  · intro box hbox
    rwa [← Option.some.inj hbox]

theorem getInt_natCast {v : ℕ} (h : v < 2 ^ 31) : getInt (.int (v : ℤ)) = some (v : ℤ) := by
  have hmod : (v : ℤ).bmod (2 ^ 32) = v := Int.bmod_eq_of_le (by omega) (by omega)
  rw [getInt, Json.toInt, Option.map_some, hmod]

theorem knobSize_of_cell {j cell : Json} {col kSize : ℕ} {number : ℤ}
    (hcell : element col j = .ok cell) (hnumber : getInt cell = some number)
    (hsize : at? knobSizes number = some kSize) : knobSize j col = .ok (number, kSize) := by
  rw [knobSize, hcell]
  simp only [hnumber, hsize]

theorem knobSize_of_row {row : List ℕ} {col v : ℕ} (hv : row[col]? = some v)
    (hlt : v < knobSizes.length) : ∃ kSize, knobSizes[v]? = some kSize ∧
      knobSize (.arr (row.map fun v : ℕ => .int v)) col = .ok ((v : ℤ), kSize) := by
  have hfour : v < 4 := hlt
  have hcell : element col (.arr (row.map fun v : ℕ => .int v)) = .ok (.int (v : ℤ)) := by
    rw [element, List.getD_eq_getElem?_getD, List.getElem?_map, hv]
    rfl
  have hsize : knobSizes[v]? = some (knobSizes.get ⟨v, hlt⟩) := List.getElem?_eq_getElem hlt
  refine ⟨_, hsize, knobSize_of_cell hcell (getInt_natCast (hfour.trans (by norm_num))) ?_⟩
  rw [at?_natCast, hsize]

/-- A turn with a table that has cells left. -/
theorem Table.turn (ht : Table knobs n rows) (hn : n < 15) (h : Reached rows before s)
    (hroom : c.type ≠ .atom → before.countP (·.type ≠ .atom) < rows.flatten.length) :
    ∃ s', addControl knobs n s c = .ok s' ∧ Reached rows (before ++ [c]) s' := by
  by_cases hc : c.type = .atom
  · exact ⟨_, if_pos hc, h.file hc⟩
  · obtain ⟨row, hrow, hlt⟩ := h.stands.exists_row ht.nonempty (hroom hc)
    have hv : row[s.col]? = some row[s.col] := List.getElem?_eq_getElem hlt
    have hmem : row ∈ rows := List.mem_of_getElem? hrow
    obtain ⟨kSize, hsize, hread⟩ :=
      knobSize_of_row hv (ht.sizes row hmem _ (List.mem_of_getElem? hv))
    have hrowSize : size (.arr (row.map fun v : ℕ => .int v)) = row.length := List.length_map _
    rw [addControl, if_neg hc, if_pos hn, ht.read s.row row hrow]
    simp only [hread, hrowSize]
    by_cases hs : isSwitch c.name = true
    · exact ⟨_, if_pos hs, h.switch hrow hlt hc hs⟩
    · exact ⟨_, if_neg hs, h.knob hrow hv hc (Bool.eq_false_iff.mpr hs) hsize⟩

/-- A table with a cell for every control but the atoms is never left. -/
theorem Table.run (ht : Table knobs n rows) (hn : n < 15) {controls : List NamedControl}
    (hroom : controls.countP (·.type ≠ .atom) ≤ rows.flatten.length) :
    ∃ s, controls.foldlM (addControl knobs n) {} = .ok s ∧ Reached rows controls s := by
  induction controls using List.reverseRecOn with
  | nil => exact ⟨{}, rfl, reached_nil rows⟩
  | append_singleton before c ih =>
    rw [List.countP_append] at hroom
    obtain ⟨s, hs, hreached⟩ := ih (by omega)
    have hcell (hc : c.type ≠ .atom) :
        before.countP (·.type ≠ .atom) < rows.flatten.length := by
      have hone : [c].countP (·.type ≠ .atom) = 1 := by simp [hc]
      omega
    obtain ⟨s', hs', hreached'⟩ := ht.turn hn hreached hcell
    exact ⟨s', GuardedRun.run_concat hs hs', hreached'⟩

end Turns

section File

end File

end KnobLayout

end AmpRack

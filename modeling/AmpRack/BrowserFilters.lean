import AmpRack.EffectBrowser
import AmpRack.LastEvent

/-!
# Searching and filtering the effects

An effect listed is a box with a heart in it, and the list box puts the box into a row. The search
shows and hides the boxes, by the names of their hearts; the dropdowns and the favourites button
show and hide the rows. So the search and the filter are set apart from each other, and an effect is
on the screen when both let it through.
-/

namespace AmpRack

open JsonText GuardedRun LastEvent KeyGroups VectorEdits

/-- `visible` is the visibility of the box itself and `rowVisible` that of the row around it. -/
structure EffectBox where
  name : Text
  visible : Bool := true
  rowVisible : Bool := true
  deriving DecidableEq

/-- `parent` is the place of the box that the heart is in. -/
structure Heart where
  name : Text
  parent : ℕ
  active : Bool := false
  deriving DecidableEq

@[ext] structure Browser where
  boxes : List EffectBox := []
  hearts : List Heart := []

inductive BrowserFault
  | outOfRange
  | typeError
  deriving DecidableEq

/-- What the user does; hearts are named by their places. -/
inductive BrowserEvent
  | search (text : Text)
  | showOnlyFavorites (active : Bool)
  | select (dropdown : Dropdown) (selected : Text)
  | toggleHeart (i : ℕ)
  deriving DecidableEq

namespace Browser

def addPluginEntry (b : Browser) (plug : Text) (id : ℤ) : Browser where
  boxes := b.boxes ++ [{ name := renderInt id }]
  hearts := b.hearts ++ [{ name := plug, parent := b.boxes.length }]

/-- The loop of `createPluginDialog` over `lv2Json`. -/
def addEntries (blacklist : Json) (b : Browser) : Members → Except BrowserFault Browser
  | [] => .ok b
  | (key, plugin) :: ms =>
    match memberOf "name".toList plugin with
    | .error _ => .error .typeError
    | .ok (a, plugin) =>
      if (blacklist.get? key).isSome then addEntries blacklist b ms
      else
        match (plugin.get? "id".toList).bind getInt with
        | none => .error .typeError
        | some id => addEntries blacklist (b.addPluginEntry (strip (dump a)) id) ms

/-- The hearts that the favourites on disk name are switched on. -/
def onshow (favs : Json) (b : Browser) : Browser :=
  { b with hearts := b.hearts.map fun fav =>
      if (favs.get? fav.name).isSome then { fav with active := true } else fav }

/-- `tolower` on every character. -/
def lower (text : Text) : Text := text.map Char.toLower

/-- The text is empty, or is found in the name. -/
def Matches (text wname : Text) : Prop := text = [] ∨ Framing.contains (lower text) (lower wname)

instance (text wname : Text) : Decidable (Matches text wname) :=
  inferInstanceAs (Decidable (_ ∨ _))

/-- A text that starts with `#` is the name of a command, none of which touches the browser. -/
def doSearch (b : Browser) (text : Text) : Browser :=
  if text.head? = some '#' then b
  else
    let boxes := b.hearts.foldl (fun boxes heart => boxes.modify heart.parent fun w =>
      { w with visible := Matches text heart.name }) b.boxes
    { b with boxes := boxes }

/-- The rows are counted by the hearts. -/
def showOnlyFavPlugins (b : Browser) (active : Bool) : Except BrowserFault Browser :=
  match b.hearts.zipIdx.foldlM (fun boxes fav =>
      modifyAt boxes fav.2 fun w => { w with rowVisible := !active || fav.1.active }) b.boxes with
  | none => .error .outOfRange
  | some boxes => .ok { b with boxes := boxes }

def showOnlyCategories (files : PluginFiles) (b : Browser) (dropdown : Dropdown) (selected : Text) :
    Except BrowserFault Browser :=
  let d : EffectDialog := ⟨[], [], b.boxes.map (·.name)⟩
  match EffectBrowser.showOnlyCategories files d dropdown selected with
  | .error _ => .error .typeError
  | .ok rows => .ok { b with
      boxes := List.zipWith (fun w row => { w with rowVisible := row.2 }) b.boxes rows }

def step (files : PluginFiles) (b : Browser) : BrowserEvent → Except BrowserFault Browser
  | .search text => .ok (b.doSearch text)
  | .showOnlyFavorites active => b.showOnlyFavPlugins active
  | .select dropdown selected => b.showOnlyCategories files dropdown selected
  | .toggleHeart i =>
    .ok { b with hearts := b.hearts.modify i fun fav => { fav with active := !fav.active } }

/-- Is the effect at this place on the screen? -/
def shown (b : Browser) (i : ℕ) : Bool := b.boxes[i]?.any fun w => w.visible && w.rowVisible

end Browser

namespace BrowserEvent

def IsSearch : BrowserEvent → Prop
  | .search text => text.head? ≠ some '#'
  | _ => False

def IsFilter : BrowserEvent → Prop
  | .showOnlyFavorites _ => True
  | .select _ _ => True
  | _ => False

/-- A dropdown offers its entries only. -/
def Offered (files : PluginFiles) : BrowserEvent → Prop
  | .select dropdown selected => selected ∈ (membersOf (files.lists dropdown)).map (·.1)
  | _ => True

/-- Does a search find the plugin? -/
def Finds (p : LilvPlugin) : BrowserEvent → Prop
  | .search text => Browser.lower text <:+: Browser.lower (escape p.name)
  | _ => True

/-- The heart at place `i` is on if the favourites had its name and it was toggled an even number of
times, or they had not and it was an odd number. -/
def IsFavorite (favs : Json) (p : LilvPlugin) (i : ℕ) (before : List BrowserEvent) : Prop :=
  (favs.get? (escape p.name)).isSome = true ↔ Even (before.count (.toggleHeart i))

/-- Does a filter let the plugin at place `i` through, after the events before it? -/
def Picks (favs : Json) (p : LilvPlugin) (i : ℕ) (before : List BrowserEvent) :
    BrowserEvent → Prop
  | .showOnlyFavorites active => active = true → IsFavorite favs p i before
  | .select .categories selected => selected = all ∨ p.effectType = selected
  | .select .creators selected => p.author = selected
  | _ => True

end BrowserEvent

/-- What the browser keeps for one effect, in one place; `x` is the number of the plugin. -/
structure ListedEffect where
  plugin : LilvPlugin
  x : ℕ
  active : Bool := false
  visible : Bool := true
  rowVisible : Bool := true

namespace ListedEffect

def name (e : ListedEffect) : Text := escape e.plugin.name

def box (e : ListedEffect) : EffectBox := ⟨Nat.toDigits 10 e.x, e.visible, e.rowVisible⟩

def search (text : Text) (e : ListedEffect) : ListedEffect :=
  { e with visible := Browser.Matches text e.name }

def setRow (v : ListedEffect → Bool) (e : ListedEffect) : ListedEffect :=
  { e with rowVisible := v e }

def toggle (e : ListedEffect) : ListedEffect := { e with active := !e.active }

def restore (favs : Json) (e : ListedEffect) : ListedEffect :=
  if (favs.get? e.name).isSome then { e with active := true } else e

/-- What an event does to the effect at place `i`. -/
def react (i : ℕ) (e : ListedEffect) : BrowserEvent → ListedEffect
  | .search text => if text.head? = some '#' then e else e.search text
  | .showOnlyFavorites active => e.setRow fun e => !active || e.active
  | .select .categories selected =>
    e.setRow fun e => selected = all ∨ e.plugin.effectType = selected
  | .select .creators selected => e.setRow fun e => e.plugin.author = selected
  | .toggleHeart j => if j = i then e.toggle else e

end ListedEffect

namespace Browser

/-- The vectors of the browser for these effects: every heart is in the box of its own effect. -/
def ofEffects (es : List ListedEffect) : Browser where
  boxes := es.map ListedEffect.box
  hearts := es.zipIdx.map fun e => ⟨e.1.name, e.2, e.1.active⟩

variable {es : List ListedEffect} {blacklist favs : Json} {files : PluginFiles}

section Operations

theorem map_name_boxes (es : List ListedEffect) :
    (ofEffects es).boxes.map (·.name) = es.map fun e => Nat.toDigits 10 e.x := by
  rw [ofEffects, List.map_map]
  rfl

theorem map_name_hearts (es : List ListedEffect) :
    (ofEffects es).hearts.map (·.name) = es.map (·.name) := by
  have hfst := congrArg (List.map ListedEffect.name) (List.zipIdx_map_fst 0 es)
  rw [List.map_map] at hfst
  rw [ofEffects, List.map_map]
  exact hfst

theorem ofEffects_concat (es : List ListedEffect) (p : LilvPlugin) (x : ℕ) :
    (ofEffects es).addPluginEntry (escape p.name) x =
      ofEffects (es ++ [{ plugin := p, x := x }]) := by
  simp only [ofEffects, addPluginEntry, List.map_append, List.zipIdx_append, List.length_map,
    Nat.zero_add, EffectBrowser.renderInt_natCast]
  rfl

/-- A change of the hearts alone, each by what it is. -/
theorem hearts_map (f : ListedEffect → ListedEffect) (g : Heart → Heart)
    (hg : ∀ e i, g ⟨e.name, i, e.active⟩ = ⟨(f e).name, i, (f e).active⟩) :
    (ofEffects es).hearts.map g = (ofEffects (es.map f)).hearts := by
  simp only [ofEffects, List.zipIdx_map, List.map_map]
  apply List.map_congr_left
  intro e _
  exact hg e.1 e.2

theorem boxes_map (f : ListedEffect → ListedEffect) (hf : ∀ e, (f e).box = e.box) :
    (ofEffects (es.map f)).boxes = (ofEffects es).boxes := by
  simp only [ofEffects, List.map_map, Function.comp_def, hf]

theorem onshow_ofEffects (favs : Json) (es : List ListedEffect) :
    (ofEffects es).onshow favs = ofEffects (es.map (·.restore favs)) := by
  have hboxes : ∀ e : ListedEffect, (e.restore favs).box = e.box := by
    intro e
    rw [ListedEffect.restore]
    split_ifs
    · rfl
    · rfl
  rw [onshow, hearts_map (·.restore favs), ← boxes_map (·.restore favs) hboxes]
  intro e i
  rw [ListedEffect.restore]
  split_ifs
  · rfl
  · rfl

/-- A change of the boxes alone, each by its own effect. -/
theorem zipWith_boxes (f : ListedEffect → ListedEffect) (g : ListedEffect → EffectBox → EffectBox)
    (hg : ∀ e, g e e.box = (f e).box) :
    List.zipWith g es (ofEffects es).boxes = (ofEffects (es.map f)).boxes := by
  simp only [ofEffects, List.zipWith_map_right, List.zipWith_self, List.map_map,
    Function.comp_def, hg]

theorem hearts_of_map (f : ListedEffect → ListedEffect)
    (hf : ∀ e, (f e).name = e.name ∧ (f e).active = e.active) :
    (ofEffects (es.map f)).hearts = (ofEffects es).hearts := by
  rw [← hearts_map f id fun e i => by rw [(hf e).1, (hf e).2]; rfl, List.map_id]

theorem hearts_setRow (v : ListedEffect → Bool) (es : List ListedEffect) :
    (ofEffects (es.map (·.setRow v))).hearts = (ofEffects es).hearts :=
  hearts_of_map (ListedEffect.setRow v) fun _ => ⟨rfl, rfl⟩

/-- The hearts visit the boxes in turn. -/
theorem doSearch_ofEffects {text : Text} (h : text.head? ≠ some '#') (es : List ListedEffect) :
    (ofEffects es).doSearch text = ofEffects (es.map (·.search text)) := by
  have hturns := foldl_modify_zipIdx
    (fun (e : ListedEffect) (w : EffectBox) => { w with visible := Matches text e.name })
    es [] (ofEffects es).boxes (List.length_map _).symm
  rw [zipWith_boxes (·.search text) _ fun e => rfl] at hturns
  rw [doSearch, if_neg h]
  apply Browser.ext
  · rw [← List.nil_append (ofEffects (es.map _)).boxes, ← hturns]
    exact List.foldl_map
  · exact (hearts_of_map (·.search text) fun e => ⟨rfl, rfl⟩).symm

theorem zipIdx_hearts (es : List ListedEffect) :
    (ofEffects es).hearts.zipIdx =
      es.zipIdx.map fun e => (⟨e.1.name, e.2, e.1.active⟩, e.2) := by
  apply List.ext_getElem?
  intro i
  simp only [ofEffects, List.getElem?_zipIdx, List.getElem?_map, Nat.zero_add, Option.map_map]
  rfl

theorem showOnlyFavPlugins_ofEffects (active : Bool) (es : List ListedEffect) :
    (ofEffects es).showOnlyFavPlugins active =
      .ok (ofEffects (es.map (·.setRow fun e => !active || e.active))) := by
  have hturns := foldlM_modifyAt_zipIdx
    (fun (e : ListedEffect) (w : EffectBox) => { w with rowVisible := !active || e.active })
    es [] (ofEffects es).boxes (List.length_map _).symm
  rw [zipWith_boxes (·.setRow fun e => !active || e.active) _ fun e => rfl] at hturns
  have hloop : (ofEffects es).hearts.zipIdx.foldlM (fun boxes fav =>
      modifyAt boxes fav.2 fun w => { w with rowVisible := !active || fav.1.active })
      (ofEffects es).boxes =
        some (ofEffects (es.map (·.setRow fun e => !active || e.active))).boxes := by
    rw [zipIdx_hearts, List.foldlM_map]
    exact hturns
  rw [showOnlyFavPlugins, hloop]
  exact congrArg Except.ok (Browser.ext rfl (hearts_setRow _ es).symm)

theorem showOnlyCategories_ofEffects {dropdown : Dropdown} {selected : Text} {ps : List ℤ}
    (h : ((files.lists dropdown).get? selected).bind EffectBrowser.getInts = some ps)
    (es : List ListedEffect) :
    (ofEffects es).showOnlyCategories files dropdown selected =
      .ok (ofEffects (es.map (·.setRow fun e => (dropdown = .categories ∧ selected = all) ∨
        ∃ plugin ∈ ps, renderInt plugin = Nat.toDigits 10 e.x))) := by
  rw [showOnlyCategories, EffectBrowser.showOnlyCategories, h]
  refine congrArg Except.ok (Browser.ext ?_ (hearts_setRow _ es).symm)
  simp only [ofEffects, List.map_map, List.zipWith_map_right, List.zipWith_map_left,
    List.zipWith_self]
  rfl

theorem toggleHeart_ofEffects (files : PluginFiles) (i : ℕ) (es : List ListedEffect) :
    (ofEffects es).step files (.toggleHeart i) = .ok (ofEffects (es.modify i (·.toggle))) := by
  refine congrArg Except.ok (Browser.ext ?_ ?_)
  · have hbox : ∀ e : ListedEffect, e.toggle.box = e.box := fun _ => rfl
    exact (map_modify_of_eq hbox es i).symm
  · apply List.ext_getElem?
    intro j
    simp only [ofEffects, List.getElem?_modify, List.getElem?_map, List.getElem?_zipIdx,
      Nat.zero_add, Option.map_map]
    split_ifs <;> cases es[j]? <;> rfl

end Operations

section Dialog

/-- The effects of some numbered plugins, as they are listed at first. -/
def newEffects (qs : List (LilvPlugin × ℕ)) : List ListedEffect :=
  qs.map fun q => { plugin := q.1, x := q.2 }

theorem addEntries_eq {qs : List (LilvPlugin × ℕ)} (h : ∀ e ∈ qs, e.2 < 2 ^ 31)
    (es : List ListedEffect) :
    addEntries blacklist (ofEffects es)
        (qs.map fun e => (Nat.toDigits 10 e.2, LilvPlugin.toJson e.1 e.2)) =
      .ok (ofEffects (es ++
        newEffects (qs.filter fun e => (blacklist.get? (Nat.toDigits 10 e.2)).isNone))) := by
  induction qs generalizing es with
  | nil =>
    have hnil : es ++ newEffects [] = es := List.append_nil es
    rw [List.filter_nil, hnil]
    rfl
  | cons e qs ih =>
    obtain ⟨p, x⟩ := e
    obtain ⟨hx, hqs⟩ := List.forall_mem_cons.mp h
    have hmod : (x : ℤ).bmod (2 ^ 32) = x := Int.bmod_eq_of_le (by omega) (by omega)
    rw [List.map_cons, addEntries, EffectBrowser.memberOf_name, List.filter_cons]
    simp only [EffectBrowser.get?_id, hmod, strip_dump_str, ofEffects_concat, ih hqs]
    cases blacklist.get? (Nat.toDigits 10 x) with
    | some j => rfl
    | none => simp [newEffects]

/-- The members of the catalogue as numbered plugins. -/
theorem exists_plugins {ps : List LilvPlugin} {s : LV2Info} (h : Catalogued ps s) :
    ∃ qs : List (LilvPlugin × ℕ), qs.Perm (ps.zipIdx 1) ∧
      s.plugins = qs.map fun e => (Nat.toDigits 10 e.2, LilvPlugin.toJson e.1 e.2) := by
  have hcomp := congrFun (congrFun (List.eq_map_comp_perm fun e : LilvPlugin × ℕ =>
    (Nat.toDigits 10 e.2, e.1.toJson e.2)) s.plugins) (ps.zipIdx 1)
  obtain ⟨qs, hqs, hperm⟩ := hcomp.mpr h.plugins
  exact ⟨qs, hperm, hqs⟩

/-- The browser of a catalogue. -/
theorem exists_entries {ps : List LilvPlugin} {s : LV2Info} (blacklist : Json)
    (h : Catalogued ps s) :
    ∃ qs : List (LilvPlugin × ℕ), qs.Perm (EffectBrowser.listed ps blacklist) ∧
      addEntries blacklist {} (membersOf s.files.lv2Json) = .ok (ofEffects (newEffects qs)) := by
  obtain ⟨qs, hperm, hqs⟩ := exists_plugins h
  have hlt : ∀ e ∈ qs, e.2 < 2 ^ 31 := fun e he => lt_of_mem_zipIdx h (hperm.mem_iff.mp he)
  refine ⟨_, hperm.filter _, ?_⟩
  rw [LV2Info.files, EffectBrowser.membersOf_pluginsJson, hqs]
  exact addEntries_eq hlt []

end Dialog

section Run

variable {ps : List LilvPlugin} {s : LV2Info} {ev : BrowserEvent} {evs : List BrowserEvent}

theorem getInts_lists (h : Catalogued ps s) {dropdown : Dropdown} {selected : Text}
    (hsel : selected ∈ (membersOf (s.files.lists dropdown)).map (·.1)) :
    ((s.files.lists dropdown).get? selected).bind EffectBrowser.getInts =
      some ((numbersOf dropdown.key ps selected).map fun x : ℕ => (x : ℤ)) := by
  have hlists : ∃ ms, s.files.lists dropdown = .obj ms ∧ Grouped dropdown.key ps ms := by
    cases dropdown with
    | categories => exact ⟨s.categories, rfl, h.categories⟩
    | creators => exact ⟨s.creators, rfl, h.creators⟩
  obtain ⟨ms, hms, hgrouped⟩ := hlists
  have hget := hgrouped.get selected
  rw [hms] at hsel ⊢
  rw [if_pos ((hgrouped.mem_keys selected).mp hsel)] at hget
  rw [hget, Option.bind_some, EffectBrowser.getInts_idArray (numbersOf_lt h selected)]

theorem map_eq_mapIdx {f : ListedEffect → ListedEffect}
    (h : ∀ i, ∀ e ∈ es, f e = e.react i ev) : es.map f = es.mapIdx fun i e => e.react i ev := by
  refine (List.mapIdx_eq_iff.mpr fun i => ?_).symm
  rw [List.getElem?_map]
  cases he : es[i]? with
  | none => rfl
  | some e => exact congrArg some (h i e (List.mem_of_getElem? he))

/-- The rows that an entry of a dropdown shows. -/
theorem select_eq_react {e : ListedEffect} {dropdown : Dropdown} {selected : Text}
    (he : (e.plugin, e.x) ∈ EffectBrowser.listed ps blacklist) (i : ℕ) :
    (e.setRow fun e => (dropdown = .categories ∧ selected = all) ∨
      ∃ plugin ∈ (numbersOf dropdown.key ps selected).map fun x : ℕ => (x : ℤ),
        renderInt plugin = Nat.toDigits 10 e.x) = e.react i (.select dropdown selected) := by
  have hnumber : (∃ plugin ∈ (numbersOf dropdown.key ps selected).map fun x : ℕ => (x : ℤ),
      renderInt plugin = Nat.toDigits 10 e.x) ↔ dropdown.key e.plugin = selected := by
    rw [← EffectBrowser.exists_toDigits_iff he]
    simp only [List.mem_map, exists_exists_and_eq_and, EffectBrowser.renderInt_natCast]
  rw [ListedEffect.setRow]
  simp only [hnumber]
  cases dropdown with
  | categories => simp [ListedEffect.react, ListedEffect.setRow, Dropdown.key]
  | creators => simp [ListedEffect.react, ListedEffect.setRow, Dropdown.key]

/-- One step of the browser is a step of every effect by itself. -/
theorem step_ofEffects (h : Catalogued ps s) (hev : ev.Offered s.files)
    (hes : ∀ e ∈ es, (e.plugin, e.x) ∈ EffectBrowser.listed ps blacklist) :
    (ofEffects es).step s.files ev = .ok (ofEffects (es.mapIdx fun i e => e.react i ev)) := by
  cases ev with
  | search text =>
    by_cases htext : text.head? = some '#'
    · rw [← map_eq_mapIdx (f := id) fun i e _ => by rw [ListedEffect.react, if_pos htext]; rfl,
        List.map_id, step, doSearch, if_pos htext]
    · rw [step, doSearch_ofEffects htext,
        map_eq_mapIdx fun i e _ => by rw [ListedEffect.react, if_neg htext]]
  | showOnlyFavorites active =>
    have hreact : ∀ i, ∀ e ∈ es, (e.setRow fun e => !active || e.active) =
        e.react i (.showOnlyFavorites active) := fun _ _ _ => rfl
    rw [step, showOnlyFavPlugins_ofEffects, map_eq_mapIdx hreact]
  | select dropdown selected =>
    rw [step, showOnlyCategories_ofEffects (getInts_lists h hev),
      map_eq_mapIdx fun i e he => select_eq_react (hes e he) i]
  | toggleHeart j =>
    rw [toggleHeart_ofEffects]
    congr 2
    refine (List.mapIdx_eq_iff.mpr fun i => ?_).symm
    rw [List.getElem?_modify]
    simp only [ListedEffect.react]
    split_ifs <;> cases es[i]? <;> rfl

theorem react_plugin (i : ℕ) (e : ListedEffect) (ev : BrowserEvent) :
    (e.react i ev).plugin = e.plugin ∧ (e.react i ev).x = e.x := by
  cases ev with
  | search text =>
    rw [ListedEffect.react]
    split_ifs
    · exact ⟨rfl, rfl⟩
    · exact ⟨rfl, rfl⟩
  | showOnlyFavorites active => exact ⟨rfl, rfl⟩
  | select dropdown selected => cases dropdown <;> exact ⟨rfl, rfl⟩
  | toggleHeart j =>
    rw [ListedEffect.react]
    split_ifs
    · exact ⟨rfl, rfl⟩
    · exact ⟨rfl, rfl⟩

/-- And so is a run. -/
theorem run_ofEffects (h : Catalogued ps s) (hevs : ∀ ev ∈ evs, ev.Offered s.files)
    (hes : ∀ e ∈ es, (e.plugin, e.x) ∈ EffectBrowser.listed ps blacklist) :
    run (step s.files) (ofEffects es) evs =
      .ok (ofEffects (es.mapIdx fun i e => evs.foldl (ListedEffect.react i) e)) := by
  induction evs generalizing es with
  | nil =>
    rw [run_nil]
    congr 2
    exact (List.mapIdx_eq_iff.mpr fun i => Option.map_id'.symm).symm
  | cons ev evs ih =>
    obtain ⟨hev, hevs⟩ := List.forall_mem_cons.mp hevs
    rw [run_cons_ok (step_ofEffects h hev hes), ih hevs, List.mapIdx_mapIdx]
    · rfl
    · intro e he
      obtain ⟨i, hi, rfl⟩ := List.mem_mapIdx.mp he
      obtain ⟨hplugin, hx⟩ := react_plugin i es[i] ev
      rw [hplugin, hx]
      exact hes _ (List.getElem_mem hi)

end Run

section Screen

variable {i : ℕ} {e : ListedEffect} {evs : List BrowserEvent}

theorem plugin_foldl (i : ℕ) (e : ListedEffect) (evs : List BrowserEvent) :
    (evs.foldl (ListedEffect.react i) e).plugin = e.plugin ∧
      (evs.foldl (ListedEffect.react i) e).x = e.x := by
  induction evs generalizing e with
  | nil => exact ⟨rfl, rfl⟩
  | cons ev evs ih =>
    obtain ⟨hplugin, hx⟩ := react_plugin i e ev
    rw [List.foldl_cons, (ih _).1, (ih _).2, hplugin, hx]
    exact ⟨rfl, rfl⟩

theorem matches_iff (text wname : Text) :
    Matches text wname ↔ lower text <:+: lower wname := by
  rw [Matches, Framing.contains_iff, or_iff_right_iff_imp]
  rintro rfl
  exact List.nil_infix

theorem visible_foldl (h : e.visible = true) (evs : List BrowserEvent) :
    (evs.foldl (ListedEffect.react i) e).visible = true ↔
      LastOf BrowserEvent.IsSearch (fun _ ev => ev.Finds e.plugin) evs := by
  refine iff_lastOf_foldl (f := ListedEffect.react i) (Q := fun e => e.visible = true) (s := e) h
    ?_ ?_ evs
  · intro before ev hev
    cases ev with
    | search text =>
      rw [ListedEffect.react, if_neg hev, ListedEffect.search, decide_eq_true_iff, matches_iff,
        ListedEffect.name, (plugin_foldl i e before).1, BrowserEvent.Finds]
    | showOnlyFavorites active => exact hev.elim
    | select dropdown selected => exact hev.elim
    | toggleHeart j => exact hev.elim
  · intro before ev hev
    cases ev with
    | search text => rw [ListedEffect.react, if_pos (not_not.mp hev)]
    | showOnlyFavorites active => rfl
    | select dropdown selected => cases dropdown <;> rfl
    | toggleHeart j =>
      rw [ListedEffect.react]
      split_ifs <;> rfl

theorem active_react_of_ne {ev : BrowserEvent} (e : ListedEffect) (h : ev ≠ .toggleHeart i) :
    (e.react i ev).active = e.active := by
  cases ev with
  | search text =>
    rw [ListedEffect.react]
    split_ifs <;> rfl
  | showOnlyFavorites active => rfl
  | select dropdown selected => cases dropdown <;> rfl
  | toggleHeart j =>
    rw [ListedEffect.react, if_neg]
    rintro rfl
    exact h rfl

/-- A heart that was off at first. -/
theorem active_foldl (favs : Json) (h : e.active = false) (evs : List BrowserEvent) :
    (evs.foldl (ListedEffect.react i) (e.restore favs)).active = true ↔
      BrowserEvent.IsFavorite favs e.plugin i evs := by
  induction evs using List.reverseRecOn with
  | nil =>
    rw [List.foldl_nil, ListedEffect.restore, BrowserEvent.IsFavorite, List.count_nil,
      ListedEffect.name]
    split_ifs with hfav
    · simp [hfav]
    · simp [h, hfav]
  | append_singleton evs ev ih =>
    rw [List.foldl_append, List.foldl_cons, List.foldl_nil, BrowserEvent.IsFavorite,
      List.count_append, List.count_singleton]
    rw [BrowserEvent.IsFavorite] at ih
    by_cases hev : ev = .toggleHeart i
    · subst hev
      rw [ListedEffect.react, if_pos rfl, ListedEffect.toggle, Bool.not_eq_true',
        ← Bool.not_eq_true, ih, if_pos (by simp), Nat.even_add_one]
      tauto
    · rw [active_react_of_ne _ hev, ih, if_neg (by simpa using hev), Nat.add_zero]

theorem restore_same (favs : Json) (e : ListedEffect) :
    (e.restore favs).plugin = e.plugin ∧ (e.restore favs).x = e.x ∧
      (e.restore favs).visible = e.visible ∧ (e.restore favs).rowVisible = e.rowVisible := by
  rw [ListedEffect.restore]
  split_ifs
  · exact ⟨rfl, rfl, rfl, rfl⟩
  · exact ⟨rfl, rfl, rfl, rfl⟩

theorem rowVisible_foldl (favs : Json) (ha : e.active = false) (h : e.rowVisible = true)
    (evs : List BrowserEvent) :
    (evs.foldl (ListedEffect.react i) (e.restore favs)).rowVisible = true ↔
      LastOf BrowserEvent.IsFilter (fun before ev => ev.Picks favs e.plugin i before) evs := by
  obtain ⟨hplugin, -, -, hrow⟩ := restore_same favs e
  refine iff_lastOf_foldl (f := ListedEffect.react i) (Q := fun e => e.rowVisible = true)
    (s := e.restore favs) (hrow.trans h) ?_ ?_ evs
  · intro before ev hev
    cases ev with
    | search text => exact hev.elim
    | showOnlyFavorites active =>
      rw [ListedEffect.react, ListedEffect.setRow, Bool.or_eq_true, active_foldl favs ha,
        BrowserEvent.Picks, Bool.not_eq_true', imp_iff_not_or, Bool.not_eq_true]
    | select dropdown selected =>
      cases dropdown with
      | categories =>
        rw [ListedEffect.react, ListedEffect.setRow, decide_eq_true_iff,
          (plugin_foldl i _ before).1, hplugin, BrowserEvent.Picks]
      | creators =>
        rw [ListedEffect.react, ListedEffect.setRow, decide_eq_true_iff,
          (plugin_foldl i _ before).1, hplugin, BrowserEvent.Picks]
    | toggleHeart j => exact hev.elim
  · intro before ev hev
    cases ev with
    | search text =>
      rw [ListedEffect.react]
      split_ifs <;> rfl
    | showOnlyFavorites active => exact absurd trivial hev
    | select dropdown selected => exact absurd trivial hev
    | toggleHeart j =>
      rw [ListedEffect.react]
      split_ifs <;> rfl

/-- Events do not rename the boxes. -/
theorem names_ofEffects (es : List ListedEffect) (evs : List BrowserEvent) :
    (ofEffects (es.mapIdx fun i e => evs.foldl (ListedEffect.react i) e)).boxes.map (·.name) =
      es.map fun e => Nat.toDigits 10 e.x := by
  rw [map_name_boxes]
  apply List.ext_getElem?
  intro i
  rw [List.getElem?_map, List.getElem?_map, List.getElem?_mapIdx]
  cases es[i]? with
  | none => rfl
  | some e => exact congrArg (fun x => some (Nat.toDigits 10 x)) (plugin_foldl i e evs).2

theorem getElem?_shown {es : List ListedEffect} {e : ListedEffect} (h : es[i]? = some e) :
    (ofEffects es).shown i = true ↔ e.visible = true ∧ e.rowVisible = true := by
  rw [shown, ofEffects, List.getElem?_map, h, Option.map_some, Option.any_some, Bool.and_eq_true]
  rfl

/-- Whatever the user does in the browser, an effect is on the screen exactly when the last search
finds its name and the last choice in a dropdown or of the favourites lets it through, with the
hearts as they were then. -/
theorem run_shows {ps : List LilvPlugin} {s : LV2Info} (blacklist favs : Json)
    (hs : generateLV2Info ps = .ok s) :
    ∃ b, addEntries blacklist {} (membersOf s.files.lv2Json) = .ok b ∧
      ∃ qs : List (LilvPlugin × ℕ), qs.Perm (EffectBrowser.listed ps blacklist) ∧
        ∀ evs : List BrowserEvent, (∀ ev ∈ evs, ev.Offered s.files) →
          ∃ b', run (step s.files) (b.onshow favs) evs = .ok b' ∧
            b'.boxes.map (·.name) = qs.map (fun q => Nat.toDigits 10 q.2) ∧
            ∀ i q, qs[i]? = some q → (b'.shown i = true ↔
              LastOf BrowserEvent.IsSearch (fun _ ev => ev.Finds q.1) evs ∧
              LastOf BrowserEvent.IsFilter (fun before ev => ev.Picks favs q.1 i before) evs) := by
  have h := catalogued_of_generate hs
  obtain ⟨qs, hqs, hcreate⟩ := exists_entries blacklist h
  refine ⟨_, hcreate, qs, hqs, fun evs hevs => ?_⟩
  have hes : ∀ e ∈ (newEffects qs).map (·.restore favs),
      (e.plugin, e.x) ∈ EffectBrowser.listed ps blacklist := by
    rw [newEffects, List.map_map, List.forall_mem_map]
    intro q hq
    obtain ⟨hplugin, hx, -⟩ := restore_same favs { plugin := q.1, x := q.2 }
    rw [Function.comp_apply, hplugin, hx]
    exact hqs.mem_iff.mp hq
  refine ⟨_, by rw [onshow_ofEffects, run_ofEffects h hevs hes], ?_, fun i q hq => ?_⟩
  · rw [names_ofEffects, newEffects, List.map_map, List.map_map]
    apply List.map_congr_left
    intro q _
    exact congrArg (Nat.toDigits 10) (restore_same favs { plugin := q.1, x := q.2 }).2.1
  · have he : (((newEffects qs).map (·.restore favs)).mapIdx fun i e =>
        evs.foldl (ListedEffect.react i) e)[i]? = some (evs.foldl (ListedEffect.react i)
          (ListedEffect.restore favs { plugin := q.1, x := q.2 })) := by
      simp [newEffects, hq]
    obtain ⟨hplugin, -, hvisible, -⟩ := restore_same favs { plugin := q.1, x := q.2 }
    rw [getElem?_shown he, visible_foldl hvisible, rowVisible_foldl favs rfl rfl, hplugin]

/-- A search and a favourite: taking the heart back later does not hide the row. -/
def favoriteEvents : List BrowserEvent :=
  [.search "gA".toList, .toggleHeart 0, .showOnlyFavorites true, .toggleHeart 0]

theorem run_shows_favorite :
    ∃ s b b', generateLV2Info [EffectBrowser.oneAuthor] = .ok s ∧
      run (step s.files) b favoriteEvents = .ok b' ∧ b'.shown 0 = true := by
  obtain ⟨s, hs⟩ := exists_generate [EffectBrowser.oneAuthor] (by decide)
  obtain ⟨b, -, qs, hqs, hruns⟩ := run_shows (.obj []) .null hs
  have hone : qs = [(EffectBrowser.oneAuthor, 1)] := List.perm_singleton.mp hqs
  obtain ⟨b', hrun, -, hshown⟩ := hruns favoriteEvents
    (by simp [favoriteEvents, BrowserEvent.Offered])
  have hfinds : LastOf BrowserEvent.IsSearch
      (fun _ ev => ev.Finds EffectBrowser.oneAuthor) favoriteEvents := by
    refine (lastOf_concat_of_not (l := favoriteEvents.take 3) (a := .toggleHeart 0) id).mpr ?_
    refine (lastOf_concat_of_not (l := favoriteEvents.take 2) (a := .showOnlyFavorites true)
      id).mpr ?_
    refine (lastOf_concat_of_not (l := favoriteEvents.take 1) (a := .toggleHeart 0) id).mpr ?_
    refine (lastOf_concat (l := []) (a := BrowserEvent.search "gA".toList) ?_).mpr ?_
    · exact (by decide : ("gA".toList).head? ≠ some '#')
    · exact Framing.contains_iff.mp (by decide)
  have hpicks : LastOf BrowserEvent.IsFilter
      (fun before ev => ev.Picks .null EffectBrowser.oneAuthor 0 before) favoriteEvents := by
    refine (lastOf_concat_of_not (l := favoriteEvents.take 3) (a := .toggleHeart 0) id).mpr ?_
    refine (lastOf_concat (l := favoriteEvents.take 2) (a := .showOnlyFavorites true)
      trivial).mpr ?_
    intro _
    rw [BrowserEvent.IsFavorite]
    decide
  exact ⟨s, _, b', hs, hrun,
    (hshown 0 (EffectBrowser.oneAuthor, 1) (by rw [hone]; rfl)).mpr ⟨hfinds, hpicks⟩⟩

end Screen

end Browser

end AmpRack

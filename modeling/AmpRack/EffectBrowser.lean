import AmpRack.EffectCatalogue
import AmpRack.PresetLoader

/-!
# The effect browser

`createPluginDialog` copies the names of the categories and of the creators into two arrays on the
stack, for the two dropdowns, and makes a row for every plugin that is not blacklisted, named by the
number of the plugin. `show_only_categories` compares these names with the numbers in the list under
the entry that is selected. The list under `All` is empty; only the dropdown of the categories knows
that it means everything.
-/

namespace AmpRack

open JsonText GuardedRun KeyGroups

inductive DialogFault
  | arrayOverflow
  | typeError
  deriving DecidableEq

inductive Dropdown
  | categories
  | creators
  deriving DecidableEq

/-- What the entries of the dropdown say of a plugin. -/
def Dropdown.key : Dropdown → LilvPlugin → Text
  | .categories => LilvPlugin.effectType
  | .creators => LilvPlugin.author

def PluginFiles.lists (f : PluginFiles) : Dropdown → Json
  | .categories => f.categories
  | .creators => f.creators

/-- The strings that the dropdowns are made from, up to the `NULL`, and the names of the widgets in
`boxes`. -/
structure EffectDialog where
  category : List Text
  creators : List Text
  boxes : List Text

def EffectDialog.entries (d : EffectDialog) : Dropdown → List Text
  | .categories => d.category
  | .creators => d.creators

namespace EffectBrowser

/-- The loop that stores the keys in an array of `size` pointers, from position `i` on, and the `NULL`
behind them. -/
def fillFrom (size : ℕ) : ℕ → List Text → Except DialogFault (List Text)
  | i, [] => if i < size then .ok [] else .error .arrayOverflow
  | i, k :: ks =>
    if i < size then (fillFrom size (i + 1) ks).map (k :: ·) else .error .arrayOverflow

/-- The loop over `lv2Json`. -/
def pluginBoxes (blacklist : Json) : Members → Except DialogFault (List Text)
  | [] => .ok []
  | (key, plugin) :: ms =>
    match memberOf "name".toList plugin with
    | .error _ => .error .typeError
    | .ok (_, plugin) =>
      if (blacklist.get? key).isSome then pluginBoxes blacklist ms
      else
        match (plugin.get? "id".toList).bind getInt with
        | none => .error .typeError
        | some id => (pluginBoxes blacklist ms).map (renderInt id :: ·)

def createPluginDialog (files : PluginFiles) (blacklist : Json) : Except DialogFault EffectDialog :=
  (fillFrom 50 0 ((membersOf files.categories).map (·.1))).bind fun category =>
  (fillFrom 60 0 ((membersOf files.creators).map (·.1))).bind fun creators =>
  (pluginBoxes blacklist (membersOf files.lv2Json)).map fun boxes => ⟨category, creators, boxes⟩

/-- `get <vector <int>> ()`. -/
def getInts : Json → Option (List ℤ)
  | .arr xs => xs.mapM getInt
  | _ => none

/-- Every box with whether its row is visible then, whatever it was. -/
def showOnlyCategories (files : PluginFiles) (d : EffectDialog) (dropdown : Dropdown)
    (selected : Text) : Except DialogFault (List (Text × Bool)) :=
  match ((files.lists dropdown).get? selected).bind getInts with
  | none => .error .typeError
  | some ps => .ok (d.boxes.map fun wname =>
      (wname, (dropdown = .categories ∧ selected = all) ∨ ∃ plugin ∈ ps, renderInt plugin = wname))

/-- The plugins that are not blacklisted, with their numbers. -/
def listed (ps : List LilvPlugin) (blacklist : Json) : List (LilvPlugin × ℕ) :=
  (ps.zipIdx 1).filter fun e => (blacklist.get? (Nat.toDigits 10 e.2)).isNone

/-- After the entry `c` is selected every row is visible if it is `All`, and otherwise the rows of the
plugins that are not blacklisted and have the entry as their effect type or author. -/
def FiltersRight (ps : List LilvPlugin) (blacklist : Json) (files : PluginFiles) (d : EffectDialog)
    (dropdown : Dropdown) (c : Text) : Prop :=
  ∃ rows, showOnlyCategories files d dropdown c = .ok rows ∧
    if c = all then ∀ row ∈ rows, row.2 = true
    else ((rows.filter (·.2)).map (·.1)).Perm
      (((listed ps blacklist).filter fun e => dropdown.key e.1 = c).map fun e =>
        Nat.toDigits 10 e.2)

variable {ps : List LilvPlugin} {blacklist : Json} {s : LV2Info} {d : EffectDialog}
  {dropdown : Dropdown} {c : Text}

section Tables

variable {size i : ℕ} {keys : List Text}

theorem fillFrom_of_lt (h : i + keys.length < size) : fillFrom size i keys = .ok keys := by
  induction keys generalizing i with
  | nil => rw [fillFrom, if_pos (by simpa using h)]
  | cons k ks ih =>
    rw [List.length_cons] at h
    rw [fillFrom, if_pos (by omega), ih (by omega)]
    rfl

theorem fillFrom_of_ge (h : size ≤ i + keys.length) :
    fillFrom size i keys = .error .arrayOverflow := by
  induction keys generalizing i with
  | nil => rw [fillFrom, if_neg (by simpa using h)]
  | cons k ks ih =>
    rw [List.length_cons] at h
    rw [fillFrom, ih (by omega)]
    split_ifs
    · rfl
    · rfl

end Tables

section Boxes

theorem get?_id (p : LilvPlugin) (x : ℕ) :
    ((p.toJson x).get? "id".toList).bind getInt = some ((x : ℤ).bmod (2 ^ 32)) := rfl

theorem memberOf_name (p : LilvPlugin) (x : ℕ) :
    memberOf "name".toList (p.toJson x) = .ok (.str p.name, p.toJson x) := rfl

theorem renderInt_natCast (n : ℕ) : renderInt n = Nat.toDigits 10 n := by
  rw [renderInt, if_neg (by omega), Int.natAbs_natCast]

/-- The boxes are named by the keys that are not blacklisted. -/
theorem pluginBoxes_eq {ms : Members}
    (h : ∀ m ∈ ms, ∃ p x, x < 2 ^ 31 ∧ m = (Nat.toDigits 10 x, LilvPlugin.toJson p x)) :
    pluginBoxes blacklist ms =
      .ok ((ms.map (·.1)).filter fun key => (blacklist.get? key).isNone) := by
  induction ms with
  | nil => rfl
  | cons m ms ih =>
    obtain ⟨⟨p, x, hx, rfl⟩, hms⟩ := List.forall_mem_cons.mp h
    have hmod : (x : ℤ).bmod (2 ^ 32) = x := Int.bmod_eq_of_le (by omega) (by omega)
    rw [pluginBoxes, memberOf_name, List.map_cons, List.filter_cons]
    simp only [get?_id, hmod, ih hms, renderInt_natCast]
    cases blacklist.get? (Nat.toDigits 10 x) with
    | none => rfl
    | some j => rfl

theorem membersOf_pluginsJson (s : LV2Info) : membersOf s.pluginsJson = s.plugins := by
  rw [LV2Info.pluginsJson]
  split_ifs with h
  · exact h.symm
  · rfl

theorem pluginBoxes_perm (blacklist : Json) (h : Catalogued ps s) :
    ∃ boxes, pluginBoxes blacklist (membersOf s.files.lv2Json) = .ok boxes ∧
      boxes.Perm ((listed ps blacklist).map fun e => Nat.toDigits 10 e.2) := by
  refine ⟨(s.plugins.map (·.1)).filter fun key => (blacklist.get? key).isNone, ?_, ?_⟩
  · rw [LV2Info.files, membersOf_pluginsJson]
    apply pluginBoxes_eq
    intro m hm
    obtain ⟨e, he, rfl⟩ := List.mem_map.mp (h.plugins.mem_iff.mp hm)
    exact ⟨e.1, e.2, lt_of_mem_zipIdx h he, rfl⟩
  · rw [listed]
    refine ((h.plugins.map _).filter _).trans (.of_eq ?_)
    rw [List.map_map, List.filter_map]
    rfl

end Boxes

section Dialog

theorem fillFrom_eq_ok {size : ℕ} {keys ks : List Text} (h : fillFrom size 0 keys = .ok ks) :
    ks = keys := by
  by_cases hlt : 0 + keys.length < size
  · rw [fillFrom_of_lt hlt] at h
    cases h
    rfl
  · rw [fillFrom_of_ge (not_lt.mp hlt)] at h
    cases h

/-- What a dialog that is built has: the keys of both objects and the boxes. -/
theorem createPluginDialog_eq_ok {files : PluginFiles}
    (h : createPluginDialog files blacklist = .ok d) :
    d.category = (membersOf files.categories).map (·.1) ∧
      d.creators = (membersOf files.creators).map (·.1) ∧
      pluginBoxes blacklist (membersOf files.lv2Json) = .ok d.boxes := by
  obtain ⟨category, hcategory, h⟩ := exists_of_bind_ok h
  obtain ⟨creators, hcreators, h⟩ := exists_of_bind_ok h
  cases hboxes : pluginBoxes blacklist (membersOf files.lv2Json) with
  | error e =>
    rw [hboxes] at h
    cases h
  | ok boxes =>
    rw [hboxes] at h
    cases h
    exact ⟨fillFrom_eq_ok hcategory, fillFrom_eq_ok hcreators, rfl⟩

theorem createPluginDialog_of_lt (blacklist : Json) (h : Catalogued ps s)
    (hcat : s.categories.length < 50) (hcre : s.creators.length < 60) :
    ∃ d, createPluginDialog s.files blacklist = .ok d := by
  obtain ⟨boxes, hboxes, -⟩ := pluginBoxes_perm blacklist h
  have hcategory : fillFrom 50 0 ((membersOf s.files.categories).map (·.1)) = .ok _ :=
    fillFrom_of_lt (by rw [List.length_map, Nat.zero_add]; exact hcat)
  have hcreators : fillFrom 60 0 ((membersOf s.files.creators).map (·.1)) = .ok _ :=
    fillFrom_of_lt (by rw [List.length_map, Nat.zero_add]; exact hcre)
  rw [createPluginDialog, hcategory, hcreators, hboxes]
  exact ⟨_, rfl⟩

theorem createPluginDialog_of_ge (h : 50 ≤ s.categories.length ∨ 60 ≤ s.creators.length) :
    createPluginDialog s.files blacklist = .error .arrayOverflow := by
  by_cases hcat : 50 ≤ s.categories.length
  · have hcategory : fillFrom 50 0 ((membersOf s.files.categories).map (·.1)) =
        .error .arrayOverflow :=
      fillFrom_of_ge (by rw [List.length_map, Nat.zero_add]; exact hcat)
    rw [createPluginDialog, hcategory]
    rfl
  · have hcategory : fillFrom 50 0 ((membersOf s.files.categories).map (·.1)) = .ok _ :=
      fillFrom_of_lt (by rw [List.length_map, Nat.zero_add]; exact not_le.mp hcat)
    have hcreators : fillFrom 60 0 ((membersOf s.files.creators).map (·.1)) =
        .error .arrayOverflow :=
      fillFrom_of_ge (by rw [List.length_map, Nat.zero_add]; exact h.resolve_left hcat)
    rw [createPluginDialog, hcategory, hcreators]
    rfl

/-- No write runs past an array exactly when there are at most 48 effect types and 58 authors besides
`All`. -/
theorem arrays_inBounds_iff (blacklist : Json) (hs : generateLV2Info ps = .ok s) :
    createPluginDialog s.files blacklist ≠ .error .arrayOverflow ↔
      ((ps.map LilvPlugin.effectType).filter (· ≠ all)).dedup.length ≤ 48 ∧
        ((ps.map LilvPlugin.author).filter (· ≠ all)).dedup.length ≤ 58 := by
  have h := catalogued_of_generate hs
  have hcat := h.categories.length_eq
  have hcre := h.creators.length_eq
  constructor
  · intro hne
    by_contra hmany
    exact hne (createPluginDialog_of_ge (by omega))
  · rintro ⟨hfew, hfew'⟩
    obtain ⟨d, hd⟩ := createPluginDialog_of_lt blacklist h (by omega) (by omega)
    rw [hd]
    intro herror
    cases herror

def oneAuthor : LilvPlugin where
  name := "Gain".toList
  uri := "urn:gain".toList
  classUri := "urn:UtilityPlugin".toList
  authorName := some "Ada".toList

theorem few_oneAuthor :
    (([oneAuthor].map LilvPlugin.effectType).filter (· ≠ all)).dedup.length ≤ 48 ∧
      (([oneAuthor].map LilvPlugin.author).filter (· ≠ all)).dedup.length ≤ 58 := by
  decide

theorem arrays_inBounds_oneAuthor :
    ∃ s, generateLV2Info [oneAuthor] = .ok s ∧
      createPluginDialog s.files (.obj []) ≠ .error .arrayOverflow := by
  obtain ⟨s, hs⟩ := exists_generate [oneAuthor] (by decide)
  exact ⟨s, hs, (arrays_inBounds_iff (.obj []) hs).mpr few_oneAuthor⟩

/-- Plugins whose classes have the labels 0 to 48. -/
def manyTypes : List LilvPlugin :=
  (List.range 49).map fun k =>
    { name := Nat.toDigits 10 k, uri := Nat.toDigits 10 k, classUri := []
      classLabel := some (Nat.toDigits 10 k) }

theorem length_types_manyTypes :
    ((manyTypes.map LilvPlugin.effectType).filter (· ≠ all)).dedup.length = 49 := by
  have hmap : manyTypes.map LilvPlugin.effectType = (List.range 49).map (Nat.toDigits 10) := by
    rw [manyTypes, List.map_map]
    rfl
  have hne (n : ℕ) : Nat.toDigits 10 n ≠ all := by
    intro hn
    have hmem : 'A' ∈ Nat.toDigits 10 n := by
      rw [hn]
      decide
    exact absurd (Nat.isDigit_of_mem_toDigits (by decide) (by decide) hmem) (by decide)
  have hfilter : ((List.range 49).map (Nat.toDigits 10)).filter (· ≠ all) =
      (List.range 49).map (Nat.toDigits 10) := by
    rw [List.filter_eq_self, List.forall_mem_map]
    exact fun n _ => decide_eq_true (hne n)
  have hnodup : ((List.range 49).map (Nat.toDigits 10)).Nodup :=
    List.nodup_range.map toDigits_injective
  rw [hmap, hfilter, hnodup.dedup, List.length_map, List.length_range]

theorem manyTypes_overflow :
    ∃ s, generateLV2Info manyTypes = .ok s ∧
      createPluginDialog s.files (.obj []) = .error .arrayOverflow := by
  have hlength : manyTypes.length = 49 := by rw [manyTypes, List.length_map, List.length_range]
  obtain ⟨s, hs⟩ := exists_generate manyTypes (by omega)
  have hlen := (catalogued_of_generate hs).categories.length_eq
  have htypes := length_types_manyTypes
  exact ⟨s, hs, createPluginDialog_of_ge (.inl (by omega))⟩

end Dialog

section Filter

theorem getInts_idArray {xs : List ℕ} (h : ∀ x ∈ xs, x < 2 ^ 31) :
    getInts (idArray xs) = some (xs.map fun x : ℕ => (x : ℤ)) := by
  change (xs.map fun x : ℕ => Json.int x).mapM getInt = _
  induction xs with
  | nil => rfl
  | cons x xs ih =>
    obtain ⟨hx, hxs⟩ := List.forall_mem_cons.mp h
    have hint : getInt (.int x) = some (x : ℤ) := by
      rw [getInt, Json.toInt, Option.map_some, Int.bmod_eq_of_le (by omega) (by omega)]
    rw [List.map_cons, List.mapM_cons, hint, ih hxs]
    rfl

/-- Which boxes are visible, by the numbers in the group of the entry. -/
theorem showOnlyCategories_eq (h : Catalogued ps s) {ms : Members}
    (hlists : s.files.lists dropdown = .obj ms) (hms : Grouped dropdown.key ps ms)
    (hc : c ∈ ms.map (·.1)) :
    showOnlyCategories s.files d dropdown c = .ok (d.boxes.map fun wname =>
      (wname, (dropdown = .categories ∧ c = all) ∨
        ∃ n ∈ numbersOf dropdown.key ps c, Nat.toDigits 10 n = wname)) := by
  have hget := hms.get c
  rw [if_pos ((hms.mem_keys c).mp hc)] at hget
  rw [showOnlyCategories, hlists, hget, Option.bind_some, getInts_idArray (numbersOf_lt h c)]
  simp only [List.mem_map, exists_exists_and_eq_and, renderInt_natCast]

/-- The lists behind a dropdown, and its entries. -/
theorem exists_lists (h : Catalogued ps s) (hd : createPluginDialog s.files blacklist = .ok d)
    (dropdown : Dropdown) :
    ∃ ms, s.files.lists dropdown = .obj ms ∧ Grouped dropdown.key ps ms ∧
      d.entries dropdown = ms.map (·.1) := by
  obtain ⟨hcategory, hcreators, -⟩ := createPluginDialog_eq_ok hd
  cases dropdown with
  | categories => exact ⟨s.categories, rfl, h.categories, hcategory⟩
  | creators => exact ⟨s.creators, rfl, h.creators, hcreators⟩

theorem boxes_perm (h : Catalogued ps s) (hd : createPluginDialog s.files blacklist = .ok d) :
    d.boxes.Perm ((listed ps blacklist).map fun e => Nat.toDigits 10 e.2) := by
  obtain ⟨boxes, hboxes, hperm⟩ := pluginBoxes_perm blacklist h
  rw [(createPluginDialog_eq_ok hd).2.2] at hboxes
  cases hboxes
  exact hperm

/-- The name of a box is a number of the group exactly when its plugin is in the group. -/
theorem exists_toDigits_iff {key : LilvPlugin → Text} {e : LilvPlugin × ℕ}
    (he : e ∈ listed ps blacklist) :
    (∃ n ∈ numbersOf key ps c, Nat.toDigits 10 n = Nat.toDigits 10 e.2) ↔ key e.1 = c := by
  rw [← mem_numbersOf_iff (List.mem_of_mem_filter he)]
  constructor
  · rintro ⟨n, hn, heq⟩
    rwa [← toDigits_injective heq]
  · exact fun hn => ⟨e.2, hn, rfl⟩

theorem visible_perm {key : LilvPlugin → Text} {boxes : List Text}
    (h : boxes.Perm ((listed ps blacklist).map fun e => Nat.toDigits 10 e.2)) :
    (boxes.filter fun wname => ∃ n ∈ numbersOf key ps c, Nat.toDigits 10 n = wname).Perm
      (((listed ps blacklist).filter fun e => key e.1 = c).map fun e => Nat.toDigits 10 e.2) := by
  refine (h.filter _).trans (.of_eq ?_)
  rw [List.filter_map]
  congr 1
  apply List.filter_congr
  intro e he
  simp only [Function.comp_apply, exists_toDigits_iff he]

theorem forall_visible_iff (key : LilvPlugin → Text) {boxes : List Text}
    (h : boxes.Perm ((listed ps blacklist).map fun e => Nat.toDigits 10 e.2)) :
    (∀ wname ∈ boxes, ∃ n ∈ numbersOf key ps c, Nat.toDigits 10 n = wname) ↔
      ∀ e ∈ listed ps blacklist, key e.1 = c := by
  simp only [h.mem_iff, List.forall_mem_map]
  exact forall₂_congr fun e he => exists_toDigits_iff he

/-- The list under `All` has no numbers. -/
theorem filtersRight_all_creators (h : Catalogued ps s)
    (hd : createPluginDialog s.files blacklist = .ok d) (hc : all ∈ d.entries .creators) :
    FiltersRight ps blacklist s.files d .creators all ↔
      ∀ e ∈ listed ps blacklist, e.1.author = all := by
  obtain ⟨ms, hlists, hms, hentries⟩ := exists_lists h hd .creators
  rw [hentries] at hc
  rw [FiltersRight, showOnlyCategories_eq h hlists hms hc]
  simp only [Except.ok.injEq, exists_eq_left', if_true, List.forall_mem_map, reduceCtorEq,
    false_and, false_or, decide_eq_true_iff]
  exact forall_visible_iff LilvPlugin.author (boxes_perm h hd)

/-- Only the entry `All` of the creators shows the wrong rows, unless every plugin listed has an author
of that name. -/
theorem filtersRight_iff (blacklist : Json) (hs : generateLV2Info ps = .ok s)
    (hd : createPluginDialog s.files blacklist = .ok d) (dropdown : Dropdown)
    (hc : c ∈ d.entries dropdown) :
    FiltersRight ps blacklist s.files d dropdown c ↔
      (dropdown = .creators → c = all → ∀ e ∈ listed ps blacklist, e.1.author = all) := by
  have h := catalogued_of_generate hs
  by_cases hall : dropdown = .creators ∧ c = all
  · obtain ⟨rfl, rfl⟩ := hall
    rw [filtersRight_all_creators h hd hc]
    simp only [forall_const]
  · refine iff_of_true ?_ fun hdropdown hc => absurd ⟨hdropdown, hc⟩ hall
    obtain ⟨ms, hlists, hms, hentries⟩ := exists_lists h hd dropdown
    rw [hentries] at hc
    rw [FiltersRight, showOnlyCategories_eq h hlists hms hc]
    simp only [Except.ok.injEq, exists_eq_left']
    by_cases hc : c = all
    · cases dropdown with
      | categories => simp [hc]
      | creators => exact absurd ⟨rfl, hc⟩ hall
    · simp only [hc, and_false, false_or, if_false, List.filter_map, List.map_map,
        Function.comp_def, List.map_id']
      exact visible_perm (boxes_perm h hd)

theorem exists_oneAuthor :
    ∃ s d, generateLV2Info [oneAuthor] = .ok s ∧ createPluginDialog s.files (.obj []) = .ok d ∧
      ∀ c, c ∈ d.entries .creators ↔ c = all ∨ c ∈ [oneAuthor].map LilvPlugin.author := by
  obtain ⟨s, hs⟩ := exists_generate [oneAuthor] (by decide)
  have h := catalogued_of_generate hs
  have hcat := h.categories.length_eq
  have hcre := h.creators.length_eq
  obtain ⟨hfew, hfew'⟩ := few_oneAuthor
  obtain ⟨d, hd⟩ := createPluginDialog_of_lt (.obj []) h (by omega) (by omega)
  obtain ⟨ms, -, hms, hentries⟩ := exists_lists h hd .creators
  refine ⟨s, d, hs, hd, fun c => ?_⟩
  rw [hentries]
  exact hms.mem_keys c

theorem filtersRight_oneAuthor :
    ∃ s d, generateLV2Info [oneAuthor] = .ok s ∧ createPluginDialog s.files (.obj []) = .ok d ∧
      FiltersRight [oneAuthor] (.obj []) s.files d .creators "Ada".toList := by
  obtain ⟨s, d, hs, hd, hentries⟩ := exists_oneAuthor
  have hc : "Ada".toList ∈ d.entries .creators := (hentries _).mpr (.inr (by decide))
  exact ⟨s, d, hs, hd, (filtersRight_iff (.obj []) hs hd .creators hc).mpr
    fun _ hall => absurd hall (by decide)⟩

theorem all_creators_hides_row :
    ∃ s d, generateLV2Info [oneAuthor] = .ok s ∧ createPluginDialog s.files (.obj []) = .ok d ∧
      all ∈ d.entries .creators ∧ ¬ FiltersRight [oneAuthor] (.obj []) s.files d .creators all := by
  obtain ⟨s, d, hs, hd, hentries⟩ := exists_oneAuthor
  have hc : all ∈ d.entries .creators := (hentries _).mpr (.inl rfl)
  refine ⟨s, d, hs, hd, hc, ?_⟩
  rw [filtersRight_all_creators (catalogued_of_generate hs) hd hc]
  intro hall
  exact absurd (hall (oneAuthor, 1) List.mem_cons_self) (by decide)

end Filter

end EffectBrowser

end AmpRack

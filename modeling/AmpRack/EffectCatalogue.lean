import AmpRack.JsonFiles
import AmpRack.PresetSteps
import AmpRack.KeyGroups

/-!
# The catalogue of LV2 plugins

`generateLV2Info` numbers the installed plugins from 1 on. It describes each under its number and
collects the numbers under the effect types and under the authors. Both collections start with an
empty list under the name that stands for everything; nothing is ever put there on that account.
-/

namespace AmpRack

open JsonText GuardedRun KeyGroups

/-- What lilv says of a plugin. A missing label or author is null. -/
structure LilvPlugin where
  name : Text
  uri : Text
  classUri : Text
  classLabel : Option Text := none
  authorName : Option Text := none

/-- What is looked for in the URI of the class, in this order, and the effect type it means. -/
def effectClasses : List (String × String) :=
  [("DelayPlugin", "Delay"), ("ReverbPlugin", "Reverb"), ("DistortionPlugin", "Distortion"),
    ("FilterPlugin", "Filter"), ("EQPlugin", "EQ"), ("CompressorPlugin", "Compressor"),
    ("LimiterPlugin", "Limiter"), ("ModulatorPlugin", "Modulator"), ("ChorusPlugin", "Chorus"),
    ("FlangerPlugin", "Flanger"), ("PhaserPlugin", "Phaser"), ("GeneratorPlugin", "Generator"),
    ("InstrumentPlugin", "Instrument"), ("UtilityPlugin", "Utility"),
    ("AnalyserPlugin", "Analyser"), ("AmplifierPlugin", "Amplifier"),
    ("SpatialPlugin", "Spatial"), ("SpectralPlugin", "Spectral")]

namespace LilvPlugin

def effectType (p : LilvPlugin) : Text :=
  match effectClasses.find? fun c => Framing.contains c.1.toList p.classUri with
  | some c => c.2.toList
  | none => p.classLabel.getD "Unknown".toList

def author (p : LilvPlugin) : Text := p.authorName.getD "Unknown".toList

/-- The description of the plugin with the number `x`. -/
def toJson (p : LilvPlugin) (x : ℕ) : Json :=
  .obj [("class_label".toList, .str (p.classLabel.getD "Unknown".toList)),
    ("class_uri".toList, .str p.classUri), ("effect_type".toList, .str p.effectType),
    ("id".toList, .int x), ("index".toList, .int 0), ("library".toList, .str p.uri),
    ("name".toList, .str p.name), ("type".toList, .str "lv2".toList), ("uri".toList, .str p.uri)]

end LilvPlugin

def all : Text := "All".toList

/-- `if (m.find (c) == m.end ()) m [c] = vector <int> (); m [c].push_back (x)`, for an object whose
members are arrays. -/
def pushId (c : Text) (x : ℕ) (ms : Members) : Members :=
  let ms := if ((Json.obj ms).get? c).isNone then JsonText.insert c (.arr []) ms else ms
  match (Json.obj ms).get? c with
  | some (.arr xs) => JsonText.insert c (.arr (xs ++ [.int x])) ms
  | _ => ms

/-- The objects that are written to the three files, and the number of the next plugin. `plugins` is
null while it has no members. -/
structure LV2Info where
  plugins : Members := []
  categories : Members := [(all, .arr [])]
  creators : Members := [(all, .arr [])]
  x : ℕ := 1

namespace LV2Info

/-- One turn of the loop over the plugins; the counter is an `int`. -/
def addPlugin (s : LV2Info) (p : LilvPlugin) : Except StepFault LV2Info :=
  if s.x + 1 < 2 ^ 31 then
    .ok
      { plugins := JsonText.insert (Nat.toDigits 10 s.x) (p.toJson s.x) s.plugins
        categories := pushId p.effectType s.x s.categories
        creators := pushId p.author s.x s.creators
        x := s.x + 1 }
  else .error .signedOverflow

def pluginsJson (s : LV2Info) : Json := if s.plugins = [] then .null else .obj s.plugins

end LV2Info

def generateLV2Info (ps : List LilvPlugin) : Except StepFault LV2Info :=
  ps.foldlM LV2Info.addPlugin {}

/-- What the engine has read from the three files: objects, or null. -/
structure PluginFiles where
  lv2Json : Json
  categories : Json
  creators : Json

def LV2Info.files (s : LV2Info) : PluginFiles := ⟨s.pluginsJson, .obj s.categories, .obj s.creators⟩

/-- The end of `generateLV2Info`. -/
def LV2Info.write (writable : Text → Bool) (disk : Disk) (homedir : Text) (s : LV2Info) : Disk :=
  let disk := jsonToFilename writable disk s.pluginsJson (homedir ++ "/lv2_plugins.json".toList)
  let disk :=
    jsonToFilename writable disk (.obj s.categories) (homedir ++ "/lv2_categories.json".toList)
  jsonToFilename writable disk (.obj s.creators) (homedir ++ "/lv2_creators.json".toList)

/-- The lines of the engine's constructor. -/
def PluginFiles.read (disk : Disk) (config : Text) : Except Thrown PluginFiles :=
  (filenameToJson disk (config ++ "/lv2_plugins.json".toList)).bind fun lv2Json =>
  (filenameToJson disk (config ++ "/lv2_categories.json".toList)).bind fun categories =>
  (filenameToJson disk (config ++ "/lv2_creators.json".toList)).map fun creators =>
    ⟨lv2Json, categories, creators⟩

/-- A list of numbers as JSON has it. -/
def idArray (xs : List ℕ) : Json := .arr (xs.map fun x : ℕ => Json.int x)

/-- The members are the groups of the plugins under a key, and the empty list for everything. -/
structure Grouped (key : LilvPlugin → Text) (ps : List LilvPlugin) (ms : Members) : Prop where
  sorted : SortedKeys ms
  get : ∀ c, (Json.obj ms).get? c =
    if c = all ∨ c ∈ ps.map key then some (idArray (numbersOf key ps c)) else none

/-- What `generateLV2Info` has made of the plugins `ps`. -/
structure Catalogued (ps : List LilvPlugin) (s : LV2Info) : Prop where
  x : s.x = ps.length + 1
  lt : s.x < 2 ^ 31
  plugins : s.plugins.Perm ((ps.zipIdx 1).map fun e => (Nat.toDigits 10 e.2, e.1.toJson e.2))
  sorted : SortedKeys s.plugins
  categories : Grouped LilvPlugin.effectType ps s.categories
  creators : Grouped LilvPlugin.author ps s.creators

variable {key : LilvPlugin → Text} {ps : List LilvPlugin} {ms : Members} {s : LV2Info}

theorem grouped_nil (key : LilvPlugin → Text) : Grouped key [] [(all, .arr [])] := by
  refine ⟨List.pairwise_singleton _ _, fun c => ?_⟩
  by_cases hc : c = all
  · subst hc
    rfl
  · rw [if_neg (by simp [hc]), get?_of_notMem]
    simpa using hc

/-- The list under a key once there is one. -/
theorem get?_ensured (h : Grouped key ps ms) (c : Text) :
    (Json.obj (if ((Json.obj ms).get? c).isNone then JsonText.insert c (.arr []) ms else ms)).get?
      c = some (idArray (numbersOf key ps c)) := by
  by_cases hc : c = all ∨ c ∈ ps.map key
  · have hget := h.get c
    rw [if_pos hc] at hget
    rw [hget, if_neg (by simp), hget]
  · have hget := h.get c
    rw [if_neg hc] at hget
    rw [hget, Option.isNone_none, if_pos rfl, get?_insert, numbersOf_eq_nil (not_or.mp hc).2]
    rfl

theorem get?_pushId_self (h : Grouped key ps ms) (c : Text) (x : ℕ) :
    (Json.obj (pushId c x ms)).get? c = some (idArray (numbersOf key ps c ++ [x])) := by
  rw [pushId, get?_ensured h c, idArray]
  simp only [get?_insert]
  rw [idArray, List.map_append, List.map_singleton]

theorem get?_pushId_of_ne (h : Grouped key ps ms) {c c' : Text} (hne : c' ≠ c) (x : ℕ) :
    (Json.obj (pushId c x ms)).get? c' = (Json.obj ms).get? c' := by
  rw [pushId, get?_ensured h c, idArray]
  simp only [get?_insert_of_ne hne]
  split_ifs
  · exact get?_insert_of_ne hne _ _
  · rfl

theorem sortedKeys_pushId (h : SortedKeys ms) (c : Text) (x : ℕ) : SortedKeys (pushId c x ms) := by
  have hensured : SortedKeys
      (if ((Json.obj ms).get? c).isNone then JsonText.insert c (.arr []) ms else ms) := by
    split_ifs
    · exact sortedKeys_insert h
    · exact h
  rw [pushId]
  split
  · exact sortedKeys_insert hensured
  · exact hensured

theorem grouped_pushId (h : Grouped key ps ms) (p : LilvPlugin) :
    Grouped key (ps ++ [p]) (pushId (key p) (ps.length + 1) ms) := by
  refine ⟨sortedKeys_pushId h.sorted _ _, fun c => ?_⟩
  rw [numbersOf_concat]
  simp only [List.map_append, List.map_cons, List.map_nil, List.mem_append, List.mem_singleton]
  by_cases hc : c = key p
  · subst hc
    rw [get?_pushId_self h, if_pos rfl, if_pos (Or.inr (Or.inr rfl))]
  · rw [get?_pushId_of_ne h hc, h.get c, if_neg (Ne.symm hc), List.append_nil]
    simp only [hc, or_false]

theorem addPlugin_eq_ok {p : LilvPlugin} {s' : LV2Info} (h : s.addPlugin p = .ok s') :
    s.x + 1 < 2 ^ 31 ∧ s' =
      { plugins := JsonText.insert (Nat.toDigits 10 s.x) (p.toJson s.x) s.plugins
        categories := pushId p.effectType s.x s.categories
        creators := pushId p.author s.x s.creators
        x := s.x + 1 } := by
  rw [LV2Info.addPlugin] at h
  split_ifs at h with hlt
  cases h
  exact ⟨hlt, rfl⟩

theorem catalogued_addPlugin (h : Catalogued ps s) {p : LilvPlugin} {s' : LV2Info}
    (hs : s.addPlugin p = .ok s') : Catalogued (ps ++ [p]) s' := by
  obtain ⟨hlt, rfl⟩ := addPlugin_eq_ok hs
  have hfresh : Nat.toDigits 10 s.x ∉ s.plugins.map (·.1) := by
    intro hmem
    rw [(h.plugins.map _).mem_iff, List.map_map] at hmem
    obtain ⟨e, he, hkey⟩ := List.mem_map.mp hmem
    have hnumber : e.2 = s.x := toDigits_injective hkey
    have hle := List.snd_lt_add_of_mem_zipIdx he
    rw [hnumber, h.x] at hle
    omega
  have hzip : ((ps ++ [p]).zipIdx 1).map (fun e => (Nat.toDigits 10 e.2, e.1.toJson e.2)) =
      (ps.zipIdx 1).map (fun e => (Nat.toDigits 10 e.2, e.1.toJson e.2)) ++
        [(Nat.toDigits 10 s.x, p.toJson s.x)] := by
    rw [List.zipIdx_append, List.map_append, h.x, Nat.add_comm]
    rfl
  constructor
  · rw [List.length_append, List.length_singleton, h.x]
  · exact hlt
  · rw [hzip]
    refine (insert_perm hfresh).trans ?_
    exact (List.perm_append_singleton _ _).symm.trans (h.plugins.append_right _)
  · exact sortedKeys_insert h.sorted
  · rw [h.x]
    exact grouped_pushId h.categories p
  · rw [h.x]
    exact grouped_pushId h.creators p

theorem catalogued_nil : Catalogued [] {} where
  x := rfl
  lt := by decide
  plugins := List.Perm.nil
  sorted := List.Pairwise.nil
  categories := grouped_nil _
  creators := grouped_nil _

/-- The plugins are numbered and grouped, whichever are installed. -/
theorem catalogued_of_generate (h : generateLV2Info ps = .ok s) : Catalogued ps s := by
  induction ps using List.reverseRecOn generalizing s with
  | nil =>
    cases h
    exact catalogued_nil
  | append_singleton ps p ih =>
    rw [generateLV2Info, List.foldlM_append] at h
    obtain ⟨s₁, hs₁, hs⟩ := exists_of_bind_ok h
    obtain ⟨s₂, hs₂, hs⟩ := exists_of_bind_ok hs
    cases hs
    exact catalogued_addPlugin (ih hs₁) hs₂

/-- The counter is the only thing that can go wrong. -/
theorem exists_generate (ps : List LilvPlugin) (h : ps.length + 1 < 2 ^ 31) :
    ∃ s, generateLV2Info ps = .ok s := by
  induction ps using List.reverseRecOn with
  | nil => exact ⟨_, rfl⟩
  | append_singleton ps p ih =>
    rw [List.length_append, List.length_singleton] at h
    obtain ⟨s, hs⟩ := ih (by omega)
    have hlt : s.x + 1 < 2 ^ 31 := by
      rw [(catalogued_of_generate hs).x]
      exact h
    have hrun : run LV2Info.addPlugin {} ps = .ok s := hs
    have hadd : s.addPlugin p = .ok _ := if_pos hlt
    exact ⟨_, run_concat hrun hadd⟩

/-- The keys are everything's and those of the plugins. -/
theorem Grouped.mem_keys (h : Grouped key ps ms) (c : Text) :
    c ∈ ms.map (·.1) ↔ c = all ∨ c ∈ ps.map key := by
  have hget := h.get c
  by_cases hc : c = all ∨ c ∈ ps.map key
  · rw [if_pos hc] at hget
    refine iff_of_true ?_ hc
    by_contra hnot
    rw [get?_of_notMem hnot] at hget
    cases hget
  · rw [if_neg hc] at hget
    refine iff_of_false ?_ hc
    intro hmem
    obtain ⟨m, hm, rfl⟩ := List.mem_map.mp hmem
    rw [get?_of_mem h.sorted.nodup hm] at hget
    cases hget

theorem Grouped.length_eq (h : Grouped key ps ms) :
    ms.length = ((ps.map key).filter (· ≠ all)).dedup.length + 1 := by
  rw [← length_keys h.sorted.nodup h.mem_keys, List.length_map]

theorem lt_of_mem_zipIdx (h : Catalogued ps s) {e : LilvPlugin × ℕ} (he : e ∈ ps.zipIdx 1) :
    e.2 < 2 ^ 31 := by
  have hlt := h.lt
  have hle := List.snd_lt_add_of_mem_zipIdx he
  rw [h.x] at hlt
  omega

theorem numbersOf_lt (h : Catalogued ps s) (c : Text) : ∀ x ∈ numbersOf key ps c, x < 2 ^ 31 := by
  intro x hx
  obtain ⟨p, hp, -⟩ := mem_numbersOf.mp hx
  exact lt_of_mem_zipIdx h hp

section Files

theorem wellFormed_int {x : ℕ} (h : x < 2 ^ 31) : (Json.int x).WellFormed := by
  have hbounds : -2 ^ 63 ≤ (x : ℤ) ∧ (x : ℤ) < 2 ^ 64 := by omega
  exact hbounds

theorem wellFormed_idArray {xs : List ℕ} (h : ∀ x ∈ xs, x < 2 ^ 31) : (idArray xs).WellFormed := by
  induction xs with
  | nil => exact trivial
  | cons x xs ih =>
    obtain ⟨hx, hxs⟩ := List.forall_mem_cons.mp h
    exact ⟨wellFormed_int hx, ih hxs⟩

theorem wellFormed_toJson (p : LilvPlugin) {x : ℕ} (h : x < 2 ^ 31) : (p.toJson x).WellFormed := by
  refine ⟨?_, trivial, trivial, trivial, wellFormed_int h, wellFormed_int (by decide : 0 < 2 ^ 31),
    trivial, trivial, trivial, trivial, trivial⟩
  change ["class_label".toList, "class_uri".toList, "effect_type".toList, "id".toList,
    "index".toList, "library".toList, "name".toList, "type".toList, "uri".toList].Pairwise (· < ·)
  decide

theorem wellFormed_pluginsJson (h : Catalogued ps s) : s.pluginsJson.WellFormed := by
  rw [LV2Info.pluginsJson]
  split_ifs
  · exact trivial
  · refine ⟨h.sorted, membersWellFormed_iff.mpr fun m hm => ?_⟩
    obtain ⟨e, he, rfl⟩ := List.mem_map.mp (h.plugins.mem_iff.mp hm)
    exact wellFormed_toJson e.1 (lt_of_mem_zipIdx h he)

theorem wellFormed_grouped (h : Catalogued ps s) (hms : Grouped key ps ms) :
    (Json.obj ms).WellFormed := by
  refine ⟨hms.sorted, membersWellFormed_iff.mpr fun m hm => ?_⟩
  have hget := hms.get m.1
  rw [get?_of_mem hms.sorted.nodup hm,
    if_pos ((hms.mem_keys m.1).mp (List.mem_map_of_mem hm))] at hget
  rw [Option.some.inj hget]
  exact wellFormed_idArray (numbersOf_lt h m.1)

theorem jsonToFilename_self {writable : Text → Bool} {disk : Disk} {filename : Text} {j : Json}
    (hw : writable filename = true) :
    jsonToFilename writable disk j filename filename = some (fileText j) := by
  rw [jsonToFilename, if_pos hw, Function.update_self]

theorem jsonToFilename_of_ne {writable : Text → Bool} {disk : Disk} {filename other : Text} {j : Json}
    (hne : other ≠ filename) : jsonToFilename writable disk j filename other = disk other := by
  rw [jsonToFilename]
  split_ifs
  · exact Function.update_of_ne hne _ _
  · rfl

/-- The engine reads what was written, from a directory whose files can be opened. -/
theorem read_write (h : Catalogued ps s) {writable : Text → Bool} (disk : Disk) {homedir : Text}
    (hw : ∀ name, writable (homedir ++ name) = true) :
    PluginFiles.read (s.write writable disk homedir) homedir = .ok s.files := by
  have hplugins : filenameToJson (s.write writable disk homedir)
      (homedir ++ "/lv2_plugins.json".toList) = .ok s.pluginsJson := by
    refine filenameToJson_of_text ?_ (parse_fileText (wellFormed_pluginsJson h))
    rw [LV2Info.write, jsonToFilename_of_ne (by simp), jsonToFilename_of_ne (by simp),
      jsonToFilename_self (hw _)]
  have hcategories : filenameToJson (s.write writable disk homedir)
      (homedir ++ "/lv2_categories.json".toList) = .ok (.obj s.categories) := by
    refine filenameToJson_of_text ?_ (parse_fileText (wellFormed_grouped h h.categories))
    rw [LV2Info.write, jsonToFilename_of_ne (by simp), jsonToFilename_self (hw _)]
  have hcreators : filenameToJson (s.write writable disk homedir)
      (homedir ++ "/lv2_creators.json".toList) = .ok (.obj s.creators) := by
    refine filenameToJson_of_text ?_ (parse_fileText (wellFormed_grouped h h.creators))
    rw [LV2Info.write, jsonToFilename_self (hw _)]
  rw [PluginFiles.read, hplugins, hcategories, hcreators]
  rfl

end Files

end AmpRack

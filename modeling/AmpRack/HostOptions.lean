import AmpRack.UridMap

/-!
# The options of the host

The constructor of a plugin maps the URIs that the host knows, sets the sample rate of the host, and
hands the instance an array of options and the functions `options_get` and `options_set`. All of it
lives in globals, which the plugins share. A plugin names an option by the id that `simple_map` has
given it for the URI. Four bytes of a value are a `Word`; `floatOf` is the conversion to `float`.
-/

namespace AmpRack

open Interning

abbrev Word := BitVec 32

/-- The URIs that the constructor maps, in the order of its calls. -/
inductive HostKey
  | atomInt
  | atomFloat
  | atomPath
  | atomString
  | atomSequence
  | atomEventTransfer
  | patchSet
  | patchProperty
  | patchValue
  | minBlockLength
  | maxBlockLength
  | nominalBlockLength
  | sequenceSize
  | sampleRate
  deriving DecidableEq

namespace HostKey

def uri : HostKey → String
  | atomInt => "http://lv2plug.in/ns/ext/atom#Int"
  | atomFloat => "http://lv2plug.in/ns/ext/atom#Float"
  | atomPath => "http://lv2plug.in/ns/ext/atom#Path"
  | atomString => "http://lv2plug.in/ns/ext/atom#String"
  | atomSequence => "http://lv2plug.in/ns/ext/atom#Sequence"
  | atomEventTransfer => "http://lv2plug.in/ns/ext/atom#eventTransfer"
  | patchSet => "http://lv2plug.in/ns/ext/patch#Set"
  | patchProperty => "http://lv2plug.in/ns/ext/patch#property"
  | patchValue => "http://lv2plug.in/ns/ext/patch#value"
  | minBlockLength => "http://lv2plug.in/ns/ext/buf-size#minBlockLength"
  | maxBlockLength => "http://lv2plug.in/ns/ext/buf-size#maxBlockLength"
  | nominalBlockLength => "http://lv2plug.in/ns/ext/buf-size#nominalBlockLength"
  | sequenceSize => "http://lv2plug.in/ns/ext/buf-size#sequenceSize"
  | sampleRate => "http://lv2plug.in/ns/lv2core#sampleRate"

def all : List HostKey :=
  [atomInt, atomFloat, atomPath, atomString, atomSequence, atomEventTransfer, patchSet,
    patchProperty, patchValue, minBlockLength, maxBlockLength, nominalBlockLength, sequenceSize,
    sampleRate]

/-- The id that the first constructor of a process gets for the URI. -/
def id (key : HostKey) : ℕ := all.idxOf key + 1

end HostKey

/-- `LV2_Options_Option`; a `value` that is `none` is a null pointer. -/
structure LV2Option where
  key : ℕ
  size : ℕ
  type : ℕ
  value : Option Word
  deriving DecidableEq

/-- The option that ends an array. -/
def LV2Option.terminator : LV2Option := ⟨0, 0, 0, none⟩

/-- The globals of `Plugin.cpp`; `sampleRateVal` is the static of the constructor, set by the first one
that comes to it. -/
structure HostOptions where
  uridMap : UridMap := .initial
  urids : HostKey → ℕ := fun _ => 0
  sequenceSize : Word := 8192
  blockLength : Word := 512
  sampleRate : Word
  sampleRateVal : Option Word := none

namespace HostOptions

/-- One of the lines `options_urids.… = simple_map (NULL, …)`. -/
def mapKey (h : HostOptions) (key : HostKey) : HostOptions :=
  let r := h.uridMap.simpleMap () key.uri
  { h with uridMap := r.1, urids := Function.update h.urids key r.2 }

/-- The array of options that a constructor hands out. -/
def optionsArray (h : HostOptions) (sampleRateVal : Word) : List LV2Option :=
  [⟨h.urids .minBlockLength, 4, h.urids .atomInt, some 512⟩,
    ⟨h.urids .maxBlockLength, 4, h.urids .atomInt, some 512⟩,
    ⟨h.urids .nominalBlockLength, 4, h.urids .atomInt, some 512⟩,
    ⟨h.urids .sequenceSize, 4, h.urids .atomInt, some 8192⟩,
    ⟨h.urids .sampleRate, 4, h.urids .atomFloat, some sampleRateVal⟩, .terminator]

/-- The constructor up to `lilv_plugin_instantiate`, to which it hands the sample rate and the options.
Its member `sampleRate` is set only later, and holds `indeterminate`. -/
def construct (floatOf : ℕ → Word) (h : HostOptions) (sampleRate indeterminate : ℕ) :
    HostOptions × ℕ × List LV2Option :=
  let h := HostKey.all.foldl mapKey { h with sampleRate := floatOf sampleRate }
  let val := h.sampleRateVal.getD (floatOf indeterminate)
  ({ h with sampleRateVal := some val }, indeterminate, h.optionsArray val)

/-- The value is stored if the plugin has room for it; a null pointer is a fault. -/
def answer (opt : LV2Option) (value : Word) (type : ℕ) : Option LV2Option :=
  if 4 ≤ opt.size then opt.value.map fun _ => { opt with value := some value, type := type, size := 4 }
  else some opt

/-- One turn of the loop of `options_get`. -/
def getOption (h : HostOptions) (opt : LV2Option) : Option LV2Option :=
  if opt.key = h.urids .minBlockLength ∨ opt.key = h.urids .maxBlockLength ∨
      opt.key = h.urids .nominalBlockLength then answer opt h.blockLength (h.urids .atomInt)
  else if opt.key = h.urids .sequenceSize then answer opt h.sequenceSize (h.urids .atomInt)
  else if opt.key = h.urids .sampleRate then answer opt h.sampleRate (h.urids .atomFloat)
  else some { opt with type := 0, size := 0 }

/-- `options_get`; `none` when an array without an end is read past. -/
def optionsGet (h : HostOptions) : List LV2Option → Option (List LV2Option)
  | [] => none
  | opt :: opts =>
    if opt.key = 0 ∧ opt.value = none then some (opt :: opts)
    else do return (← h.getOption opt) :: (← h.optionsGet opts)

/-- One turn of the loop of `options_set`. -/
def setOption (h : HostOptions) (opt : LV2Option) : Option HostOptions :=
  if opt.key = h.urids .minBlockLength ∨ opt.key = h.urids .maxBlockLength ∨
      opt.key = h.urids .nominalBlockLength then
    if opt.type = h.urids .atomInt ∧ opt.size = 4 then
      opt.value.map fun value => { h with blockLength := value }
    else some h
  else if opt.key = h.urids .sequenceSize then
    if opt.type = h.urids .atomInt ∧ opt.size = 4 then
      opt.value.map fun value => { h with sequenceSize := value }
    else some h
  else if opt.key = h.urids .sampleRate then
    if opt.type = h.urids .atomFloat ∧ opt.size = 4 then
      opt.value.map fun value => { h with sampleRate := value }
    else some h
  else some h

/-- `options_set`. -/
def optionsSet (h : HostOptions) : List LV2Option → Option HostOptions
  | [] => none
  | opt :: opts =>
    if opt.key = 0 ∧ opt.value = none then some h
    else (h.setOption opt).bind fun h => h.optionsSet opts

end HostOptions

section Ids

variable {t : Table String MAX_URIS} {key : HostKey}

theorem HostKey.idxOf_uri (key : HostKey) :
    (HostKey.all.map HostKey.uri).idxOf key.uri = HostKey.all.idxOf key := by
  cases key <;> decide

theorem HostKey.mem_all (key : HostKey) : key ∈ HostKey.all := by cases key <;> decide

theorem HostKey.nodup_uri : (HostKey.all.map HostKey.uri).Nodup := by decide

/-- The next URI that a constructor maps. -/
theorem HostKey.id_eq {before keys : List HostKey} (h : HostKey.all = before ++ key :: keys) :
    key.id = before.length + 1 ∧ key.uri ∉ before.map HostKey.uri := by
  have hnodup := HostKey.nodup_uri
  rw [h, List.map_append, List.nodup_append] at hnodup
  have hnot : key.uri ∉ before.map HostKey.uri := fun hmem =>
    hnodup.2.2 _ hmem _ (List.mem_map_of_mem List.mem_cons_self) rfl
  refine ⟨?_, hnot⟩
  rw [HostKey.id, h, List.idxOf_append_of_notMem fun hmem => hnot (List.mem_map_of_mem hmem),
    List.idxOf_cons_self, Nat.add_zero]

/-- The table knows the URIs of the host, and gives them the first ids. -/
def KnowsHost (t : Table String MAX_URIS) : Prop := HostKey.all.map HostKey.uri <+: t.entries

theorem KnowsHost.intern (h : KnowsHost t) (uri : String) : KnowsHost (t.intern uri).1 :=
  h.trans (t.prefix_intern uri)

theorem KnowsHost.mem (h : KnowsHost t) (key : HostKey) : key.uri ∈ t.entries :=
  List.IsPrefix.subset h (List.mem_map_of_mem key.mem_all)

theorem KnowsHost.intern_uri (h : KnowsHost t) (key : HostKey) : t.intern key.uri = (t, key.id) := by
  obtain ⟨rest, hrest⟩ := h
  have hmem : key.uri ∈ HostKey.all.map HostKey.uri := List.mem_map_of_mem key.mem_all
  rw [Table.intern_of_mem (KnowsHost.mem ⟨rest, hrest⟩ key), ← hrest, List.idxOf_append_of_mem hmem,
    key.idxOf_uri, HostKey.id]

/-- Whoever asks, only the URI itself has the id of a URI of the host. -/
theorem KnowsHost.id_iff (h : KnowsHost t) (uri : String) (key : HostKey) :
    (t.intern uri).2 = key.id ↔ uri = key.uri := by
  constructor
  · intro hid
    have hget := t.getElem?_intern uri (by rw [hid, HostKey.id]; exact Nat.succ_ne_zero _)
    have hkey := (t.intern uri).1.getElem?_intern key.uri
      (by rw [(h.intern uri).intern_uri, HostKey.id]; exact Nat.succ_ne_zero _)
    rw [(h.intern uri).intern_uri] at hkey
    rw [hid] at hget
    exact Option.some.inj (hget.symm.trans hkey)
  · rintro rfl
    rw [h.intern_uri]

namespace HostOptions

variable {h : HostOptions}

/-- The calls of a constructor map what is left of the URIs. -/
theorem foldl_mapKey {before keys : List HostKey} (hall : HostKey.all = before ++ keys)
    (hrep : h.uridMap.Represents t)
    (ht : t.entries = before.map HostKey.uri ∨ KnowsHost t)
    (hurids : ∀ key ∈ before, h.urids key = key.id) :
    ∃ t' m urids, m.Represents t' ∧ KnowsHost t' ∧ (∀ key, urids key = HostKey.id key) ∧
      keys.foldl mapKey h = { h with uridMap := m, urids := urids } := by
  induction keys generalizing h t before with
  | nil =>
    rw [List.append_nil] at hall
    refine ⟨t, h.uridMap, h.urids, hrep, ?_, fun key => hurids key (hall ▸ key.mem_all), rfl⟩
    obtain hentries | hknows := ht
    · rw [KnowsHost, hentries, hall]
    · exact hknows
  | cons key keys ih =>
    obtain ⟨hid, hnot⟩ := HostKey.id_eq hall
    obtain ⟨hnext, hanswer⟩ := UridMap.simpleMap_refines hrep () key.uri
    have hintern : (t.intern key.uri).2 = key.id ∧
        ((t.intern key.uri).1.entries = (before ++ [key]).map HostKey.uri ∨
          KnowsHost (t.intern key.uri).1) := by
      obtain hentries | hknows := ht
      · have hlt : t.entries.length < MAX_URIS := by
          have hlen := congrArg List.length hall
          rw [hentries, List.length_map]
          rw [List.length_append, List.length_cons] at hlen
          have hfew : HostKey.all.length < MAX_URIS := by decide
          omega
        rw [← hentries] at hnot
        rw [Table.intern_of_room hnot hlt]
        refine ⟨by rw [hid, hentries, List.length_map], .inl ?_⟩
        change t.entries ++ [key.uri] = _
        rw [hentries, List.map_append, List.map_singleton]
      · rw [hknows.intern_uri]
        exact ⟨rfl, .inr hknows⟩
    rw [hintern.1] at hanswer
    have hurids' : ∀ k ∈ before ++ [key], (h.mapKey key).urids k = k.id := by
      intro k hk
      rw [mapKey]
      dsimp only
      by_cases heq : k = key
      · rw [heq, Function.update_self, hanswer]
      · rw [Function.update_of_ne heq]
        refine hurids k ?_
        rw [List.mem_append, List.mem_singleton] at hk
        exact hk.resolve_right heq
    rw [List.append_cons] at hall
    obtain ⟨t', m, urids, hrep', hknows', hids, hsame⟩ := ih hall hnext hintern.2 hurids'
    refine ⟨t', m, urids, hrep', hknows', hids, ?_⟩
    rw [List.foldl_cons, hsame]
    rfl

end HostOptions

end Ids

/-- What the keys of the options stand for. -/
inductive OptionSlot
  | blockLength
  | sequenceSize
  | sampleRate
  deriving DecidableEq

def OptionSlot.type : OptionSlot → HostKey
  | .sampleRate => .atomFloat
  | _ => .atomInt

/-- The value that a URI asks for. -/
def slotOf (uri : String) : Option OptionSlot :=
  if uri = HostKey.minBlockLength.uri ∨ uri = HostKey.maxBlockLength.uri ∨
      uri = HostKey.nominalBlockLength.uri then some .blockLength
  else if uri = HostKey.sequenceSize.uri then some .sequenceSize
  else if uri = HostKey.sampleRate.uri then some .sampleRate
  else none

/-- An option as a plugin means it, before it has asked for the ids; the value points somewhere. -/
structure NamedOption where
  uri : String
  type : String
  size : ℕ
  value : Word

inductive HostCall
  | construct (sampleRate indeterminate : ℕ)
  | map (uri : String)
  | get (options : List NamedOption)
  | set (options : List NamedOption)

inductive HostAnswer
  | made (sampleRate : ℕ) (options : List LV2Option)
  | urid (id : ℕ)
  | options (options : List LV2Option)
  | done

namespace HostOptions

/-- The array for these options, after the ids have been asked for. -/
def resolve (h : HostOptions) : List NamedOption → HostOptions × List LV2Option
  | [] => (h, [.terminator])
  | o :: os =>
    let key := h.uridMap.simpleMap () o.uri
    let type := key.1.simpleMap () o.type
    let rest := ({ h with uridMap := type.1 } : HostOptions).resolve os
    (rest.1, ⟨key.2, o.size, type.2, some o.value⟩ :: rest.2)

def call (floatOf : ℕ → Word) (h : HostOptions) : HostCall → Option (HostOptions × HostAnswer)
  | .construct sampleRate indeterminate =>
    let made := construct floatOf h sampleRate indeterminate
    some (made.1, .made made.2.1 made.2.2)
  | .map uri =>
    let r := h.uridMap.simpleMap () uri
    some ({ h with uridMap := r.1 }, .urid r.2)
  | .get opts =>
    let r := h.resolve opts
    (r.1.optionsGet r.2).map fun answers => (r.1, .options answers)
  | .set opts =>
    let r := h.resolve opts
    (r.1.optionsSet r.2).map fun h => (h, .done)

def callAll (floatOf : ℕ → Word) (h : HostOptions) :
    List HostCall → Option (HostOptions × List HostAnswer)
  | [] => some (h, [])
  | c :: calls => do
    let (h, a) ← h.call floatOf c
    let (h, answers) ← callAll floatOf h calls
    return (h, a :: answers)

end HostOptions

/-- The options as plugins may think of them, without ids. -/
structure OptionValues where
  value : OptionSlot → Word
  sampleRateVal : Option Word := none

namespace OptionValues

def set (v : OptionValues) (o : NamedOption) : OptionValues :=
  match slotOf o.uri with
  | some slot =>
    if o.type = slot.type.uri ∧ o.size = 4 then
      { v with value := Function.update v.value slot o.value }
    else v
  | none => v

/-- The option that comes back for `o`. -/
def Gets (v : OptionValues) (o : NamedOption) (a : LV2Option) : Prop :=
  match slotOf o.uri with
  | some slot =>
    if 4 ≤ o.size then a.value = some (v.value slot) ∧ a.type = slot.type.id ∧ a.size = 4
    else a.value = some o.value ∧ a.size = o.size
  | none => a.value = some o.value ∧ a.type = 0 ∧ a.size = 0

def after (floatOf : ℕ → Word) (v : OptionValues) : HostCall → OptionValues
  | .construct sampleRate indeterminate =>
    { value := Function.update v.value .sampleRate (floatOf sampleRate)
      sampleRateVal := some (v.sampleRateVal.getD (floatOf indeterminate)) }
  | .map _ | .get _ => v
  | .set options => options.foldl set v

/-- The array that every instance is handed. -/
def array (sampleRateVal : Word) : List LV2Option :=
  [⟨HostKey.minBlockLength.id, 4, HostKey.atomInt.id, some 512⟩,
    ⟨HostKey.maxBlockLength.id, 4, HostKey.atomInt.id, some 512⟩,
    ⟨HostKey.nominalBlockLength.id, 4, HostKey.atomInt.id, some 512⟩,
    ⟨HostKey.sequenceSize.id, 4, HostKey.atomInt.id, some 8192⟩,
    ⟨HostKey.sampleRate.id, 4, HostKey.atomFloat.id, some sampleRateVal⟩, .terminator]

/-- The answer to a call that has led to these values. An instance gets the rate that the new object
happened to hold, and in its options the one that the first object held. -/
def Answered (v : OptionValues) : HostCall → HostAnswer → Prop
  | .construct _ indeterminate, .made rate options =>
    rate = indeterminate ∧ v.sampleRateVal.map array = some options
  | .map uri, .urid id => ∀ key : HostKey, id = key.id ↔ uri = key.uri
  | .get opts, .options options =>
    ∃ answers, options = answers ++ [.terminator] ∧ List.Forall₂ v.Gets opts answers
  | .set _, .done => True
  | _, _ => False

def Follows (floatOf : ℕ → Word) (v : OptionValues) : List HostCall → List HostAnswer → Prop
  | [], answers => answers = []
  | c :: calls, answers =>
    ∃ a rest, answers = a :: rest ∧ (v.after floatOf c).Answered c a ∧
      (v.after floatOf c).Follows floatOf calls rest

end OptionValues

namespace HostOptions

open OptionValues

def value (h : HostOptions) : OptionSlot → Word
  | .blockLength => h.blockLength
  | .sequenceSize => h.sequenceSize
  | .sampleRate => h.sampleRate

/-- The globals between two calls, once a constructor has run. -/
structure Keeps (h : HostOptions) (t : Table String MAX_URIS) (v : OptionValues) : Prop where
  represents : h.uridMap.Represents t
  knows : KnowsHost t
  urids : ∀ key, h.urids key = HostKey.id key
  value_eq : h.value = v.value
  sampleRateVal : h.sampleRateVal = v.sampleRateVal

variable {h : HostOptions} {t : Table String MAX_URIS} {v : OptionValues}

theorem Keeps.map (hk : h.Keeps t v) (uri : String) :
    ({ h with uridMap := (h.uridMap.simpleMap () uri).1 } : HostOptions).Keeps (t.intern uri).1 v ∧
      ∀ key : HostKey, (h.uridMap.simpleMap () uri).2 = key.id ↔ uri = key.uri := by
  obtain ⟨hnext, hanswer⟩ := UridMap.simpleMap_refines hk.represents () uri
  refine ⟨⟨hnext, hk.knows.intern uri, hk.urids, hk.value_eq, hk.sampleRateVal⟩, fun key => ?_⟩
  rw [hanswer]
  exact hk.knows.id_iff uri key

/-- An option of the array stands for the one that the plugin means. -/
def Stands (o : NamedOption) (opt : LV2Option) : Prop :=
  opt.size = o.size ∧ opt.value = some o.value ∧
    (∀ key : HostKey, opt.key = key.id ↔ o.uri = key.uri) ∧
      ∀ key : HostKey, opt.type = key.id ↔ o.type = key.uri

theorem Keeps.resolve (hk : h.Keeps t v) (os : List NamedOption) :
    ∃ t' opts, (h.resolve os).1.Keeps t' v ∧ (h.resolve os).2 = opts ++ [.terminator] ∧
      List.Forall₂ Stands os opts := by
  induction os generalizing h t with
  | nil => exact ⟨t, [], hk, rfl, .nil⟩
  | cons o os ih =>
    obtain ⟨hkey, hids⟩ := hk.map o.uri
    obtain ⟨htype, htypes⟩ := hkey.map o.type
    obtain ⟨t', opts, hlast, hopts, hstands⟩ := ih htype
    refine ⟨t', ⟨_, o.size, _, some o.value⟩ :: opts, hlast, ?_,
      .cons ⟨rfl, rfl, hids, htypes⟩ hstands⟩
    rw [HostOptions.resolve]
    dsimp only
    rw [hopts]
    rfl

theorem Keeps.key_iff (hk : h.Keeps t v) {o : NamedOption} {opt : LV2Option} (hs : Stands o opt)
    (key : HostKey) : opt.key = h.urids key ↔ o.uri = key.uri := by
  rw [hk.urids]
  exact hs.2.2.1 key

theorem Keeps.type_iff (hk : h.Keeps t v) {o : NamedOption} {opt : LV2Option} (hs : Stands o opt)
    (key : HostKey) : opt.type = h.urids key ↔ o.type = key.uri := by
  rw [hk.urids]
  exact hs.2.2.2 key

theorem Stands.answer {o : NamedOption} {opt : LV2Option} (hs : Stands o opt) (value : Word) (type : ℕ) :
    ∃ a, HostOptions.answer opt value type = some a ∧
      if 4 ≤ o.size then a.value = some value ∧ a.type = type ∧ a.size = 4
      else a.value = some o.value ∧ a.size = o.size := by
  obtain ⟨hsize, hvalue, -, -⟩ := hs
  rw [HostOptions.answer, hsize, hvalue, Option.map_some]
  split_ifs
  · exact ⟨_, rfl, rfl, rfl, rfl⟩
  · exact ⟨_, rfl, hvalue, hsize⟩

/-- `options_get` finds out by the ids what the URI asks for. -/
theorem Keeps.getOption_eq (hk : h.Keeps t v) {o : NamedOption} {opt : LV2Option}
    (hs : Stands o opt) :
    h.getOption opt =
      match slotOf o.uri with
      | some slot => HostOptions.answer opt (h.value slot) slot.type.id
      | none => some { opt with type := 0, size := 0 } := by
  simp only [HostOptions.getOption, hk.key_iff hs, slotOf]
  split_ifs
  · rw [hk.urids]
    rfl
  · rw [hk.urids]
    rfl
  · rw [hk.urids]
    rfl
  · rfl

theorem Keeps.getOption (hk : h.Keeps t v) {o : NamedOption} {opt : LV2Option} (hs : Stands o opt) :
    ∃ a, h.getOption opt = some a ∧ v.Gets o a := by
  rw [hk.getOption_eq hs, hk.value_eq]
  simp only [Gets]
  cases slotOf o.uri with
  | some slot => exact hs.answer _ _
  | none => exact ⟨_, rfl, hs.2.1, rfl, rfl⟩

theorem Keeps.optionsGet (hk : h.Keeps t v) {os : List NamedOption} {opts : List LV2Option}
    (hs : List.Forall₂ Stands os opts) :
    ∃ answers, h.optionsGet (opts ++ [.terminator]) = some (answers ++ [.terminator]) ∧
      List.Forall₂ v.Gets os answers := by
  induction hs with
  | nil => exact ⟨[], rfl, .nil⟩
  | @cons o opt os opts ho _ ih =>
    obtain ⟨a, ha, hgets⟩ := hk.getOption ho
    obtain ⟨answers, hanswers, hall⟩ := ih
    refine ⟨a :: answers, ?_, .cons hgets hall⟩
    have hvalue : ¬ (opt.key = 0 ∧ opt.value = none) := by
      rw [ho.2.1]
      exact fun hend => Option.some_ne_none _ hend.2
    rw [List.cons_append, HostOptions.optionsGet, if_neg hvalue, ha, hanswers]
    rfl

def store (h : HostOptions) (value : Word) : OptionSlot → HostOptions
  | .blockLength => { h with blockLength := value }
  | .sequenceSize => { h with sequenceSize := value }
  | .sampleRate => { h with sampleRate := value }

theorem value_store (h : HostOptions) (value : Word) (slot : OptionSlot) :
    (h.store value slot).value = Function.update h.value slot value := by
  funext other
  cases slot <;> cases other <;> rfl

theorem Keeps.store (hk : h.Keeps t v) (value : Word) (slot : OptionSlot) :
    (h.store value slot).Keeps t { v with value := Function.update v.value slot value } := by
  have hvalue := value_store h value slot
  rw [hk.value_eq] at hvalue
  cases slot
  all_goals exact ⟨hk.represents, hk.knows, hk.urids, hvalue, hk.sampleRateVal⟩

/-- `options_set` takes a value exactly when the URIs, the type and the size are right. -/
theorem Keeps.setOption_eq (hk : h.Keeps t v) {o : NamedOption} {opt : LV2Option}
    (hs : Stands o opt) :
    h.setOption opt =
      match slotOf o.uri with
      | some slot =>
        if o.type = slot.type.uri ∧ o.size = 4 then some (h.store o.value slot) else some h
      | none => some h := by
  simp only [HostOptions.setOption, hk.key_iff hs, hk.type_iff hs, hs.1, hs.2.1, Option.map_some,
    slotOf]
  by_cases hblock : o.uri = HostKey.minBlockLength.uri ∨ o.uri = HostKey.maxBlockLength.uri ∨
      o.uri = HostKey.nominalBlockLength.uri
  · simp only [if_pos hblock]
    rfl
  · by_cases hsequence : o.uri = HostKey.sequenceSize.uri
    · simp only [if_neg hblock, if_pos hsequence]
      rfl
    · by_cases hrate : o.uri = HostKey.sampleRate.uri
      · simp only [if_neg hblock, if_neg hsequence, if_pos hrate]
        rfl
      · simp only [if_neg hblock, if_neg hsequence, if_neg hrate]

theorem Keeps.setOption (hk : h.Keeps t v) {o : NamedOption} {opt : LV2Option} (hs : Stands o opt) :
    ∃ h', h.setOption opt = some h' ∧ h'.Keeps t (v.set o) := by
  rw [hk.setOption_eq hs, OptionValues.set]
  cases slotOf o.uri with
  | none => exact ⟨h, rfl, hk⟩
  | some slot =>
    dsimp only
    split_ifs
    · exact ⟨_, rfl, hk.store o.value slot⟩
    · exact ⟨h, rfl, hk⟩

theorem Keeps.optionsSet (hk : h.Keeps t v) {os : List NamedOption} {opts : List LV2Option}
    (hs : List.Forall₂ Stands os opts) :
    ∃ h', h.optionsSet (opts ++ [.terminator]) = some h' ∧ h'.Keeps t (os.foldl OptionValues.set v) := by
  induction hs generalizing h v with
  | nil => exact ⟨h, rfl, hk⟩
  | @cons o opt os opts ho _ ih =>
    obtain ⟨h₁, hset, hk₁⟩ := hk.setOption ho
    obtain ⟨h₂, hrest, hk₂⟩ := ih hk₁
    have hvalue : ¬ (opt.key = 0 ∧ opt.value = none) := by
      rw [ho.2.1]
      exact fun hend => Option.some_ne_none _ hend.2
    refine ⟨h₂, ?_, hk₂⟩
    rw [List.cons_append, HostOptions.optionsSet, if_neg hvalue, hset, Option.bind_some, hrest]

/-- A constructor, the first or a later one. -/
theorem construct_keeps (floatOf : ℕ → Word) (sampleRate indeterminate : ℕ)
    (hrep : h.uridMap.Represents t) (ht : t.entries = [] ∨ KnowsHost t) (hvalue : h.value = v.value)
    (hrate : h.sampleRateVal = v.sampleRateVal) :
    ∃ t', (h.construct floatOf sampleRate indeterminate).1.Keeps t'
        (v.after floatOf (.construct sampleRate indeterminate)) ∧
      (v.after floatOf (.construct sampleRate indeterminate)).Answered
        (.construct sampleRate indeterminate)
        (.made (h.construct floatOf sampleRate indeterminate).2.1
          (h.construct floatOf sampleRate indeterminate).2.2) := by
  obtain ⟨t', m, urids, hrep', hknows, hids, hsame⟩ :=
    foldl_mapKey (h := { h with sampleRate := floatOf sampleRate })
      (show HostKey.all = [] ++ HostKey.all from rfl) hrep ht
      (fun key hkey => absurd hkey List.not_mem_nil)
  rw [construct, hsame]
  refine ⟨t', ⟨hrep', hknows, hids, ?_, ?_⟩, rfl, ?_⟩
  · funext slot
    cases slot with
    | sampleRate =>
      dsimp only [OptionValues.after]
      rw [Function.update_self]
      rfl
    | blockLength => exact congrFun hvalue .blockLength
    | sequenceSize => exact congrFun hvalue .sequenceSize
  · dsimp only [OptionValues.after]
    rw [hrate]
  · dsimp only [OptionValues.after, optionsArray, Option.map_some]
    simp only [hids, hrate, OptionValues.array]

theorem Keeps.call (hk : h.Keeps t v) (floatOf : ℕ → Word) (c : HostCall) :
    ∃ h' t' a, h.call floatOf c = some (h', a) ∧ h'.Keeps t' (v.after floatOf c) ∧
      (v.after floatOf c).Answered c a := by
  cases c with
  | construct sampleRate indeterminate =>
    obtain ⟨t', hkeeps, hanswered⟩ := construct_keeps floatOf sampleRate indeterminate hk.represents
      (.inr hk.knows) hk.value_eq hk.sampleRateVal
    exact ⟨_, t', _, rfl, hkeeps, hanswered⟩
  | map uri =>
    obtain ⟨hnext, hids⟩ := hk.map uri
    exact ⟨_, _, _, rfl, hnext, hids⟩
  | get os =>
    obtain ⟨t', opts, hnext, hopts, hstands⟩ := hk.resolve os
    obtain ⟨answers, hget, hall⟩ := hnext.optionsGet hstands
    rw [← hopts] at hget
    refine ⟨_, t', .options (answers ++ [.terminator]), ?_, hnext, answers, rfl, hall⟩
    rw [HostOptions.call, hget, Option.map_some]
  | set os =>
    obtain ⟨t', opts, hnext, hopts, hstands⟩ := hk.resolve os
    obtain ⟨h', hset, hlast⟩ := hnext.optionsSet hstands
    rw [← hopts] at hset
    refine ⟨h', t', .done, ?_, hlast, trivial⟩
    rw [HostOptions.call, hset, Option.map_some]

theorem Keeps.callAll (hk : h.Keeps t v) (floatOf : ℕ → Word) (calls : List HostCall) :
    ∃ h' answers, h.callAll floatOf calls = some (h', answers) ∧ v.Follows floatOf calls answers := by
  induction calls generalizing h t v with
  | nil => exact ⟨h, [], rfl, rfl⟩
  | cons c calls ih =>
    obtain ⟨h₁, t₁, a, hcall, hk₁, hanswered⟩ := hk.call floatOf c
    obtain ⟨h₂, answers, hcalls, hfollows⟩ := ih hk₁
    refine ⟨h₂, a :: answers, ?_, a, answers, rfl, hanswered, hfollows⟩
    simp only [HostOptions.callAll, hcall, hcalls, Option.bind_eq_bind, Option.bind_some]
    rfl

/-- The values before the first constructor. -/
def startValues (floatOf : ℕ → Word) : OptionValues where
  value
    | .blockLength => 512
    | .sequenceSize => 8192
    | .sampleRate => floatOf 48000

/-- From the first plugin of a process on: whatever plugins are made and whatever they map, get and
set, they can think of the options as values under the URIs. The ids of the host never change and belong
to no other URI, an option that is asked for has the value that was last set, under any of its URIs, or,
if it is the rate, that a later constructor was called with. But the rate that an instance is made for,
and the one in its array of options, are not the rate of the engine: they are what the members of the
new object and of the first one happened to hold. -/
theorem options_follow_values (floatOf : ℕ → Word) (sampleRate indeterminate : ℕ)
    (calls : List HostCall) :
    ∃ h answers, callAll floatOf { sampleRate := floatOf 48000 }
        (.construct sampleRate indeterminate :: calls) = some (h, answers) ∧
      (startValues floatOf).Follows floatOf (.construct sampleRate indeterminate :: calls) answers := by
  obtain ⟨t, hkeeps, hanswered⟩ := construct_keeps (h := { sampleRate := floatOf 48000 })
    (v := startValues floatOf) floatOf sampleRate indeterminate UridMap.represents_initial (.inl rfl)
    (by funext slot; cases slot <;> rfl) rfl
  obtain ⟨h, answers, hcalls, hfollows⟩ := hkeeps.callAll floatOf calls
  refine ⟨h, _ :: answers, ?_, _, answers, rfl, hanswered, hfollows⟩
  rw [callAll, call, Option.bind_eq_bind, Option.bind_some]
  dsimp only
  rw [hcalls]
  rfl

end HostOptions

end AmpRack

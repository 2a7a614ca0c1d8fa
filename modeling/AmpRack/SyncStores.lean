import AmpRack.MapExchange
import AmpRack.ImportPaths
import AmpRack.SyncFraming
import Mathlib.Data.List.AList

/-!
# Two stores of presets after a synchronisation

A store is the directory of a user's presets, a file of which is named after its preset. The client
sends its presets and imports what the server answers; the server takes the presets of its answer
before it imports those of the client. So each side writes the other's presets over its own.

The stores agree afterwards exactly when no name had two presets and no name that only one of them
had is written with an escape.
-/

namespace AmpRack

open JsonText DotPath MapExchange

/-- The files of a directory, in some order. -/
abbrev Store := AList fun _ : Text => Json

/-- A name that a file of the directory can have. -/
def isPlainName (name : Text) : Bool :=
  name != [] && name != ['.'] && name != ['.', '.'] && name.all fun c => c != '/' && c != '\x00'

namespace Store

/-- `json_to_filename`; a name that is not plain is none of a file in the directory. -/
def jsonToFilename (s : Store) (name : Text) (j : Json) : Store :=
  if isPlainName name then AList.insert name j s else s

def importPresetsFromJson (s : Store) (j : Json) : Store :=
  (Presets.importPresetsFromJson j).files.foldl (fun s file => s.jsonToFilename file.1 file.2) s

def getAllUserPresets (s : Store) : Json := AmpRack.getAllUserPresets (s.entries.map (·.2))

/-- An empty message is not imported. -/
def importMessage (s : Store) : Option Json → Store
  | none => s
  | some j => s.importPresetsFromJson j

end Store

/-- The stores of the client and the server after `sync_send` and one turn of `handle`. -/
def exchange (client server : Store) : Store × Store :=
  let toSend := server.getAllUserPresets
  let server := server.importMessage (delivered client.getAllUserPresets)
  let client := client.importMessage (delivered toSend)
  (client, server)

/-- A store as `savePreset` leaves it. -/
structure UserPresets where
  files : Store
  named : ∀ name j, files.lookup name = some j → j.get? "name".toList = some (.str name)
  plain : ∀ name ∈ files, isPlainName name = true

/-- The stores hold the same files, and every name they had. -/
structure Agree (client server : Store) (after : Store × Store) : Prop where
  same : ∀ name, after.1.lookup name = after.2.lookup name
  kept : ∀ name, name ∈ client ∨ name ∈ server → name ∈ after.1 ∧ name ∈ after.2

/-- A name that a file can have. -/
structure IsFileName (name : Text) : Prop where
  nil : name ≠ []
  dot : name ≠ ['.']
  dots : name ≠ ['.', '.']
  slash : '/' ∉ name

section Names

variable {name : Text}

theorem isFileName_of_plain (h : isPlainName name = true) : IsFileName name := by
  simp only [isPlainName, Bool.and_eq_true, bne_iff_ne, List.all_eq_true] at h
  obtain ⟨⟨⟨hnil, hdot⟩, hdots⟩, hall⟩ := h
  exact ⟨hnil, hdot, hdots, fun hmem => (hall '/' hmem).1 rfl⟩

theorem IsFileName.components (h : IsFileName name) : components name = [.down name] :=
  components_of_name h.nil h.dot h.dots h.slash

/-- A plain name is that of a file in the directory. -/
theorem directlyInside_of_isPlainName (h : isPlainName name = true) (cwd : List Text)
    (home : Text) : DirectlyInside cwd (presetsDir home) (presetsDir home ++ name) := by
  rw [directlyInside_iff, (isFileName_of_plain h).components]
  exact ⟨name, by simp [resolved, resolvedFrom]⟩

/-- Escapes are made of letters, digits, quotes and backslashes; a zero is written with one. -/
theorem IsFileName.isPlainName_escape (h : IsFileName name) :
    isPlainName (escape name) = true := by
  simp only [isPlainName, Bool.and_eq_true, bne_iff_ne, List.all_eq_true]
  have hne {t : Text} (ht : escape t = t) (hname : name ≠ t) : escape name ≠ t := by
    intro heq
    rw [← ht] at heq
    exact hname (escape_injective heq)
  refine ⟨⟨⟨hne rfl h.nil, hne rfl h.dot⟩, hne rfl h.dots⟩, fun c hc => ?_⟩
  obtain ⟨d, hd, hcd⟩ := List.mem_flatMap.mp hc
  rcases mem_escapeChar hcd with ⟨rfl, hlow⟩ | hmem
  · constructor
    · rintro rfl
      exact h.slash hd
    · rintro rfl
      exact absurd hlow (by decide)
  · have hletters : ("\"\\bfnrtu0123456789abcdef".toList.all fun c => c != '/' && c != '\x00') =
        true := by decide
    have hc := List.all_eq_true.mp hletters c hmem
    rwa [Bool.and_eq_true, bne_iff_ne, bne_iff_ne] at hc

end Names

section Import

theorem lookup_foldl_of_notMem {fs : List (Text × Json)} {name : Text} (h : name ∉ fs.map (·.1))
    (s : Store) :
    (fs.foldl (fun s file => s.jsonToFilename file.1 file.2) s).lookup name = s.lookup name := by
  induction fs generalizing s with
  | nil => rfl
  | cons f fs ih =>
    obtain ⟨hf, hfs⟩ := List.ne_and_not_mem_of_not_mem_cons h
    rw [List.foldl_cons, ih hfs, Store.jsonToFilename]
    split_ifs
    · exact AList.lookup_insert_ne hf
    · rfl

/-- Files of different names are all there in the end. -/
theorem lookup_foldl_of_mem {fs : List (Text × Json)} (hnodup : (fs.map (·.1)).Nodup)
    (hplain : ∀ f ∈ fs, isPlainName f.1 = true) {name : Text} {j : Json} (h : (name, j) ∈ fs)
    (s : Store) :
    (fs.foldl (fun s file => s.jsonToFilename file.1 file.2) s).lookup name = some j := by
  induction fs generalizing s with
  | nil => cases h
  | cons f fs ih =>
    obtain ⟨hf, hfs⟩ := List.forall_mem_cons.mp hplain
    rw [List.map_cons, List.nodup_cons] at hnodup
    rw [List.foldl_cons]
    rcases List.mem_cons.mp h with rfl | h
    · rw [lookup_foldl_of_notMem hnodup.1, Store.jsonToFilename, if_pos hf]
      exact AList.lookup_insert s
    · exact ih hnodup.2 hfs h _

theorem elements_getAllUserPresets_perm (files : List Json) :
    (elements (getAllUserPresets files)).Perm files := by
  rw [getAllUserPresets]
  by_cases h : files = []
  · rw [if_pos h, h]
    exact .refl _
  · rw [if_neg h]
    exact map_numbered_perm files

/-- Importing an empty collection does nothing either. -/
theorem importMessage_delivered (s : Store) (files : List Json) :
    s.importMessage (delivered (getAllUserPresets files)) =
      s.importPresetsFromJson (getAllUserPresets files) := by
  rw [getAllUserPresets]
  by_cases h : files = []
  · rw [if_pos h]
    rfl
  · rw [if_neg h, delivered, if_neg]
    · rfl
    · simpa [isEmpty] using numbered_ne_nil h

namespace UserPresets

variable {u : UserPresets}

/-- The presets that are sent. -/
def sent (u : UserPresets) : List Json := elements u.files.getAllUserPresets

theorem mem_sent {j : Json} : j ∈ u.sent ↔ ∃ name, u.files.lookup name = some j := by
  rw [sent, Store.getAllUserPresets, (elements_getAllUserPresets_perm _).mem_iff, List.mem_map]
  constructor
  · rintro ⟨⟨name, j⟩, hmem, rfl⟩
    exact ⟨name, AList.mem_lookup_iff.mpr hmem⟩
  · rintro ⟨name, h⟩
    exact ⟨⟨name, j⟩, AList.mem_lookup_iff.mp h, rfl⟩

theorem textOf_name {name : Text} {j : Json} (h : u.files.lookup name = some j) :
    Preset.textOf "name".toList j = name := by
  rw [Preset.textOf, u.named name j h]

/-- Names that differ are written to files that differ. -/
theorem nodup_sent : ((u.sent.map fun j => (escape (Preset.textOf "name".toList j), j)).map
    (·.1)).Nodup := by
  have hperm : (u.sent.map (Preset.textOf "name".toList)).Perm u.files.keys := by
    refine ((elements_getAllUserPresets_perm _).map _).trans (.of_eq ?_)
    rw [List.map_map, AList.keys, List.keys]
    apply List.map_congr_left
    intro e he
    exact textOf_name (AList.mem_lookup_iff.mpr he)
  rw [List.map_map]
  change (u.sent.map (escape ∘ Preset.textOf "name".toList)).Nodup
  rw [← List.map_map]
  exact (hperm.nodup_iff.mpr u.files.keys_nodup).map escape_injective

/-- Importing the presets of a store writes them over the files, each at its escaped name. -/
theorem lookup_importMessage (u : UserPresets) (s : Store) :
    (fun name => (s.importMessage (delivered u.files.getAllUserPresets)).lookup name) =
      overlay escape (fun name => s.lookup name) fun name => u.files.lookup name := by
  have hnamed : ∀ j ∈ u.sent, ∃ name, j.get? "name".toList = some (.str name) := by
    intro j hj
    obtain ⟨name, h⟩ := mem_sent.mp hj
    exact ⟨name, u.named name j h⟩
  have himport : s.importMessage (delivered u.files.getAllUserPresets) =
      (u.sent.map fun j => (escape (Preset.textOf "name".toList j), j)).foldl
        (fun s file => s.jsonToFilename file.1 file.2) s := by
    apply (importMessage_delivered s _).trans
    change (Presets.importEntries u.sent).files.foldl _ s = _
    rw [importEntries_of_named hnamed]
  have hplain : ∀ f ∈ u.sent.map fun j => (escape (Preset.textOf "name".toList j), j),
      isPlainName f.1 = true := by
    intro f hf
    obtain ⟨j, hj, rfl⟩ := List.mem_map.mp hf
    obtain ⟨name, h⟩ := mem_sent.mp hj
    rw [textOf_name h]
    have hname := isFileName_of_plain (u.plain name (AList.lookup_isSome.mp (by rw [h]; rfl)))
    exact hname.isPlainName_escape
  funext file
  rw [himport]
  by_cases hfile : ∃ name, escape name = file
  · obtain ⟨name, rfl⟩ := hfile
    rw [overlay_apply escape_injective]
    cases h : u.files.lookup name with
    | some j =>
      refine (lookup_foldl_of_mem nodup_sent hplain (List.mem_map.mpr ⟨j, ?_, ?_⟩) s).trans rfl
      · exact mem_sent.mpr ⟨name, h⟩
      · rw [textOf_name h]
    | none =>
      refine lookup_foldl_of_notMem (fun hmem => ?_) s
      simp only [List.map_map, List.mem_map, Function.comp_apply] at hmem
      obtain ⟨j, hj, heq⟩ := hmem
      obtain ⟨name', h'⟩ := mem_sent.mp hj
      rw [textOf_name h'] at heq
      rw [escape_injective heq, h] at h'
      cases h'
  · have hne : ∀ name, escape name ≠ file := fun name h => hfile ⟨name, h⟩
    rw [overlay_of_forall_ne hne]
    refine lookup_foldl_of_notMem (fun hmem => ?_) s
    simp only [List.map_map, List.mem_map, Function.comp_apply] at hmem
    obtain ⟨j, -, heq⟩ := hmem
    exact hne _ heq

end UserPresets

end Import

section Wire

/-- The exchange is what the loops on both sides come to, however the bytes are cut, as long as an
`int` holds the length of the messages. -/
theorem exchange_eq_of_splits {client server : Store} {cs ss : List SavedPreset}
    (hcs : client.entries.map (·.2) = cs.map SavedPreset.toJson)
    (hss : server.entries.map (·.2) = ss.map SavedPreset.toJson)
    (hcsfree : ∀ p ∈ cs, BraceFree 3 p.toJson.tokens)
    (hssfree : ∀ p ∈ ss, BraceFree 3 p.toJson.tokens) (hcshort : Short client.getAllUserPresets)
    (hsshort : Short server.getAllUserPresets) {sends sends' : List Sent}
    {request response : List UInt8} {recvs recvs' : List Recv}
    (hrequest : Client.sendPreset client.getAllUserPresets sends = .ok ⟨some true, request⟩)
    (hresponse : Server.sendPreset server.getAllUserPresets sends' = .ok ⟨some true, response⟩)
    (hserver : Splits request recvs) (hclient : Splits response recvs') :
    (client.importMessage (Client.imported recvs'), server.importMessage (Server.imported recvs)) =
      exchange client server := by
  rw [Store.getAllUserPresets, hcs] at hrequest hcshort
  rw [Store.getAllUserPresets, hss] at hresponse hsshort
  rw [exchange, Store.getAllUserPresets, Store.getAllUserPresets, hcs, hss,
    (imported_eq_delivered hcsfree hcshort hserver).1 hrequest,
    (imported_eq_delivered hssfree hsshort hclient).2 hresponse]

end Wire

section Exchange

variable (client server : UserPresets)

/-- The stores agree when the maps of their files are compatible. -/
theorem agree_iff_compatible :
    Agree client.files server.files (exchange client.files server.files) ↔
      Compatible escape (fun name => client.files.lookup name)
        fun name => server.files.lookup name := by
  have hclient := server.lookup_importMessage client.files
  have hserver := client.lookup_importMessage server.files
  have hiff := overlay_eq_iff (Preset.textOf "name".toList) escape_injective
    (fun _ _ h => client.textOf_name h) (fun _ _ h => server.textOf_name h)
  rw [← hclient, ← hserver] at hiff
  rw [← hiff]
  constructor
  · intro h
    funext name
    exact h.same name
  · intro h
    have hsame := congrFun h
    refine ⟨hsame, fun name hname => ?_⟩
    have hsome : ((exchange client.files server.files).1.lookup name).isSome := by
      rcases hname with hname | hname
      · have hkept := isSome_overlay escape (fun n => client.files.lookup n)
          (fun n => server.files.lookup n) (AList.lookup_isSome.mpr hname)
        rw [← hclient] at hkept
        exact hkept
      · have hkept := isSome_overlay escape (fun n => server.files.lookup n)
          (fun n => client.files.lookup n) (AList.lookup_isSome.mpr hname)
        rw [← hserver] at hkept
        exact (congrArg Option.isSome (hsame name)).trans hkept
    exact ⟨AList.lookup_isSome.mp hsome,
      AList.lookup_isSome.mp ((congrArg Option.isSome (hsame name)).symm.trans hsome)⟩

/-- Two stores agree after a synchronisation exactly when no name had two presets, and no name that
only one of them had has a quote, a backslash or a control character. -/
theorem agree_iff :
    Agree client.files server.files (exchange client.files server.files) ↔
      (∀ name j j', client.files.lookup name = some j → server.files.lookup name = some j' →
        j = j') ∧
      ∀ name, (name ∈ client.files ↔ name ∉ server.files) → name.all needsNoEscape = true := by
  have hone (name : Text) : (client.files.lookup name).isSome ≠ (server.files.lookup name).isSome ↔
      (name ∈ client.files ↔ name ∉ server.files) := by
    rw [← AList.lookup_isSome, ← AList.lookup_isSome]
    cases (client.files.lookup name).isSome <;> cases (server.files.lookup name).isSome <;> simp
  rw [agree_iff_compatible]
  constructor
  · intro h
    exact ⟨h.same, fun name hname => escape_eq_self_iff.mp (h.fixed name ((hone name).mpr hname))⟩
  · rintro ⟨hsame, hplain⟩
    exact ⟨hsame, fun name hname => escape_eq_self_iff.mpr (hplain name ((hone name).mp hname))⟩

end Exchange

section Save

def UserPresets.empty : UserPresets where
  files := ∅
  named name j h := by
    rw [AList.lookup_empty] at h
    cases h
  plain name h := absurd h (AList.notMem_empty name)

/-- Saving a preset under its name. -/
def UserPresets.savePreset (u : UserPresets) (p : SavedPreset) (hp : isPlainName p.name = true) :
    UserPresets where
  files := u.files.jsonToFilename p.name p.toJson
  named name j h := by
    rw [Store.jsonToFilename, if_pos hp] at h
    by_cases hname : name = p.name
    · rw [hname, AList.lookup_insert] at h
      cases h
      rw [hname]
      exact p.get?_name
    · rw [AList.lookup_insert_ne hname] at h
      exact u.named name j h
  plain name h := by
    rw [Store.jsonToFilename, if_pos hp, AList.mem_insert] at h
    rcases h with rfl | h
    · exact hp
    · exact u.plain name h

/-- A preset as the client has it. -/
def clientCopy : UserPresets := UserPresets.empty.savePreset (namedPreset ['a']) rfl

/-- The preset of the same name with another description. -/
def serverCopy : UserPresets :=
  UserPresets.empty.savePreset { namedPreset ['a'] with desc := ['b'] } rfl

theorem edited_on_both_sides_not_agree :
    ¬ Agree clientCopy.files serverCopy.files (exchange clientCopy.files serverCopy.files) := by
  intro h
  have hcompatible := (agree_iff_compatible clientCopy serverCopy).mp h
  have heq := hcompatible.same ['a'] _ _ (AList.lookup_insert _) (AList.lookup_insert _)
  cases heq

end Save

end AmpRack

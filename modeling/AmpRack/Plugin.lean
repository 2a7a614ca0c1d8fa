import Mathlib.Data.Rat.Defs

/-!
# Plugins, their ports and their controls

`Plugin.new` is the LV2 URI constructor: it asks lilv for an instance and walks the ports in index
order. lilv is the parameter `World`; what the constructor leaves uninitialised is read from
`World.indeterminate`, so nothing below may depend on it. A sample value is an exact rational.
-/

namespace AmpRack

abbrev Text := List Char

/-- The ways an operation can leave defined behaviour: `nullDef` and `nullTitle` are null pointers
that are followed, `uninitialised` is a call through a pointer in which nothing has been stored. -/
inductive Fault
  | outOfRange
  | arrayOverflow
  | nullDef
  | nullTitle
  | uninitialised
  deriving DecidableEq, Repr

/-- `PluginControl::Type`. A value outside the enumeration is told apart by no comparison of the
program, and stands among the first three. -/
inductive ControlType
  | float
  | int
  | toggle
  | atom
  | lv2AtomInputPort
  | lv2AtomOutputPort
  deriving DecidableEq, Repr

/-- `val` is the interface's copy; `defValue` is what `def` points to, `none` for a null `def`. -/
structure PluginControl where
  type : ControlType
  min : ℚ
  max : ℚ
  val : ℚ
  defValue : Option ℚ
  deriving DecidableEq, Repr

structure LilvPort where
  isAudio : Bool := false
  isControl : Bool := false
  isAtom : Bool := false
  isInput : Bool := false
  isOutput : Bool := false
  min : ℚ := 0
  max : ℚ := 1
  dflt : ℚ := 0

/-- Memory that `new PluginControl` and `malloc` leave as they found it. -/
structure Indeterminate where
  type : ControlType
  min : ℚ
  max : ℚ
  val : ℚ

/-- `lilv` lists the ports of the plugin with the given URI if lilv can instantiate it;
`indeterminate` is indexed by the plugin object and the port. -/
structure World where
  lilv : Text → Option (List LilvPort)
  indeterminate : ℕ → ℕ → Indeterminate

/-- The first two audio ports of either direction. -/
structure NotedPorts where
  inputPort : ℤ := -1
  inputPort2 : ℤ := -1
  outputPort : ℤ := -1
  outputPort2 : ℤ := -1
  deriving DecidableEq, Repr

/-- `id` is the object's identity; a plugin whose construction failed has a null `uri`. The pointers
`descriptor` and `handle` are `none` as long as nothing is stored in them. -/
structure Plugin extends NotedPorts where
  id : ℕ
  uri : Option Text := none
  inst : Option ℕ := none
  descriptor : Option ℕ := none
  handle : Option ℕ := none
  lv2Name : Text := []
  active : Bool := true
  pluginControls : List PluginControl := []
  loadedFileName : Text := []
  loadedFileType : ℤ := -1
  deriving DecidableEq, Repr

namespace PluginControl

/-- A control input port. The constructor sets neither `type` nor `val`. -/
def ofControlPort (junk : Indeterminate) (port : LilvPort) : PluginControl where
  type := junk.type
  min := port.min
  max := port.max
  val := junk.val
  defValue := some port.dflt

def ofAtomPort (junk : Indeterminate) (port : LilvPort) : PluginControl where
  type := if port.isInput then .lv2AtomInputPort else .lv2AtomOutputPort
  min := junk.min
  max := junk.max
  val := junk.val
  defValue := none

end PluginControl

namespace NotedPorts

def addOutputPort (s : NotedPorts) (port : ℤ) : NotedPorts :=
  if s.outputPort = -1 then { s with outputPort := port }
  else if s.outputPort2 = -1 then { s with outputPort2 := port }
  else s

def addInputPort (s : NotedPorts) (port : ℤ) : NotedPorts :=
  if s.inputPort = -1 then { s with inputPort := port }
  else if s.inputPort2 = -1 then { s with inputPort2 := port }
  else s

end NotedPorts

namespace Plugin

def pushControl (p : Plugin) (c : PluginControl) : Plugin :=
  { p with pluginControls := p.pluginControls ++ [c] }

/-- One turn of the constructor's loop over the ports. -/
def addPort (w : World) (p : Plugin) (i : ℕ) (port : LilvPort) : Plugin :=
  if port.isAudio then
    if port.isOutput then { p with toNotedPorts := p.addOutputPort i }
    else if port.isInput then { p with toNotedPorts := p.addInputPort i }
    else p
  else if port.isControl then
    if port.isInput then p.pushControl (.ofControlPort (w.indeterminate p.id i) port) else p
  else if port.isAtom then p.pushControl (.ofAtomPort (w.indeterminate p.id i) port)
  else p

def addPorts (w : World) (p : Plugin) (i : ℕ) : List LilvPort → Plugin
  | [] => p
  | port :: ports => addPorts w (p.addPort w i port) (i + 1) ports

/-- `Plugin::Plugin (char * _uri, ...)`. The constructor sets `type` to `LILV`, and never `lv2_name`,
`descriptor` and `handle`. -/
def new (w : World) (id : ℕ) (uri : Text) : Plugin :=
  match w.lilv uri with
  | none => { id := id }
  | some ports => addPorts w { id := id, uri := some uri, inst := some id } 0 ports

/-- The fields that walking the ports leaves alone. -/
structure SameObject (p q : Plugin) : Prop where
  id : q.id = p.id
  uri : q.uri = p.uri
  inst : q.inst = p.inst
  descriptor : q.descriptor = p.descriptor
  handle : q.handle = p.handle
  lv2Name : q.lv2Name = p.lv2Name
  active : q.active = p.active
  loadedFileName : q.loadedFileName = p.loadedFileName
  loadedFileType : q.loadedFileType = p.loadedFileType

theorem SameObject.refl (p : Plugin) : SameObject p p :=
  ⟨rfl, rfl, rfl, rfl, rfl, rfl, rfl, rfl, rfl⟩

theorem SameObject.trans {p q r : Plugin} (h : SameObject p q) (h' : SameObject q r) :
    SameObject p r :=
  ⟨h'.id.trans h.id, h'.uri.trans h.uri, h'.inst.trans h.inst, h'.descriptor.trans h.descriptor,
    h'.handle.trans h.handle, h'.lv2Name.trans h.lv2Name, h'.active.trans h.active,
    h'.loadedFileName.trans h.loadedFileName, h'.loadedFileType.trans h.loadedFileType⟩

theorem addPort_sameObject (w : World) (p : Plugin) (i : ℕ) (port : LilvPort) :
    SameObject p (p.addPort w i port) := by
  unfold addPort pushControl
  split_ifs <;> exact ⟨rfl, rfl, rfl, rfl, rfl, rfl, rfl, rfl, rfl⟩

theorem addPorts_sameObject (w : World) (p : Plugin) (i : ℕ) (ports : List LilvPort) :
    SameObject p (p.addPorts w i ports) := by
  induction ports generalizing p i with
  | nil => exact .refl p
  | cons port ports ih => exact (p.addPort_sameObject w i port).trans (ih _ _)

variable {w : World} {uri : Text}

theorem new_of_none (h : w.lilv uri = none) (id : ℕ) : new w id uri = { id := id } := by
  simp only [new, h]

theorem new_of_some {ports : List LilvPort} (h : w.lilv uri = some ports) (id : ℕ) :
    SameObject { id := id, uri := some uri, inst := some id } (new w id uri) := by
  simp only [new, h]
  exact addPorts_sameObject w _ 0 ports

@[simp] theorem new_id (w : World) (id : ℕ) (uri : Text) : (new w id uri).id = id := by
  cases h : w.lilv uri with
  | none => rw [new_of_none h]
  | some ports => exact (new_of_some h id).id

@[simp] theorem new_active (w : World) (id : ℕ) (uri : Text) : (new w id uri).active = true := by
  cases h : w.lilv uri with
  | none => rw [new_of_none h]
  | some ports => exact (new_of_some h id).active

@[simp] theorem new_handle (w : World) (id : ℕ) (uri : Text) : (new w id uri).handle = none := by
  cases h : w.lilv uri with
  | none => rw [new_of_none h]
  | some ports => exact (new_of_some h id).handle

@[simp] theorem new_loadedFileName (w : World) (id : ℕ) (uri : Text) :
    (new w id uri).loadedFileName = [] := by
  cases h : w.lilv uri with
  | none => rw [new_of_none h]
  | some ports => exact (new_of_some h id).loadedFileName

@[simp] theorem new_lv2Name (w : World) (id : ℕ) (uri : Text) : (new w id uri).lv2Name = [] := by
  cases h : w.lilv uri with
  | none => rw [new_of_none h]
  | some ports => exact (new_of_some h id).lv2Name

theorem new_uri_isSome (w : World) (id : ℕ) (uri : Text) :
    (new w id uri).uri.isSome = (w.lilv uri).isSome := by
  cases h : w.lilv uri with
  | none => rw [new_of_none h]; rfl
  | some ports => rw [(new_of_some h id).uri]; rfl

end Plugin

end AmpRack

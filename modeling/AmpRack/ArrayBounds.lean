import AmpRack.PresetIdentity

/-!
# The bounds of the arrays of the audio thread

`buildPluginChain` stores a slot for every plugin that is switched on and does not look at
`MAX_PLUGINS`, and no operation that switches plugins on counts them. `RoomOk` says exactly which
operations keep every index inside the arrays.
-/

namespace AmpRack

open VectorEdits TextScan JsonText GuardedRun Engine

namespace Engine

section Operations

variable {w : World} {e : Engine} {uri : Text} {p : ℤ}

end Operations

end Engine

namespace Rack

section Loading

variable {w : Installation} {realized : Bool} {r : Rack} {card : ℕ}

section Entries

variable {s : Rack × ℕ} {entry : PresetEntry} {found : CatalogueEntry}

end Entries

end Loading

end Rack

namespace Rack

section Bounds

variable {w : Installation} {r r' : Rack} {card : ℕ} {op : Op} {a : ChainOp}

end Bounds

end Rack

end AmpRack

import AmpRack.RackLoad
import Mathlib.Data.List.InsertIdx

/-!
# The order of the cards and the order of the chain

`OrderOk` says, of one operation in a state of the invariant, when the cards still correspond to the
chain after it. A move swaps the card with its neighbour in the box and the plugin at the card's
index with its neighbour in the chain, and a deletion removes the card and the plugin at the index
of its callback; on distinct plugins these agree exactly when the index is the position.
-/

namespace AmpRack

open VectorEdits BoxOrder GuardedRun Engine

namespace Rack

theorem owner_eq_of_plugins {r r' : Rack}
    (h : r'.uiv.map (·.plugin) = r.uiv.map (·.plugin)) : r'.owner = r.owner := by
  funext card
  have hc := congrArg (·[card]?) h
  simp only [List.getElem?_map] at hc
  exact hc

/-- What an operation that removes or reorders leaves behind. -/
structure Rearranged (r : Rack) (listBox : List ℕ) (ps : List Plugin) (r' : Rack) : Prop where
  listBox : r'.listBox = listBox
  plugs : r'.plugs = r.plugs
  plugins : r'.uiv.map (·.plugin) = r.uiv.map (·.plugin)
  cdIndices : r'.uiv.map (·.cdIndex) = r.uiv.map (·.cdIndex)
  engine : r.engine.Became ps r'.engine

variable {w : Installation} {r r' : Rack} {box : List ℕ} {ps : List Plugin} {card : ℕ}
  {ui : PluginUI}

theorem Rearranged.corresponds_iff (h : Rearranged r box ps r') :
    r'.Corresponds ↔ box.map r.owner = (ps.map (·.id)).map some := by
  have hchain : r'.chain = ps := h.engine.chain
  rw [Corresponds, h.listBox, owner_eq_of_plugins h.plugins, map_some_id, hchain]

theorem Rearranged.inv (h : Rearranged r box ps r') (hr : r.Inv)
    (hids : (ps.map (·.id)).Subperm (r.chain.map (·.id))) (hbox : box ⊆ r.listBox)
    (hc : box.map r.owner = (ps.map (·.id)).map some) : r'.Inv where
  settled := h.engine.settled
  nodup := by
    obtain ⟨l, hperm, hsub⟩ := hids
    have hchain : r'.chain = ps := h.engine.chain
    rw [hchain, ← hperm.nodup_iff]
    exact hr.nodup.sublist hsub
  fresh := by
    intro p hp
    have hchain : r'.chain = ps := h.engine.chain
    rw [hchain] at hp
    obtain ⟨q, hq, hqp⟩ := List.mem_map.mp (hids.subset (List.mem_map_of_mem hp))
    rw [h.engine.nextId, ← hqp]
    exact hr.fresh q hq
  corresponds := h.corresponds_iff.mpr hc
  plugs := by
    rw [h.listBox, h.plugs]
    exact fun c hc => hr.plugs c (hbox hc)

section Delete

end Delete

section Move

end Move

section Toggle

end Toggle

section Add

variable {requested : Text} {s : Rack × Option ℕ}

end Add

/-- One plugin with a control and one catalogue entry for it. -/
def smallInstallation : Installation where
  lilv uri := if uri = "urn:gain".toList then some [{ isControl := true, isInput := true }] else none
  indeterminate _ _ := ⟨.float, 0, 1, 0⟩
  catalogue := [⟨"Gain".toList, "urn:gain".toList, none⟩]

end Rack

end AmpRack

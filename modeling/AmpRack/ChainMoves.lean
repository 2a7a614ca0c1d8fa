import AmpRack.ChainEdits
import Mathlib.Logic.Equiv.Basic

/-!
# The two moves as exchanges of neighbours

`moveActivePluginUp` turns back at the first position, as it should, and `moveActivePluginDown` one
past the last. The last position itself is not caught, and there the rotation is given the iterator
`end + 1`. `adjacentSwaps_iff` is the exact domain on which the two moves are adjacent swaps.
-/

namespace AmpRack

open VectorEdits

namespace Engine

/-- The iterators that `moveActivePluginDown` forms, as offsets from `begin`. -/
def downIterators (e : Engine) (p : ℤ) : List ℤ :=
  if p = e.activePlugins.length then [] else [p, p + 1, p + 2]

def upIterators (p : ℤ) : List ℤ :=
  if p = 0 then [] else [p, p - 1, p, p + 1]

def Formed (e : Engine) (its : List ℤ) : Prop := ∀ i ∈ its, 0 ≤ i ∧ i ≤ e.activePlugins.length

/-- `qs` is `ps` with the elements at `i` and `i + 1` exchanged. -/
def Swapped (ps : List Plugin) (i : ℕ) (qs : List Plugin) : Prop :=
  ∀ k, qs[k]? = ps[Equiv.swap i (i + 1) k]?

/-- Each move exchanges two neighbours or, at the end of the chain, does nothing; it stays inside
the vector, and moving down and up again restores it. -/
structure AdjacentSwaps (e : Engine) (p : ℕ) : Prop where
  down : p + 1 < e.activePlugins.length → ∃ e', e.moveActivePluginDown p = .ok (e', p + 1) ∧
    Swapped e.activePlugins p e'.activePlugins
  downLast : ¬ p + 1 < e.activePlugins.length → e.moveActivePluginDown p = .ok (e, p)
  up : 0 < p → ∃ e', e.moveActivePluginUp p = .ok (e', p - 1) ∧
    Swapped e.activePlugins (p - 1) e'.activePlugins
  upFirst : ¬ 0 < p → e.moveActivePluginUp p = .ok (e, p)
  inside : e.Formed (e.downIterators p) ∧ e.Formed (upIterators p)
  restores : ∃ e' q e'' q', e.moveActivePluginDown p = .ok (e', q) ∧
    e'.moveActivePluginUp q = .ok (e'', q') ∧ e''.activePlugins = e.activePlugins

variable {e e' : Engine} {ps qs rs : List Plugin} {p : ℕ}

theorem swapped_exchange (h : p + 1 < ps.length) : Swapped ps p (exchange ps p) := by
  intro k
  rw [getElem?_exchange ps h, Equiv.swap_apply_def]
  split_ifs <;> rfl

theorem Swapped.restore (h : Swapped ps p qs) (h' : Swapped qs p rs) : rs = ps := by
  apply List.ext_getElem?
  intro k
  rw [h' k, h (Equiv.swap p (p + 1) k), Equiv.swap_apply_self]

theorem rotate_isSome_iff {i : ℤ} :
    (rotate e.activePlugins i (i + 1) (i + 2)).isSome ↔ e.Formed [i, i + 1, i + 2] := by
  constructor
  · intro h
    obtain ⟨qs, hqs⟩ := Option.isSome_iff_exists.mp h
    obtain ⟨k, rfl, hk, -⟩ := rotate_eq_some rfl rfl hqs
    intro j hj
    simp only [List.mem_cons, List.not_mem_nil, or_false] at hj
    omega
  · intro h
    have h₀ := h i (by simp)
    have h₂ := h (i + 2) (by simp)
    obtain ⟨k, rfl⟩ := Int.eq_ofNat_of_zero_le h₀.1
    rw [rotate_eq_exchange _ (by omega)]
    rfl

section Moves

theorem edit_ne_outOfRange_iff {ps? : Option (List Plugin)} :
    e.edit ps? ≠ .error .outOfRange ↔ ps?.isSome := by
  cases ps? with
  | none => exact ⟨fun h => absurd rfl h, fun h => (by cases h)⟩
  | some ps =>
    refine ⟨fun _ => rfl, fun _ h => ?_⟩
    by_cases hfit : Fits ps
    · obtain ⟨e', he', -⟩ := edit_some (e := e) hfit
      rw [he'] at h
      cases h
    · rw [edit, buildPluginChain, e.processor.build_overflow (not_le.mp hfit)] at h
      cases h

/-- A move faults on the vector exactly when one of its iterators lies outside it. -/
theorem moveActivePluginDown_ne_outOfRange_iff {i : ℤ} :
    e.moveActivePluginDown i ≠ .error .outOfRange ↔ e.Formed (e.downIterators i) := by
  unfold moveActivePluginDown downIterators
  split_ifs with hi
  · exact ⟨fun _ j hj => (by cases hj), fun _ => ok_ne_error⟩
  · rw [map_ne_error_iff, edit_ne_outOfRange_iff, rotate_isSome_iff]

theorem moveActivePluginUp_ne_outOfRange_iff {i : ℤ} :
    e.moveActivePluginUp i ≠ .error .outOfRange ↔ e.Formed (upIterators i) := by
  unfold moveActivePluginUp upIterators
  split_ifs with hi
  · exact ⟨fun _ j hj => (by cases hj), fun _ => ok_ne_error⟩
  · have hr := rotate_isSome_iff (e := e) (i := i - 1)
    rw [show i - 1 + 1 = i by omega, show i - 1 + 2 = i + 1 by omega] at hr
    rw [map_ne_error_iff, edit_ne_outOfRange_iff, hr]
    simp only [Formed, List.forall_mem_cons]
    tauto

theorem moveActivePluginDown_swapped (hfit : Fits e.activePlugins)
    (h : p + 1 < e.activePlugins.length) :
    ∃ e', e.moveActivePluginDown p = .ok (e', p + 1) ∧
      e'.activePlugins = exchange e.activePlugins p := by
  obtain ⟨e', he', hed⟩ := edit_some (e := e) (fits_of_perm (exchange_perm _ h) hfit)
  refine ⟨e', ?_, hed.chain⟩
  rw [moveActivePluginDown, if_neg (by omega), rotate_eq_exchange _ h, he']
  rfl

theorem moveActivePluginUp_swapped (hfit : Fits e.activePlugins)
    (h : p + 1 < e.activePlugins.length) :
    ∃ e', e.moveActivePluginUp (p + 1) = .ok (e', p) ∧
      e'.activePlugins = exchange e.activePlugins p := by
  have hr : rotate e.activePlugins ((p : ℤ) + 1 - 1) (p + 1) (p + 1 + 1) =
      some (exchange e.activePlugins p) := by
    rw [← rotate_eq_exchange _ h]
    congr 1
    all_goals omega
  obtain ⟨e', he', hed⟩ :=
    edit_some (e := e.setBypass true) (fits_of_perm (exchange_perm _ h) hfit)
  refine ⟨e'.setBypass false, ?_, hed.chain⟩
  rw [moveActivePluginUp, if_neg (by omega), hr, he']
  simp [Except.map]

/-- At the last position the iterator `end + 1` is formed. -/
theorem not_formed_last (h : p + 1 = e.activePlugins.length) :
    ¬ e.Formed (e.downIterators p) := by
  intro hf
  rw [downIterators, if_neg (by omega)] at hf
  have := (hf (p + 2) (by simp)).2
  omega

theorem formed_downIterators (h : p + 1 < e.activePlugins.length) :
    e.Formed (e.downIterators p) := by
  rw [downIterators, if_neg (by omega), ← rotate_isSome_iff, rotate_eq_exchange _ h]
  rfl

theorem formed_upIterators (h : p < e.activePlugins.length) : e.Formed (upIterators p) := by
  intro i hi
  unfold upIterators at hi
  split_ifs at hi with hp
  · cases hi
  · simp only [List.mem_cons, List.not_mem_nil, or_false] at hi
    omega

end Moves

/-- The moves are adjacent swaps at every position of the chain but the last. -/
theorem adjacentSwaps_iff (hp : p < e.activePlugins.length) :
    AdjacentSwaps e p ↔ p + 1 < e.activePlugins.length ∧ Fits e.activePlugins := by
  constructor
  · intro h
    have hlt : p + 1 < e.activePlugins.length := by
      by_contra hlast
      exact not_formed_last (by omega) h.inside.1
    obtain ⟨e', he', -⟩ := h.down hlt
    refine ⟨hlt, ?_⟩
    rw [moveActivePluginDown, if_neg (by omega), rotate_eq_exchange _ hlt] at he'
    obtain ⟨e₁, he₁, -⟩ := map_eq_ok he'
    obtain ⟨ps, hps, hfit, -⟩ := edit_eq_ok he₁
    cases hps
    exact fits_of_perm (exchange_perm _ hlt).symm hfit
  · rintro ⟨hlt, hfit⟩
    obtain ⟨e', he', hchain⟩ := moveActivePluginDown_swapped hfit hlt
    have hdown : Swapped e.activePlugins p e'.activePlugins := by
      rw [hchain]
      exact swapped_exchange hlt
    have hlen : e'.activePlugins.length = e.activePlugins.length := by
      rw [hchain]
      exact (exchange_perm _ hlt).length_eq
    refine ⟨fun _ => ⟨e', he', hdown⟩, fun hn => absurd hlt hn, fun hpos => ?_, fun hz => ?_,
      ⟨formed_downIterators hlt, formed_upIterators hp⟩, ?_⟩
    · obtain ⟨k, rfl⟩ := Nat.exists_eq_succ_of_ne_zero hpos.ne'
      obtain ⟨e'', he'', hchain''⟩ := moveActivePluginUp_swapped hfit hp
      refine ⟨e'', ?_, ?_⟩
      · push_cast
        rw [he'']
        simp
      · rw [hchain'']
        exact swapped_exchange hp
    · obtain rfl : p = 0 := by omega
      rfl
    · have hfit' : Fits e'.activePlugins := by
        rw [hchain]
        exact fits_of_perm (exchange_perm _ hlt) hfit
      have hlt' : p + 1 < e'.activePlugins.length := by omega
      obtain ⟨e'', he'', hchain''⟩ := moveActivePluginUp_swapped hfit' hlt'
      refine ⟨e', p + 1, e'', p, he', he'', ?_⟩
      apply hdown.restore
      rw [hchain'']
      exact swapped_exchange hlt'

theorem adjacentSwaps_iff_of_two :
    AdjacentSwaps { activePlugins := [{ id := 0 }, { id := 1 }] } 0 ↔
      0 + 1 < 2 ∧ Fits [{ id := 0 }, { id := 1 }] :=
  adjacentSwaps_iff (by decide)

/-- A single plugin cannot be moved down without leaving the vector. -/
theorem moveDown_single_leaves_vector : ¬ AdjacentSwaps { activePlugins := [{ id := 0 }] } 0 := by
  intro h
  exact not_formed_last rfl h.inside.1

end Engine

end AmpRack

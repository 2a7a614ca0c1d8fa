import Mathlib.Logic.Function.Basic

/-!
# Two partial maps that overwrite each other

`overlay e old new` is `old` with the entries of `new` written over it, the entry of `k` at the place
`e k`. Two parties that overlay each other's maps end with the same map exactly when no key has two
values and the keys that only one of them has keep their places. A value must tell its key.
-/

namespace MapExchange

variable {K V : Type*}

noncomputable def overlay (e : K → K) (old new : K → Option V) (k : K) : Option V :=
  (Function.extend e new (fun _ => none) k).or (old k)

section Overlay

variable {e : K → K} {old new : K → Option V}

theorem overlay_apply (he : Function.Injective e) (k : K) :
    overlay e old new (e k) = (new k).or (old (e k)) := by
  rw [overlay, he.extend_apply]

theorem overlay_of_forall_ne {k : K} (h : ∀ k', e k' ≠ k) : overlay e old new k = old k := by
  rw [overlay, Function.extend_apply' _ _ _ fun ⟨k', hk'⟩ => h k' hk', Option.none_or]

/-- Nothing is lost, though it may be overwritten. -/
theorem isSome_overlay (e : K → K) (old new : K → Option V) {k : K} (h : (old k).isSome) :
    (overlay e old new k).isSome := by
  rw [overlay, Option.isSome_or, h, Bool.or_true]

end Overlay

/-- No key has two values, and the keys of one map only keep their places. -/
structure Compatible (e : K → K) (c s : K → Option V) : Prop where
  same : ∀ k v v', c k = some v → s k = some v' → v = v'
  fixed : ∀ k, (c k).isSome ≠ (s k).isSome → e k = k

section Exchange

variable {e : K → K} {key : V → K} {c s : K → Option V}

theorem Compatible.symm (h : Compatible e c s) : Compatible e s c :=
  ⟨fun k v v' hs hc => (h.same k v' v hc hs).symm, fun k hk => h.fixed k (Ne.symm hk)⟩

/-- A key of one map only keeps its place, where nothing else can be written. -/
theorem fixed_of_overlay_eq (he : Function.Injective e) (hc : ∀ k v, c k = some v → key v = k)
    (h : overlay e c s = overlay e s c) {k : K} {v : V} (hk : c k = some v) (hs : s k = none) :
    e k = k := by
  have hplace := congrFun h (e k)
  rw [overlay_apply he, overlay_apply he, hk, hs, Option.none_or, Option.some_or] at hplace
  exact (hc (e k) v hplace).symm.trans (hc k v hk)

theorem compatible_of_overlay_eq (he : Function.Injective e)
    (hc : ∀ k v, c k = some v → key v = k) (hs : ∀ k v, s k = some v → key v = k)
    (h : overlay e c s = overlay e s c) : Compatible e c s := by
  constructor
  · intro k v v' hv hv'
    have hplace := congrFun h (e k)
    rw [overlay_apply he, overlay_apply he, hv, hv', Option.some_or, Option.some_or] at hplace
    exact (Option.some.inj hplace).symm
  · intro k hk
    cases hv : c k with
    | none =>
      cases hv' : s k with
      | none =>
        rw [hv, hv'] at hk
        exact absurd rfl hk
      | some v' => exact fixed_of_overlay_eq he hs h.symm hv' hv
    | some v =>
      cases hv' : s k with
      | none => exact fixed_of_overlay_eq he hc h hv hv'
      | some v' =>
        rw [hv, hv'] at hk
        exact absurd rfl hk

/-- A key that does not keep its place is in both maps or in none. -/
theorem Compatible.apply_eq (h : Compatible e c s) {k : K} (hk : e k ≠ k) : c k = s k := by
  have hsome : (c k).isSome = (s k).isSome := not_not.mp fun hne => hk (h.fixed k hne)
  cases hc : c k with
  | none =>
    rw [hc] at hsome
    exact (Option.isNone_iff_eq_none.mp (by rw [← Option.not_isSome, ← hsome]; rfl)).symm
  | some v =>
    rw [hc] at hsome
    obtain ⟨v', hs⟩ := Option.isSome_iff_exists.mp hsome.symm
    rw [hs, h.same k v v' hc hs]

/-- Where only one map has the key, its place has one value on both sides. -/
theorem overlay_apply_eq_of_none (he : Function.Injective e) (h : Compatible e c s) {k : K} {v : V}
    (hk : c k = some v) (hs : s k = none) : overlay e c s (e k) = overlay e s c (e k) := by
  have hfix : e k = k := by
    apply h.fixed k
    simp [hk, hs]
  rw [overlay_apply he, overlay_apply he, hs, hk, hfix, hk, Option.none_or, Option.some_or]

theorem overlay_eq_of_compatible (he : Function.Injective e) (h : Compatible e c s) :
    overlay e c s = overlay e s c := by
  funext f
  by_cases hf : ∃ k, e k = f
  · obtain ⟨k, rfl⟩ := hf
    cases hc : c k with
    | none =>
      cases hs : s k with
      | none =>
        rw [overlay_apply he, overlay_apply he, hc, hs, Option.none_or, Option.none_or]
        by_cases hfix : e (e k) = e k
        · rw [he hfix, hc, hs]
        · exact h.apply_eq hfix
      | some v' => exact (overlay_apply_eq_of_none he h.symm hs hc).symm
    | some v =>
      cases hs : s k with
      | none => exact overlay_apply_eq_of_none he h hc hs
      | some v' =>
        rw [overlay_apply he, overlay_apply he, hc, hs, Option.some_or, Option.some_or,
          h.same k v v' hc hs]
  · have hne : ∀ k, e k ≠ f := fun k hk => hf ⟨k, hk⟩
    rw [overlay_of_forall_ne hne, overlay_of_forall_ne hne]
    exact h.apply_eq (hne f)

/-- Exchanging the maps makes them equal exactly when they are compatible. -/
theorem overlay_eq_iff (key : V → K) (he : Function.Injective e)
    (hc : ∀ k v, c k = some v → key v = k) (hs : ∀ k v, s k = some v → key v = k) :
    overlay e c s = overlay e s c ↔ Compatible e c s :=
  ⟨compatible_of_overlay_eq he hc hs, overlay_eq_of_compatible he⟩

end Exchange

end MapExchange

import Mathlib.Data.List.Induction

/-!
# What the last event of a kind has set

Many things a program keeps are overwritten whole by some kind of input and left alone by all the
others. `LastOf kind P as` says that `P` holds of the last input of the kind, together with the
inputs in front of it; it holds when there was none. `iff_lastOf_foldl` is the rule for runs.
-/

namespace LastEvent

variable {σ ι : Type*}

def LastOf (kind : ι → Prop) (P : List ι → ι → Prop) (as : List ι) : Prop :=
  ∀ before a after, as = before ++ a :: after → kind a → (∀ x ∈ after, ¬ kind x) → P before a

variable {kind : ι → Prop} {P : List ι → ι → Prop} {l : List ι} {a : ι}

theorem lastOf_nil (kind : ι → Prop) (P : List ι → ι → Prop) : LastOf kind P [] := by
  intro before a after h
  exact absurd h.symm (List.append_ne_nil_of_right_ne_nil _ (List.cons_ne_nil _ _))

theorem lastOf_concat (h : kind a) : LastOf kind P (l ++ [a]) ↔ P l a := by
  constructor
  · intro hlast
    exact hlast l a [] rfl h (by simp)
  · intro hP before x after heq hx hafter
    induction after using List.reverseRecOn with
    | nil =>
      obtain ⟨rfl, hax⟩ := List.append_inj' heq rfl
      cases hax
      exact hP
    | append_singleton ys y _ =>
      rw [← List.cons_append, ← List.append_assoc] at heq
      obtain ⟨-, hay⟩ := List.append_inj' heq rfl
      cases hay
      exact absurd h (hafter a (by simp))

theorem lastOf_concat_of_not (h : ¬ kind a) : LastOf kind P (l ++ [a]) ↔ LastOf kind P l := by
  constructor
  · intro hlast before x after heq hx hafter
    apply hlast before x (after ++ [a])
    · rw [heq, List.append_assoc, List.cons_append]
    · exact hx
    · intro y hy
      cases List.mem_append.mp hy with
      | inl hy => exact hafter y hy
      | inr hy => rwa [List.mem_singleton.mp hy]
  · intro hlast before x after heq hx hafter
    induction after using List.reverseRecOn with
    | nil =>
      obtain ⟨-, hay⟩ := List.append_inj' heq rfl
      cases hay
      exact absurd hx h
    | append_singleton ys y _ =>
      rw [← List.cons_append, ← List.append_assoc] at heq
      obtain ⟨rfl, -⟩ := List.append_inj' heq rfl
      exact hlast before x ys rfl hx fun z hz => hafter z (List.mem_append_left _ hz)

/-- `Q` holds after some inputs exactly when the last one of the kind has set it so. -/
theorem iff_lastOf_foldl {f : σ → ι → σ} {Q : σ → Prop} {s : σ} (hs : Q s)
    (hset : ∀ (as : List ι) a, kind a → (Q (f (as.foldl f s) a) ↔ P as a))
    (hkeep : ∀ (as : List ι) a, ¬ kind a → (Q (f (as.foldl f s) a) ↔ Q (as.foldl f s)))
    (as : List ι) : Q (as.foldl f s) ↔ LastOf kind P as := by
  induction as using List.reverseRecOn with
  | nil => exact iff_of_true hs (lastOf_nil kind P)
  | append_singleton as a ih =>
    rw [List.foldl_append, List.foldl_cons, List.foldl_nil]
    by_cases hk : kind a
    · rw [lastOf_concat hk, hset as a hk]
    · rw [lastOf_concat_of_not hk, hkeep as a hk, ih]

end LastEvent

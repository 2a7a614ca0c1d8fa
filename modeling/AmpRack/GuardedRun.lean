import Mathlib.Data.List.Infix

/-!
# Runs of a step function that can fault

A step function `σ → ι → Except ε σ` either moves to the next state or stops with a fault.
`run` executes a list of inputs. `Always P` says that no prefix of the inputs faults and that `P`
holds in the state after each of them; `Safe Bad P` tells the faults apart: a run may stop, only not
with one of `Bad`. `Admits G` says that the guard `G` holds before each step the run takes.

The rules below reduce statements about whole runs to one step: an invariant kept by guarded steps
holds throughout, and a guard that is exact on the invariant states is exact for runs.
-/

namespace GuardedRun

variable {σ ι ε : Type*}

def run (step : σ → ι → Except ε σ) (s : σ) (as : List ι) : Except ε σ := as.foldlM step s

def Always (step : σ → ι → Except ε σ) (P : σ → Prop) (s : σ) (as : List ι) : Prop :=
  ∀ bs, bs <+: as → ∃ s', run step s bs = .ok s' ∧ P s'

def Safe (step : σ → ι → Except ε σ) (Bad : ε → Prop) (P : σ → Prop) (s : σ) (as : List ι) : Prop :=
  ∀ bs, bs <+: as →
    (∀ s', run step s bs = .ok s' → P s') ∧ ∀ e, run step s bs = .error e → ¬ Bad e

def Admits (step : σ → ι → Except ε σ) (G : σ → ι → Prop) (s : σ) (as : List ι) : Prop :=
  ∀ bs a, bs ++ [a] <+: as → ∀ s', run step s bs = .ok s' → G s' a

variable {step : σ → ι → Except ε σ} {Bad : ε → Prop} {P Inv : σ → Prop} {G : σ → ι → Prop}

@[simp] theorem run_nil (s : σ) : run step s [] = .ok s := rfl

theorem run_cons_ok {s s' : σ} {a : ι} (h : step s a = .ok s') (as : List ι) :
    run step s (a :: as) = run step s' as := by
  simp only [run, List.foldlM_cons, h]
  rfl

theorem run_cons_error {s : σ} {a : ι} {e : ε} (h : step s a = .error e) (as : List ι) :
    run step s (a :: as) = .error e := by
  simp only [run, List.foldlM_cons, h]
  rfl

theorem run_concat {s s' s'' : σ} {as : List ι} {a : ι} (h : run step s as = .ok s')
    (ha : step s' a = .ok s'') : run step s (as ++ [a]) = .ok s'' := by
  simp only [run, List.foldlM_append] at h ⊢
  rw [h]
  exact run_cons_ok ha []

theorem exists_of_bind_ok {α β : Type*} {x : Except ε α} {f : α → Except ε β} {b : β}
    (h : x.bind f = .ok b) : ∃ a, x = .ok a ∧ f a = .ok b := by
  cases x with
  | error e => cases h
  | ok a => exact ⟨a, rfl, h⟩

/-- What every step that goes through keeps holds where a run ends. -/
theorem inv_of_run (hstep : ∀ s a s', Inv s → step s a = .ok s' → Inv s') {s s' : σ} {as : List ι}
    (hs : Inv s) (h : run step s as = .ok s') : Inv s' := by
  induction as generalizing s with
  | nil =>
    cases h
    exact hs
  | cons a as ih =>
    cases ha : step s a with
    | error e =>
      rw [run_cons_error ha] at h
      cases h
    | ok t =>
      rw [run_cons_ok ha] at h
      exact ih (hstep s a t hs ha) h

theorem always_nil (s : σ) : Always step P s [] ↔ P s := by
  simp only [Always, List.prefix_nil, forall_eq, run_nil]
  constructor
  · rintro ⟨s', hs, hP⟩
    cases hs
    exact hP
  · exact fun hP => ⟨s, rfl, hP⟩

theorem always_cons (s : σ) (a : ι) (as : List ι) :
    Always step P s (a :: as) ↔ P s ∧ ∃ s', step s a = .ok s' ∧ Always step P s' as := by
  constructor
  · intro h
    obtain ⟨s₀, hs₀, hP⟩ := h [] List.nil_prefix
    cases hs₀
    refine ⟨hP, ?_⟩
    cases hstep : step s a with
    | error e =>
      obtain ⟨s', hs', _⟩ := h [a] (by simp)
      rw [run_cons_error hstep] at hs'
      cases hs'
    | ok s' =>
      refine ⟨s', rfl, fun bs hbs => ?_⟩
      obtain ⟨s'', hs'', hP''⟩ := h (a :: bs) (List.cons_prefix_cons.mpr ⟨rfl, hbs⟩)
      exact ⟨s'', (run_cons_ok hstep bs).symm.trans hs'', hP''⟩
  · rintro ⟨hP, s', hstep, h⟩ bs hbs
    cases bs with
    | nil => exact ⟨s, rfl, hP⟩
    | cons b bs =>
      obtain ⟨rfl, hbs'⟩ := List.cons_prefix_cons.mp hbs
      obtain ⟨s'', hs'', hP''⟩ := h bs hbs'
      exact ⟨s'', (run_cons_ok hstep bs).trans hs'', hP''⟩

theorem admits_nil (s : σ) : Admits step G s [] := by
  intro bs a h
  simp at h

theorem admits_cons (s : σ) (a : ι) (as : List ι) :
    Admits step G s (a :: as) ↔ G s a ∧ ∀ s', step s a = .ok s' → Admits step G s' as := by
  constructor
  · intro h
    refine ⟨h [] a (by simp) s rfl, fun s' hs' bs b hbs s'' hs'' => ?_⟩
    exact h (a :: bs) b (List.cons_prefix_cons.mpr ⟨rfl, hbs⟩) s''
      ((run_cons_ok hs' bs).trans hs'')
  · rintro ⟨hG, h⟩ bs b hbs s'' hs''
    cases bs with
    | nil =>
      obtain ⟨rfl, _⟩ := List.cons_prefix_cons.mp hbs
      cases hs''
      exact hG
    | cons c bs =>
      obtain ⟨rfl, hbs'⟩ := List.cons_prefix_cons.mp hbs
      cases hstep : step s c with
      | error e =>
        rw [run_cons_error hstep] at hs''
        cases hs''
      | ok s' => exact h s' hstep bs b hbs' s'' ((run_cons_ok hstep bs).symm.trans hs'')

def check (step : σ → ι → Except ε σ) (G : σ → ι → Prop) [∀ s a, Decidable (G s a)] :
    σ → List ι → Bool
  | _, [] => true
  | s, a :: as =>
    decide (G s a) && match step s a with
      | .ok s' => check step G s' as
      | .error _ => true

theorem admits_iff_check [∀ s a, Decidable (G s a)] (s : σ) (as : List ι) :
    Admits step G s as ↔ check step G s as = true := by
  induction as generalizing s with
  | nil => exact ⟨fun _ => rfl, fun _ => admits_nil s⟩
  | cons a as ih =>
    rw [admits_cons, check, Bool.and_eq_true, decide_eq_true_iff]
    apply and_congr_right
    intro _
    cases step s a with
    | error e => simp
    | ok s' => simp [ih]

instance [∀ s a, Decidable (G s a)] (s : σ) (as : List ι) : Decidable (Admits step G s as) :=
  decidable_of_iff _ (admits_iff_check s as).symm

theorem Always.last {s s' : σ} {as : List ι} (h : Always step P s as)
    (hr : run step s as = .ok s') : P s' := by
  obtain ⟨t, ht, hP⟩ := h as (List.prefix_refl as)
  rw [hr] at ht
  cases ht
  exact hP

theorem Always.mono {Q : σ → Prop} (hPQ : ∀ s, P s → Q s) {s : σ} {as : List ι}
    (h : Always step P s as) : Always step Q s as := by
  intro bs hbs
  obtain ⟨s', hs', hP⟩ := h bs hbs
  exact ⟨s', hs', hPQ s' hP⟩

/-- An invariant that every guarded step keeps holds throughout every admitted run. -/
theorem always_of_admits (hstep : ∀ s a, Inv s → G s a → ∃ s', step s a = .ok s' ∧ Inv s')
    {s : σ} {as : List ι} (hs : Inv s) (h : Admits step G s as) : Always step Inv s as := by
  induction as generalizing s with
  | nil => exact (always_nil s).mpr hs
  | cons a as ih =>
    obtain ⟨hG, hrest⟩ := (admits_cons s a as).mp h
    obtain ⟨s', hs', hinv⟩ := hstep s a hs hG
    exact (always_cons s a as).mpr ⟨hs, s', hs', ih hinv (hrest s' hs')⟩

/-- A guard that is exact on the states of the invariant is exact for whole runs. -/
theorem always_iff_admits (hP : ∀ s, Inv s → P s)
    (hstep : ∀ s a, Inv s → G s a → ∃ s', step s a = .ok s' ∧ Inv s')
    (hbad : ∀ s a s', Inv s → step s a = .ok s' → P s' → G s a)
    {s : σ} {as : List ι} (hs : Inv s) : Always step P s as ↔ Admits step G s as := by
  constructor
  · intro h
    induction as generalizing s with
    | nil => exact admits_nil s
    | cons a as ih =>
      obtain ⟨_, s', hs', hrest⟩ := (always_cons s a as).mp h
      have hG : G s a := by
        obtain ⟨t, ht, hPt⟩ := hrest [] List.nil_prefix
        cases ht
        exact hbad s a s' hs hs' hPt
      obtain ⟨t, ht, hinv⟩ := hstep s a hs hG
      rw [hs'] at ht
      cases ht
      refine (admits_cons s a as).mpr ⟨hG, fun t ht => ?_⟩
      rw [hs'] at ht
      cases ht
      exact ih hinv hrest
  · exact fun h => (always_of_admits hstep hs h).mono hP

theorem safe_nil (s : σ) : Safe step Bad P s [] ↔ P s := by
  simp only [Safe, List.prefix_nil, forall_eq, run_nil]
  constructor
  · exact fun h => h.1 s rfl
  · intro hP
    refine ⟨fun s' hs => ?_, fun e he => (by cases he)⟩
    cases hs
    exact hP

theorem safe_cons (s : σ) (a : ι) (as : List ι) :
    Safe step Bad P s (a :: as) ↔
      P s ∧ (∀ e, step s a = .error e → ¬ Bad e) ∧
        ∀ s', step s a = .ok s' → Safe step Bad P s' as := by
  constructor
  · intro h
    refine ⟨(h [] List.nil_prefix).1 s rfl, fun e he => ?_, fun s' hs' bs hbs => ?_⟩
    · exact (h [a] (by simp)).2 e (run_cons_error he [])
    · have hcons := h (a :: bs) (List.cons_prefix_cons.mpr ⟨rfl, hbs⟩)
      rwa [run_cons_ok hs'] at hcons
  · rintro ⟨hP, hbad, h⟩ bs hbs
    cases bs with
    | nil =>
      refine ⟨fun s' hs => ?_, fun e he => (by cases he)⟩
      cases hs
      exact hP
    | cons b bs =>
      obtain ⟨rfl, hbs'⟩ := List.cons_prefix_cons.mp hbs
      cases hstep : step s b with
      | error e =>
        rw [run_cons_error hstep]
        refine ⟨fun s' hs => (by cases hs), fun e' he' => ?_⟩
        cases he'
        exact hbad e hstep
      | ok s' =>
        rw [run_cons_ok hstep]
        exact h s' hstep bs hbs'

/-- The rule of `always_of_admits` for runs that may stop with a fault. -/
theorem safe_of_admits (hP : ∀ s, Inv s → P s)
    (hstep : ∀ s a, Inv s → G s a →
      (∀ e, step s a = .error e → ¬ Bad e) ∧ ∀ s', step s a = .ok s' → Inv s')
    {s : σ} {as : List ι} (hs : Inv s) (h : Admits step G s as) : Safe step Bad P s as := by
  induction as generalizing s with
  | nil => exact (safe_nil s).mpr (hP s hs)
  | cons a as ih =>
    obtain ⟨hG, hrest⟩ := (admits_cons s a as).mp h
    obtain ⟨herr, hok⟩ := hstep s a hs hG
    exact (safe_cons s a as).mpr ⟨hP s hs, herr, fun s' hs' => ih (hok s' hs') (hrest s' hs')⟩

/-- The rule of `always_iff_admits` for runs that may stop with a fault. -/
theorem safe_iff_admits (hP : ∀ s, Inv s → P s)
    (hstep : ∀ s a, Inv s → G s a →
      (∀ e, step s a = .error e → ¬ Bad e) ∧ ∀ s', step s a = .ok s' → Inv s')
    (hbad : ∀ s a, Inv s → (∀ e, step s a = .error e → ¬ Bad e) →
      (∀ s', step s a = .ok s' → P s') → G s a)
    {s : σ} {as : List ι} (hs : Inv s) : Safe step Bad P s as ↔ Admits step G s as := by
  constructor
  · intro h
    induction as generalizing s with
    | nil => exact admits_nil s
    | cons a as ih =>
      obtain ⟨-, herr, hrest⟩ := (safe_cons s a as).mp h
      have hG : G s a := by
        apply hbad s a hs herr
        intro s' hs'
        exact (hrest s' hs' [] List.nil_prefix).1 s' rfl
      exact (admits_cons s a as).mpr
        ⟨hG, fun s' hs' => ih ((hstep s a hs hG).2 s' hs') (hrest s' hs')⟩
  · exact safe_of_admits hP hstep hs

section Simulation

variable {τ κ ε' : Type*} {step' : τ → κ → Except ε' τ} {G' : τ → κ → Prop} {R : σ → τ → Prop}

/-- Where every guarded step is either invisible or a guarded step of another program, every admitted
run is an admitted run of that program. -/
theorem simulates
    (hstep : ∀ s t a, R s t → G s a → ∃ s', step s a = .ok s' ∧
      (R s' t ∨ ∃ b t', G' t b ∧ step' t b = .ok t' ∧ R s' t'))
    {s : σ} {t : τ} {as : List ι} (hR : R s t) (h : Admits step G s as) :
    ∃ s' bs t', run step s as = .ok s' ∧ Admits step' G' t bs ∧ run step' t bs = .ok t' ∧
      R s' t' := by
  induction as generalizing s t with
  | nil => exact ⟨s, [], t, rfl, admits_nil t, rfl, hR⟩
  | cons a as ih =>
    obtain ⟨hG, hrest⟩ := (admits_cons s a as).mp h
    obtain ⟨s₁, hs₁, hsame | ⟨b, t₁, hb, ht₁, hR₁⟩⟩ := hstep s t a hR hG
    · obtain ⟨s', bs, t', hs', hadmits, ht', hR'⟩ := ih hsame (hrest s₁ hs₁)
      exact ⟨s', bs, t', (run_cons_ok hs₁ as).trans hs', hadmits, ht', hR'⟩
    · obtain ⟨s', bs, t', hs', hadmits, ht', hR'⟩ := ih hR₁ (hrest s₁ hs₁)
      have hcons : Admits step' G' t (b :: bs) := by
        refine (admits_cons t b bs).mpr ⟨hb, fun t₂ ht₂ => ?_⟩
        rw [ht₁] at ht₂
        cases ht₂
        exact hadmits
      exact ⟨s', b :: bs, t', (run_cons_ok hs₁ as).trans hs', hcons,
        (run_cons_ok ht₁ bs).trans ht', hR'⟩

end Simulation

end GuardedRun

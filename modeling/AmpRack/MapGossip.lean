import Mathlib.Data.Set.Insert
import Mathlib.Logic.Function.Basic

/-!
# Maps that spread by messages

Each of some parties has a partial map. A message is a copy of a party's map, and who receives it
writes it over its own. A `Flow` says whose starting maps have come to each party; a map has exactly
their keys, each with a value of one of them. Two parties that write their maps over each other's
swap the values that both of them have, so that the values of a key stay the same, as a set.
-/

namespace MapGossip

variable {ι K V : Type*}

inductive Event (ι : Type*)
  | send (i : ι)
  | receive (wire : ℕ) (i : ι)

/-- Whose starting maps have come to each party, and into each message. -/
structure Flow (ι : Type*) where
  known : ι → Set ι
  wires : List (Set ι) := []

namespace Flow

variable [DecidableEq ι]

def start : Flow ι := { known := fun i => {i} }

def step (f : Flow ι) : Event ι → Flow ι
  | .send i => { f with wires := f.wires ++ [f.known i] }
  | .receive wire i =>
    match f.wires[wire]? with
    | none => f
    | some s => { f with known := Function.update f.known i (f.known i ∪ s) }

def run (f : Flow ι) (events : List (Event ι)) : Flow ι := events.foldl step f

end Flow

/-- `m` has the keys of the starting maps in `s`, each with a value of one of them. -/
structure Collects (start : ι → K → Option V) (s : Set ι) (m : K → Option V) : Prop where
  keeps : ∀ d ∈ s, ∀ k, (start d k).isSome → (m k).isSome
  origin : ∀ k v, m k = some v → ∃ d ∈ s, start d k = some v

section Collects

variable {start : ι → K → Option V} {s t : Set ι} {m m' : K → Option V} {k : K} {v : V}

theorem collects_start (start : ι → K → Option V) (i : ι) : Collects start {i} (start i) where
  keeps d hd k hk := by
    rw [Set.mem_singleton_iff] at hd
    rwa [← hd]
  origin k v hv := ⟨i, rfl, hv⟩

/-- A received map is written over the old one. -/
theorem Collects.or (h : Collects start s m) (h' : Collects start t m') :
    Collects start (s ∪ t) fun k => (m' k).or (m k) where
  keeps d hd k hk := by
    rw [Option.isSome_or, Bool.or_eq_true]
    rcases hd with hd | hd
    · exact .inr (h.keeps d hd k hk)
    · exact .inl (h'.keeps d hd k hk)
  origin k v hv := by
    rcases Option.or_eq_some_iff.mp hv with hv | ⟨-, hv⟩
    · obtain ⟨d, hd, hv⟩ := h'.origin k v hv
      exact ⟨d, .inr hd, hv⟩
    · obtain ⟨d, hd, hv⟩ := h.origin k v hv
      exact ⟨d, .inl hd, hv⟩

theorem Collects.isSome_iff (h : Collects start s m) :
    (m k).isSome ↔ ∃ d ∈ s, (start d k).isSome := by
  constructor
  · intro hk
    obtain ⟨v, hv⟩ := Option.isSome_iff_exists.mp hk
    obtain ⟨d, hd, hv⟩ := h.origin k v hv
    exact ⟨d, hd, by rw [hv]; rfl⟩
  · rintro ⟨d, hd, hk⟩
    exact h.keeps d hd k hk

end Collects

section Swap

variable [DecidableEq ι]

/-- The values of one key when `c` and `s` have written their maps over each other's. -/
def swap (m : ι → Option V) (c s : ι) : ι → Option V :=
  Function.update (Function.update m s ((m c).or (m s))) c ((m s).or (m c))

variable {m : ι → Option V} {c s : ι} {v : V}

/-- Nothing is lost and nothing comes in. -/
theorem exists_swap_iff : (∃ i, swap m c s i = some v) ↔ ∃ i, m i = some v := by
  constructor
  · rintro ⟨i, hi⟩
    by_cases hc : i = c
    · rw [hc, swap, Function.update_self] at hi
      rcases Option.or_eq_some_iff.mp hi with hi | ⟨-, hi⟩
      · exact ⟨s, hi⟩
      · exact ⟨c, hi⟩
    · rw [swap, Function.update_of_ne hc] at hi
      by_cases hs : i = s
      · rw [hs, Function.update_self] at hi
        rcases Option.or_eq_some_iff.mp hi with hi | ⟨-, hi⟩
        · exact ⟨c, hi⟩
        · exact ⟨s, hi⟩
      · rw [Function.update_of_ne hs] at hi
        exact ⟨i, hi⟩
  · rintro ⟨i, hi⟩
    by_cases hs : i = s
    · subst hs
      exact ⟨c, by rw [swap, Function.update_self, hi, Option.some_or]⟩
    · by_cases hc : i = c
      · subst hc
        refine ⟨s, ?_⟩
        rw [swap, Function.update_of_ne (Ne.symm hs), Function.update_self, hi, Option.some_or]
      · refine ⟨i, ?_⟩
        rw [swap, Function.update_of_ne hc, Function.update_of_ne hs, hi]

/-- Both of them know then what either knew. -/
def meet (known : ι → Set ι) (c s : ι) : ι → Set ι :=
  Function.update (Function.update known s (known s ∪ known c)) c (known c ∪ known s)

theorem collects_swap {start : ι → K → Option V} {known : ι → Set ι} {maps : ι → K → Option V}
    (h : ∀ i, Collects start (known i) (maps i)) (c s i : ι) :
    Collects start (meet known c s i) fun k => swap (fun i => maps i k) c s i := by
  by_cases hc : i = c
  · subst hc
    simp only [meet, swap, Function.update_self]
    exact (h i).or (h s)
  · simp only [meet, swap, Function.update_of_ne hc]
    by_cases hs : i = s
    · subst hs
      simp only [Function.update_self]
      exact (h i).or (h c)
    · simp only [Function.update_of_ne hs]
      exact h i

end Swap

end MapGossip

import AmpRack.CString
import AmpRack.Interning
import Mathlib.Data.List.GetD

/-!
# The symbol map of a plugin

`symap` is the `urid:map` of the plugins that `Plugin::load` opens. The symbols stand in `symbols` in
the order in which they were mapped, at their id less one; `index` lists the ids in the order of the
symbols, and is searched by bisection. Reads outside an array, and of a place that was never written,
are `none`.
-/

namespace AmpRack

open SortedSlots Interning

/-- The arrays with the places that are allocated; `none` in `symbols` is a place that was never
written. -/
structure Symap where
  symbols : List (Option CString)
  index : List ℕ
  size : ℕ
  deriving DecidableEq

/-- How the allocations of `symap_map` end, which are two calls of `realloc` and the `malloc` of
`symap_strdup`. -/
inductive Allocation
  | grown
  | noSymbols
  | noIndex
  | noCopy
  deriving DecidableEq

namespace Symap

open CString

/-- `symap_new`. -/
def new : Symap := ⟨[], [], 0⟩

/-- `symbols[id - 1]`. -/
def symbolOf (m : Symap) (id : ℕ) : Option CString :=
  if id = 0 then none else (m.symbols[id - 1]?).join

/-- `symbols[index[i] - 1]`. -/
def symbolAt (m : Symap) (i : ℕ) : Option CString := (m.index[i]?).bind m.symbolOf

/-- The loop of `symap_search`, for at most `fuel` tests of its condition. -/
def searchLoop (m : Symap) (sym : CString) : ℕ → ℕ → ℕ → ℕ → Option (ℕ × Bool)
  | 0, _, _, _ => none
  | fuel + 1, lower, upper, i =>
    if lower ≤ upper then do
      let mid := lower + (upper - lower) / 2
      let s ← m.symbolAt mid
      let cmp := strcmp s.bytes sym.bytes
      if cmp = 0 then return (mid, true)
      if 0 < cmp then
        if mid = 0 then return (mid, false)
        searchLoop m sym fuel lower (mid - 1) mid
      else searchLoop m sym fuel (mid + 1) upper (mid + 1)
    else return (i, false)

/-- `symap_search` with a loop of at most `fuel` tests: the place in `index`, and whether the symbol
stands there. -/
def searchWithin (m : Symap) (sym : CString) (fuel : ℕ) : Option (ℕ × Bool) :=
  if m.size = 0 then some (0, false)
  else do
    let last ← m.symbolAt (m.size - 1)
    if strcmp last.bytes sym.bytes < 0 then return (m.size, false)
    m.searchLoop sym fuel 0 (m.size - 1) (m.size - 1)

def search (m : Symap) (sym : CString) : Option (ℕ × Bool) := m.searchWithin sym (m.size + 1)

/-- `realloc` to `n` places. -/
def grow (symbols : List (Option CString)) (n : ℕ) : List (Option CString) :=
  symbols.take n ++ List.replicate (n - symbols.length) none

/-- The index array after it has been grown by a place, the `memmove` and the store. -/
def insertAt (index : List ℕ) (i id : ℕ) : List ℕ := index.take i ++ id :: index.drop i

/-- `symap_map`. A `realloc` that fails gives 0; when it is the second one, `symbols` has been grown by
then. `symap_strdup` does not look at what `malloc` returns, and copies to `NULL`. -/
def map (m : Symap) (sym : CString) (r : Allocation) : Option (Symap × ℕ) := do
  let (index, exact) ← m.search sym
  if exact then
    let id ← m.index[index]?
    return (m, id)
  let id := m.size + 1
  match r with
  | .noSymbols => return (m, 0)
  | .noIndex => return ({ m with symbols := grow m.symbols id }, 0)
  | .noCopy => none
  | .grown =>
    return ({ symbols := (grow m.symbols id).set (id - 1) (some sym)
              index := insertAt m.index index id
              size := id }, id)

/-- The map after a run of calls, and what each call was asked for and returned. -/
def mapAll (m : Symap) : List (CString × Allocation) → Option (Symap × List (Answer CString))
  | [] => some (m, [])
  | c :: cs => do
    let (m', id) ← m.map c.1 c.2
    let (last, answers) ← m'.mapAll cs
    return (last, ⟨c.1, id⟩ :: answers)

/-- The symbols in the order of the index. -/
def ranked (xs : List CString) (index : List ℕ) : List CString :=
  index.map fun id => xs.getD (id - 1) CString.empty

/-- The map holds `xs`, in the order of the ids. -/
structure Represents (m : Symap) (xs : List CString) : Prop where
  size_eq : m.size = xs.length
  symbols : ∀ i, i < xs.length → m.symbols[i]? = some (some (xs.getD i CString.empty))
  room : m.symbols.length ≤ xs.length + 1
  index : m.index.Perm (List.range' 1 xs.length)
  sorted : Sorted comparison (ranked xs m.index)

section Search

variable {m : Symap} {xs : List CString} {sym : CString}

theorem represents_new : new.Represents [] where
  size_eq := rfl
  symbols _ hi := absurd hi (Nat.not_lt_zero _)
  room := Nat.zero_le _
  index := List.Perm.refl _
  sorted := List.Pairwise.nil

theorem Represents.length_index (h : m.Represents xs) : m.index.length = xs.length := by
  rw [h.index.length_eq, List.length_range']

theorem Represents.length_ranked (h : m.Represents xs) :
    (ranked xs m.index).length = xs.length := by rw [ranked, List.length_map, h.length_index]

theorem Represents.id_range (h : m.Represents xs) {id : ℕ} (hid : id ∈ m.index) :
    1 ≤ id ∧ id ≤ xs.length := by
  have hmem := List.mem_range'_1.mp (h.index.mem_iff.mp hid)
  omega

theorem Represents.symbolOf_eq (h : m.Represents xs) {id : ℕ} (hlow : 1 ≤ id)
    (hid : id ≤ xs.length) : m.symbolOf id = some (xs.getD (id - 1) CString.empty) := by
  rw [symbolOf, if_neg (by omega), h.symbols _ (by omega)]
  rfl

/-- Every read of the search finds a symbol. -/
theorem Represents.symbolAt_eq (h : m.Represents xs) {i : ℕ}
    (hi : i < (ranked xs m.index).length) : m.symbolAt i = some (ranked xs m.index)[i] := by
  have hindex : i < m.index.length := by rwa [ranked, List.length_map] at hi
  have hrange := h.id_range (List.getElem_mem hindex)
  rw [symbolAt, List.getElem?_eq_getElem hindex, Option.bind_some,
    h.symbolOf_eq hrange.1 hrange.2]
  simp only [ranked, List.getElem_map]

/-- What the search has to find in a sorted list: the symbol, or the place where it belongs. -/
def Found (ys : List CString) (sym : CString) (k : ℕ) (exact : Bool) : Prop :=
  if exact then ys[k]? = some sym else Window comparison ys sym k k

/-- The window is halved by a turn of the loop, so `fuel + 1` tests do for fewer than `2 ^ fuel`
places. -/
theorem Represents.searchLoop_found (h : m.Represents xs) (fuel : ℕ) {lower upper i : ℕ}
    (w : Window comparison (ranked xs m.index) sym lower (upper + 1))
    (hwidth : upper + 1 - lower < 2 ^ fuel) (hexit : upper + 1 = lower → i = lower) :
    ∃ k exact, m.searchLoop sym (fuel + 1) lower upper i = some (k, exact) ∧
      Found (ranked xs m.index) sym k exact := by
  induction fuel generalizing lower upper i with
  | zero =>
    have hempty : upper + 1 = lower := by
      have hle := w.le
      omega
    refine ⟨i, false, ?_, ?_⟩
    · rw [searchLoop, if_neg (by omega)]
      rfl
    · rw [hexit hempty]
      rw [hempty] at w
      exact w
  | succ fuel ih =>
    rw [searchLoop]
    by_cases hle : lower ≤ upper
    · rw [if_pos hle]
      obtain ⟨mid, hmid⟩ : ∃ mid, lower + (upper - lower) / 2 = mid := ⟨_, rfl⟩
      have hlow : lower ≤ mid := by omega
      have hupp : mid ≤ upper := by omega
      have hlt : mid < (ranked xs m.index).length := (Nat.lt_succ_of_le hupp).trans_le w.le_length
      simp only [hmid, h.symbolAt_eq hlt, Option.bind_eq_bind, Option.bind_some]
      obtain ⟨s, hs⟩ : ∃ s, (ranked xs m.index)[mid] = s := ⟨_, rfl⟩
      rw [hs]
      by_cases hzero : strcmp s.bytes sym.bytes = 0
      · rw [if_pos hzero]
        refine ⟨mid, true, rfl, ?_⟩
        rw [Found, if_pos rfl, List.getElem?_eq_getElem hlt, hs]
        exact congrArg some ((comparison.eq_zero_iff s sym).mp hzero)
      · rw [if_neg hzero]
        by_cases hpos : 0 < strcmp s.bytes sym.bytes
        · rw [if_pos hpos]
          have wcut := w.cut h.sorted hlow hlt (hs ▸ hpos)
          by_cases hfirst : mid = 0
          · rw [if_pos hfirst]
            obtain rfl : lower = 0 := by omega
            subst hfirst
            exact ⟨0, false, rfl, wcut⟩
          · rw [if_neg hfirst]
            have hback : mid - 1 + 1 = mid := Nat.succ_pred hfirst
            exact ih (hback ▸ wcut) (by omega) (by omega)
        · rw [if_neg hpos]
          have hneg : strcmp s.bytes sym.bytes < 0 := by omega
          exact ih (w.raise h.sorted (Nat.lt_succ_of_le hupp) hlt (hs ▸ hneg)) (by omega) (by omega)
    · rw [if_neg hle]
      have hempty : upper + 1 = lower := by
        have hle := w.le
        omega
      refine ⟨i, false, rfl, ?_⟩
      rw [hexit hempty]
      rw [hempty] at w
      exact w

/-- The search is right, and needs at most two tests more than the number of symbols has binary
digits. -/
theorem Represents.searchWithin_found (h : m.Represents xs) (sym : CString) {fuel : ℕ}
    (hfuel : Nat.log2 m.size + 2 ≤ fuel) :
    ∃ k exact, m.searchWithin sym fuel = some (k, exact) ∧
      Found (ranked xs m.index) sym k exact := by
  have hlen : (ranked xs m.index).length = m.size := h.length_ranked.trans h.size_eq.symm
  have whole := Window.whole (C := comparison) (ranked xs m.index) sym
  rw [hlen] at whole
  rw [searchWithin]
  by_cases hzero : m.size = 0
  · rw [if_pos hzero]
    rw [hzero] at whole
    exact ⟨0, false, rfl, whole⟩
  · rw [if_neg hzero]
    have hlast : m.size - 1 < (ranked xs m.index).length := by omega
    have hback : m.size - 1 + 1 = m.size := Nat.succ_pred hzero
    simp only [h.symbolAt_eq hlast, Option.bind_eq_bind, Option.bind_some]
    by_cases hneg : strcmp (ranked xs m.index)[m.size - 1].bytes sym.bytes < 0
    · rw [if_pos hneg]
      have wend := whole.raise h.sorted (by omega) hlast hneg
      rw [hback] at wend
      exact ⟨m.size, false, rfl, wend⟩
    · rw [if_neg hneg]
      obtain ⟨n, rfl⟩ : ∃ n, fuel = n + 1 := ⟨fuel - 1, by omega⟩
      refine h.searchLoop_found n (hback.symm ▸ whole) ?_ (by omega)
      have hpow : m.size < 2 ^ (Nat.log2 m.size + 1) := Nat.lt_log2_self
      have hmono : 2 ^ (Nat.log2 m.size + 1) ≤ 2 ^ n := Nat.pow_le_pow_right Nat.two_pos (by omega)
      omega

theorem Represents.search_found (h : m.Represents xs) (sym : CString) :
    ∃ k exact, m.search sym = some (k, exact) ∧ Found (ranked xs m.index) sym k exact := by
  by_cases hzero : m.size = 0
  · refine ⟨0, false, ?_, ?_⟩
    · rw [search, searchWithin, if_pos hzero]
    · have hnil : ranked xs m.index = [] := by
        rw [← List.length_eq_zero_iff, h.length_ranked, ← h.size_eq, hzero]
      rw [hnil]
      exact Window.whole [] sym
  · have hlog : Nat.log2 m.size < m.size := (Nat.log2_lt hzero).mpr Nat.lt_two_pow_self
    exact h.searchWithin_found sym (by omega)

theorem ranked_range' (xs : List CString) : ranked xs (List.range' 1 xs.length) = xs := by
  refine List.ext_getElem (by rw [ranked, List.length_map, List.length_range']) ?_
  intro i hi hi'
  simp only [ranked, List.getElem_map, List.getElem_range', one_mul, Nat.add_sub_cancel_left]
  exact List.getD_eq_getElem _ _ hi'

theorem Represents.ranked_perm (h : m.Represents xs) : (ranked xs m.index).Perm xs := by
  have hperm := h.index.map fun id => xs.getD (id - 1) CString.empty
  rwa [show (List.range' 1 xs.length).map _ = xs from ranked_range' xs] at hperm

theorem Represents.nodup (h : m.Represents xs) : xs.Nodup :=
  h.ranked_perm.nodup_iff.mp h.sorted.nodup

theorem Represents.exact_iff (h : m.Represents xs) {k : ℕ} {exact : Bool}
    (hfound : Found (ranked xs m.index) sym k exact) : exact = true ↔ sym ∈ xs := by
  rw [← h.ranked_perm.mem_iff]
  cases exact with
  | true => exact ⟨fun _ => List.mem_of_getElem? hfound, fun _ => rfl⟩
  | false => exact ⟨fun hfalse => absurd hfalse Bool.false_ne_true,
      fun hmem => absurd hmem hfound.not_mem⟩

/-- An id of the index stands for the symbol that is ranked in its place. -/
theorem Represents.index_of_ranked (h : m.Represents xs) {k : ℕ}
    (hk : (ranked xs m.index)[k]? = some sym) :
    ∃ id, m.index[k]? = some id ∧ id ≠ 0 ∧ xs[id - 1]? = some sym := by
  rw [ranked, List.getElem?_map, Option.map_eq_some_iff] at hk
  obtain ⟨id, hid, hsym⟩ := hk
  have hrange := h.id_range (List.mem_of_getElem? hid)
  refine ⟨id, hid, by omega, ?_⟩
  have hlt : id - 1 < xs.length := by omega
  rw [List.getD_eq_getElem _ _ hlt] at hsym
  rw [List.getElem?_eq_getElem hlt, hsym]

end Search

section Map

variable {m : Symap} {xs : List CString} {sym : CString}

theorem length_grow {symbols : List (Option CString)} {n : ℕ} (h : symbols.length ≤ n) :
    (grow symbols n).length = n := by
  rw [grow, List.length_append, List.length_take, List.length_replicate]
  omega

theorem getElem?_grow {symbols : List (Option CString)} {n i : ℕ} (hn : i < n)
    (hi : i < symbols.length) : (grow symbols n)[i]? = symbols[i]? := by
  rw [grow, List.getElem?_append_left (by rw [List.length_take]; omega), List.getElem?_take_of_lt hn]

theorem Represents.lt_length (h : m.Represents xs) {i : ℕ} (hi : i < xs.length) :
    i < m.symbols.length := (List.getElem?_eq_some_iff.mp (h.symbols i hi)).1

/-- Without the memory for the index nothing has changed but the size of an array. -/
theorem Represents.grow_symbols (h : m.Represents xs) :
    Represents { m with symbols := grow m.symbols (m.size + 1) } xs where
  size_eq := h.size_eq
  symbols i hi := by
    rw [getElem?_grow (by rw [h.size_eq]; omega) (h.lt_length hi)]
    exact h.symbols i hi
  room := by
    have hroom := h.room
    rw [← h.size_eq] at hroom ⊢
    exact (length_grow hroom).le
  index := h.index
  sorted := h.sorted

theorem getD_concat {i : ℕ} (hi : i < xs.length) :
    (xs ++ [sym]).getD i CString.empty = xs.getD i CString.empty := by
  rw [List.getD_append _ _ _ _ hi]

theorem ranked_concat {index : List ℕ} (hindex : ∀ id ∈ index, 1 ≤ id ∧ id ≤ xs.length) :
    ranked (xs ++ [sym]) index = ranked xs index := by
  refine List.map_congr_left fun id hid => ?_
  have hrange := hindex id hid
  exact getD_concat (by omega)

theorem ranked_insertAt (h : m.Represents xs) (k : ℕ) :
    ranked (xs ++ [sym]) (insertAt m.index k (xs.length + 1)) =
      (ranked xs m.index).take k ++ sym :: (ranked xs m.index).drop k := by
  have hlast : (xs ++ [sym]).getD (xs.length + 1 - 1) CString.empty = sym := by
    rw [Nat.add_sub_cancel, List.getD_append_right _ _ _ _ le_rfl, Nat.sub_self]
    rfl
  have htake : ranked (xs ++ [sym]) (m.index.take k) = ranked xs (m.index.take k) :=
    ranked_concat fun id hid => h.id_range (List.mem_of_mem_take hid)
  have hdrop : ranked (xs ++ [sym]) (m.index.drop k) = ranked xs (m.index.drop k) :=
    ranked_concat fun id hid => h.id_range (List.mem_of_mem_drop hid)
  simp only [ranked] at htake hdrop ⊢
  rw [insertAt, List.map_append, List.map_cons, hlast, htake, hdrop, List.map_take, List.map_drop]

/-- A new symbol is put behind the others and ranked where the search has found its place. -/
theorem Represents.insert (h : m.Represents xs) {k : ℕ}
    (w : Window comparison (ranked xs m.index) sym k k) :
    Represents { symbols := (grow m.symbols (m.size + 1)).set (m.size + 1 - 1) (some sym)
                 index := insertAt m.index k (m.size + 1), size := m.size + 1 } (xs ++ [sym]) where
  size_eq := by
    change m.size + 1 = _
    rw [h.size_eq, List.length_append, List.length_singleton]
  symbols i hi := by
    rw [List.length_append, List.length_singleton] at hi
    change ((grow m.symbols (m.size + 1)).set (m.size + 1 - 1) (some sym))[i]? = _
    rw [Nat.add_sub_cancel, h.size_eq]
    obtain hlt | rfl := Nat.lt_succ_iff_lt_or_eq.mp hi
    · rw [List.getElem?_set_ne hlt.ne', getElem?_grow (by omega) (h.lt_length hlt),
        h.symbols i hlt, getD_concat hlt]
    · rw [List.getElem?_set_self (by rw [length_grow h.room]; omega),
        List.getD_append_right _ _ _ _ le_rfl, Nat.sub_self]
      rfl
  room := by
    change ((grow m.symbols (m.size + 1)).set _ _).length ≤ _
    rw [List.length_set, h.size_eq, length_grow h.room, List.length_append]
    exact Nat.le_succ _
  index := by
    change (insertAt m.index k (m.size + 1)).Perm _
    have hperm : (insertAt m.index k (m.size + 1)).Perm ((m.size + 1) :: m.index) := by
      rw [insertAt]
      refine List.perm_middle.trans ?_
      rw [List.take_append_drop]
    rw [List.length_append, List.length_singleton, List.range'_1_concat, h.size_eq, Nat.add_comm]
      at *
    exact hperm.trans ((h.index.cons _).trans (List.perm_append_singleton _ _).symm)
  sorted := by
    change Sorted comparison (ranked (xs ++ [sym]) (insertAt m.index k (m.size + 1)))
    rw [h.size_eq, ranked_insertAt h]
    exact h.sorted.insert w

/-- A symbol that the map holds keeps its id. -/
theorem Represents.map_of_mem (h : m.Represents xs) (hmem : sym ∈ xs) (r : Allocation) :
    ∃ id, m.map sym r = some (m, id) ∧ id ≠ 0 ∧ xs[id - 1]? = some sym := by
  obtain ⟨k, exact, hsearch, hfound⟩ := h.search_found sym
  obtain rfl : exact = true := (h.exact_iff hfound).mpr hmem
  obtain ⟨id, hindex, hid, hget⟩ := h.index_of_ranked hfound
  refine ⟨id, ?_, hid, hget⟩
  rw [map, hsearch]
  simp only [Option.bind_eq_bind, Option.bind_some, if_true, hindex]
  rfl

theorem Represents.map_of_not_mem (h : m.Represents xs) (hmem : sym ∉ xs) {r : Allocation}
    (hr : r ≠ .noCopy) :
    ∃ m' id, m.map sym r = some (m', id) ∧
      (r = .grown ∧ m'.Represents (xs ++ [sym]) ∧ id = xs.length + 1 ∨
        r ≠ .grown ∧ m'.Represents xs ∧ id = 0) := by
  obtain ⟨k, exact, hsearch, hfound⟩ := h.search_found sym
  obtain rfl : exact = false :=
    Bool.eq_false_iff.mpr fun htrue => hmem ((h.exact_iff hfound).mp htrue)
  rw [map, hsearch]
  simp only [Option.bind_eq_bind, Option.bind_some, Bool.false_eq_true, if_false]
  cases r with
  | grown => exact ⟨_, _, rfl, Or.inl ⟨rfl, h.insert hfound, congrArg (· + 1) h.size_eq⟩⟩
  | noSymbols => exact ⟨_, _, rfl, Or.inr ⟨by decide, h, rfl⟩⟩
  | noIndex => exact ⟨_, _, rfl, Or.inr ⟨by decide, h.grow_symbols, rfl⟩⟩
  | noCopy => exact absurd rfl hr

/-- A new symbol that cannot be copied ends the process. -/
theorem Represents.map_noCopy (h : m.Represents xs) (hmem : sym ∉ xs) :
    m.map sym .noCopy = none := by
  obtain ⟨k, exact, hsearch, hfound⟩ := h.search_found sym
  obtain rfl : exact = false :=
    Bool.eq_false_iff.mpr fun htrue => hmem ((h.exact_iff hfound).mp htrue)
  rw [map, hsearch]
  rfl

/-- What one call can do: it appends the symbol or nothing, and an id other than 0 is the place of the
symbol. -/
theorem Represents.map_spec (h : m.Represents xs) (sym : CString) {r : Allocation}
    (hr : r = .noCopy → sym ∈ xs) :
    ∃ m' id ys, m.map sym r = some (m', id) ∧ m'.Represents (xs ++ ys) ∧
      (id ≠ 0 → (xs ++ ys)[id - 1]? = some sym) ∧ (id = 0 → r ≠ .grown ∧ sym ∉ xs) ∧
      ∀ y ∈ ys, y = sym ∧ id ≠ 0 := by
  by_cases hmem : sym ∈ xs
  · obtain ⟨id, hmap, hid, hget⟩ := h.map_of_mem hmem r
    refine ⟨m, id, [], hmap, ?_, ?_, fun hzero => absurd hzero hid, fun y hy => by cases hy⟩
    · rwa [List.append_nil]
    · rw [List.append_nil]
      exact fun _ => hget
  · obtain ⟨m', id, hmap, ⟨-, hrep, rfl⟩ | ⟨hr, hrep, rfl⟩⟩ :=
      h.map_of_not_mem hmem fun hcopy => hmem (hr hcopy)
    · refine ⟨m', xs.length + 1, [sym], hmap, hrep, fun _ => ?_, fun hzero => ?_, fun y hy => ?_⟩
      · rw [Nat.add_sub_cancel]
        exact List.getElem?_concat_length
      · exact absurd hzero (Nat.succ_ne_zero _)
      · exact ⟨List.mem_singleton.mp hy, Nat.succ_ne_zero _⟩
    · refine ⟨m', 0, [], hmap, ?_, fun hne => absurd rfl hne, fun _ => ⟨hr, hmem⟩,
        fun y hy => by cases hy⟩
      rwa [List.append_nil]

/-- The symbols of an answer and of the map at the end of the run. -/
structure Mapped (xs : List CString) (calls : List (CString × Allocation))
    (answers : List (Answer CString)) : Prop where
  values : answers.map (·.value) = calls.map (·.1)
  place : ∀ c ∈ answers, c.id ≠ 0 → xs[c.id - 1]? = some c.value
  zero : ∀ e ∈ calls.zip answers, e.2.id = 0 → e.1.2 ≠ .grown

theorem mapAll_cons {m₁ m' : Symap} {id : ℕ} {c : CString × Allocation}
    {cs : List (CString × Allocation)} {answers : List (Answer CString)}
    (h : m.map c.1 c.2 = some (m₁, id)) (hrest : m₁.mapAll cs = some (m', answers)) :
    m.mapAll (c :: cs) = some (m', ⟨c.1, id⟩ :: answers) := by
  rw [mapAll, h]
  simp only [Option.bind_eq_bind, Option.bind_some, hrest]
  rfl

theorem mapAll_cons_none {m₁ : Symap} {id : ℕ} {c : CString × Allocation}
    {cs : List (CString × Allocation)} (h : m.map c.1 c.2 = some (m₁, id)) :
    m.mapAll (c :: cs) = none ↔ m₁.mapAll cs = none := by
  rw [mapAll, h]
  simp only [Option.bind_eq_bind, Option.bind_some]
  cases m₁.mapAll cs <;> simp

/-- A run goes through, or a copy has failed in it. -/
theorem Represents.mapAll_spec (h : m.Represents xs) (calls : List (CString × Allocation)) :
    (∃ m' answers ys, m.mapAll calls = some (m', answers) ∧ m'.Represents (xs ++ ys) ∧
      Mapped (xs ++ ys) calls answers ∧ ∀ y ∈ ys, ∃ c ∈ answers, c.value = y ∧ c.id ≠ 0) ∨
    m.mapAll calls = none ∧ ∃ before c after, calls = before ++ c :: after ∧ c.2 = .noCopy ∧
      c.1 ∉ xs ∧
      ∃ m' answers, m.mapAll before = some (m', answers) ∧ ∀ a ∈ answers, a.value = c.1 → a.id = 0 := by
  induction calls generalizing m xs with
  | nil =>
    refine .inl ⟨m, [], [], rfl, by rwa [List.append_nil], ⟨rfl, ?_, ?_⟩, fun y hy => by cases hy⟩
    · exact fun c hc => by cases hc
    · exact fun e he => by cases he
  | cons c cs ih =>
    by_cases hcopy : c.2 = .noCopy ∧ c.1 ∉ xs
    · refine .inr ⟨?_, [], c, cs, rfl, hcopy.1, hcopy.2, m, [], rfl, fun a ha => by cases ha⟩
      rw [mapAll, hcopy.1, h.map_noCopy hcopy.2]
      rfl
    obtain ⟨m₁, id, ys, hmap, hrep, hplace, hzero, hys⟩ :=
      h.map_spec c.1 fun hr => not_not.mp fun hmem => hcopy ⟨hr, hmem⟩
    obtain ⟨m', answers, zs, hrest, hrep', hmapped, hzs⟩ |
      ⟨hnone, before, d, after, rfl, hd, hnew, m', answers, hbefore, hmissed⟩ := ih hrep
    · refine .inl ⟨m', ⟨c.1, id⟩ :: answers, ys ++ zs, mapAll_cons hmap hrest, ?_, ⟨?_, ?_, ?_⟩, ?_⟩
      · rwa [← List.append_assoc]
      · rw [List.map_cons, List.map_cons, hmapped.values]
      · intro d hd hid
        rw [← List.append_assoc]
        obtain rfl | hd := List.mem_cons.mp hd
        · have hget := hplace hid
          rwa [List.getElem?_append_left (List.getElem?_eq_some_iff.mp hget).1]
        · exact hmapped.place d hd hid
      · intro e he hid
        rw [List.zip_cons_cons] at he
        obtain rfl | he := List.mem_cons.mp he
        · exact (hzero hid).1
        · exact hmapped.zero e he hid
      · intro y hy
        obtain hy | hy := List.mem_append.mp hy
        · obtain ⟨rfl, hid⟩ := hys y hy
          exact ⟨_, List.mem_cons_self, rfl, hid⟩
        · obtain ⟨d, hd, hvalue, hid⟩ := hzs y hy
          exact ⟨d, List.mem_cons_of_mem _ hd, hvalue, hid⟩
    · refine .inr ⟨(mapAll_cons_none hmap).mpr hnone, c :: before, d, after, rfl, hd,
        fun hmem => hnew (List.mem_append_left ys hmem), m', _, mapAll_cons hmap hbefore, ?_⟩
      intro a ha hvalue
      obtain rfl | ha := List.mem_cons.mp ha
      · by_contra hid
        have hmem := List.mem_of_getElem? (hplace hid)
        exact hnew (hvalue ▸ hmem)
      · exact hmissed a ha hvalue

/-- What is known of a map that a run of calls has made. -/
theorem represents_of_mapAll {calls : List (CString × Allocation)} {answers : List (Answer CString)}
    (hrun : new.mapAll calls = some (m, answers)) :
    ∃ xs, m.Represents xs ∧ Mapped xs calls answers ∧
      ∀ x ∈ xs, ∃ c ∈ answers, c.value = x ∧ c.id ≠ 0 := by
  obtain ⟨m', answers', xs, hrun', hrep, hmapped, hxs⟩ | ⟨hnone, -⟩ :=
    represents_new.mapAll_spec calls
  · rw [hrun] at hrun'
    cases hrun'
    exact ⟨xs, hrep, hmapped, hxs⟩
  · rw [hrun] at hnone
    cases hnone

end Map

section Runs

variable {m : Symap} {xs : List CString} {sym : CString}

/-- There is one place for a symbol in a sorted list. -/
theorem Found.unique {ys : List CString} (hs : Sorted comparison ys) {k k' : ℕ} {e e' : Bool}
    (h : Found ys sym k e) (h' : Found ys sym k' e') : (k, e) = (k', e') := by
  have hgap {k k' : ℕ} (w : Window comparison ys sym k k) (w' : Window comparison ys sym k' k') :
      ¬ k < k' := by
    intro hlt
    have hlen := hlt.trans_le w'.le_length
    exact (w'.below k hlen hlt).not_gt (w.above k hlen le_rfl)
  cases e with
  | true =>
    cases e' with
    | true =>
      have hlt := (List.getElem?_eq_some_iff.mp h).1
      rw [(List.getElem?_inj hlt hs.nodup).mp (h.trans h'.symm)]
    | false => exact absurd (List.mem_of_getElem? h) h'.not_mem
  | false =>
    cases e' with
    | true => exact absurd (List.mem_of_getElem? h') h.not_mem
    | false =>
      have hle := hgap h h'
      have hge := hgap h' h
      rw [show k = k' by omega]

/-- In every map that calls of `symap_map` can make, whichever of them find memory, the search returns
the place of a symbol that is mapped, and for any other the place that keeps the index sorted, which is
one of the index or the one behind it. It tests its condition at most two times more than the number of
symbols has halvings. -/
theorem search_finds {calls : List (CString × Allocation)} {m : Symap}
    {answers : List (Answer CString)} (hrun : new.mapAll calls = some (m, answers)) (sym : CString) :
    ∃ k exact, m.search sym = some (k, exact) ∧
      (∀ more, m.searchWithin sym (Nat.log2 m.size + 2 + more) = some (k, exact)) ∧
      (exact = true ↔ ∃ c ∈ answers, c.value = sym ∧ c.id ≠ 0) ∧
      (exact = true → m.symbolAt k = some sym) ∧
      (exact = false → k ≤ m.size ∧ ∀ i, i < m.size → ∃ s, m.symbolAt i = some s ∧
        (i < k → strcmp s.bytes sym.bytes < 0) ∧ (k ≤ i → 0 < strcmp s.bytes sym.bytes)) := by
  obtain ⟨xs, h, hmapped, hxs⟩ := represents_of_mapAll hrun
  have hlength : (ranked xs m.index).length = m.size := h.length_ranked.trans h.size_eq.symm
  obtain ⟨k, exact, hsearch, hfound⟩ := h.search_found sym
  refine ⟨k, exact, hsearch, fun more => ?_, ?_, ?_, ?_⟩
  · obtain ⟨k', exact', hwithin, hfound'⟩ := h.searchWithin_found sym (Nat.le_add_right _ more)
    rw [hwithin, hfound'.unique h.sorted hfound]
  · rw [h.exact_iff hfound]
    refine ⟨hxs sym, ?_⟩
    rintro ⟨c, hc, rfl, hid⟩
    exact List.mem_of_getElem? (hmapped.place c hc hid)
  · rintro rfl
    obtain ⟨hlt, hget⟩ := List.getElem?_eq_some_iff.mp hfound
    rw [h.symbolAt_eq hlt, hget]
  · rintro rfl
    refine ⟨hlength ▸ hfound.le_length, fun i hi => ?_⟩
    have hlt : i < (ranked xs m.index).length := by rwa [hlength]
    exact ⟨_, h.symbolAt_eq hlt, hfound.below i hlt, hfound.above i hlt⟩

/-- `b` is mapped before `a`, and `c` belongs behind both. -/
theorem search_finds_behind :
    ∃ m answers k exact,
      new.mapAll [(ofText ['b'], .grown), (ofText ['a'], .grown)] = some (m, answers) ∧
      m.search (ofText ['c']) = some (k, exact) ∧
      (∀ more, m.searchWithin (ofText ['c']) (Nat.log2 m.size + 2 + more) = some (k, exact)) ∧
      (exact = true ↔ ∃ c ∈ answers, c.value = ofText ['c'] ∧ c.id ≠ 0) ∧
      (exact = true → m.symbolAt k = some (ofText ['c'])) ∧
      (exact = false → k ≤ m.size ∧ ∀ i, i < m.size → ∃ s, m.symbolAt i = some s ∧
        (i < k → strcmp s.bytes (ofText ['c']).bytes < 0) ∧
        (k ≤ i → 0 < strcmp s.bytes (ofText ['c']).bytes)) := by
  have hrun : new.mapAll [(ofText ['b'], .grown), (ofText ['a'], .grown)] = some _ := rfl
  obtain ⟨k, exact, hfound⟩ := search_finds hrun (ofText ['c'])
  exact ⟨_, _, k, exact, hrun, hfound⟩

end Runs

end Symap

end AmpRack

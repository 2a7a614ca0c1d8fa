import Mathlib.Data.Nat.ModEq
import Mathlib.Logic.Function.Basic

/-!
# A ring of slots under two wrapping counters

A single-producer single-consumer queue keeps `2 ^ k` slots and two counters of `w` bits that only
ever increase, wrapping past `2 ^ w`. A counter is reduced to a slot by masking, and the difference
of the counters is the number of elements.

`Represents q r xs` says that `q` holds the list `xs` after `r` removals. Under it `push` and `pop`
are the operations of a bounded FIFO list, for every value the counters can have.
-/

namespace FifoRing

variable {α : Type*} {w k : ℕ}

structure Ring (α : Type*) (w k : ℕ) where
  buffer : ℕ → α
  writeCounter : BitVec w
  readCounter : BitVec w

def capacity (w k : ℕ) : BitVec w := BitVec.ofNat w (2 ^ k)

def mask (k : ℕ) (n : BitVec w) : ℕ := (n &&& (capacity w k - 1#w)).toNat

namespace Ring

def size (q : Ring α w k) : BitVec w := q.writeCounter - q.readCounter

def isEmpty (q : Ring α w k) : Bool := q.readCounter == q.writeCounter

def isFull (q : Ring α w k) : Bool := q.size == capacity w k

def push (q : Ring α w k) (item : α) : Ring α w k × Bool :=
  if q.isFull then (q, false)
  else ({ q with
    buffer := Function.update q.buffer (mask k q.writeCounter) item
    writeCounter := q.writeCounter + 1 }, true)

def pop (q : Ring α w k) : Option (α × Ring α w k) :=
  if q.isEmpty then none
  else some (q.buffer (mask k q.readCounter), { q with readCounter := q.readCounter + 1 })

/-! The accesses that `push` and `pop` are made of, once they have looked at the counters. -/

def storeSlot (q : Ring α w k) (item : α) : Ring α w k :=
  { q with buffer := Function.update q.buffer (mask k q.writeCounter) item }

def advanceWrite (q : Ring α w k) : Ring α w k := { q with writeCounter := q.writeCounter + 1 }

def loadSlot (q : Ring α w k) : α := q.buffer (mask k q.readCounter)

def advanceRead (q : Ring α w k) : Ring α w k := { q with readCounter := q.readCounter + 1 }

theorem push_of_room {q : Ring α w k} (h : ¬ q.isFull = true) (item : α) :
    q.push item = ((q.storeSlot item).advanceWrite, true) := by
  rw [push, if_neg h]
  rfl

theorem pop_of_not_empty {q : Ring α w k} (h : ¬ q.isEmpty = true) :
    q.pop = some (q.loadSlot, q.advanceRead) := by
  rw [pop, if_neg h]
  rfl

/-- `q` holds `xs`, first element first, and `r` elements have been removed from it. -/
structure Represents (q : Ring α w k) (r : ℕ) (xs : List α) : Prop where
  read : q.readCounter = BitVec.ofNat w r
  write : q.writeCounter = BitVec.ofNat w (r + xs.length)
  bound : xs.length ≤ 2 ^ k
  slots : ∀ i (h : i < xs.length), q.buffer ((r + i) % 2 ^ k) = xs[i]

end Ring

theorem toNat_capacity_sub_one (hk : k < w) : (capacity w k - 1#w).toNat = 2 ^ k - 1 := by
  have hlt : 2 ^ k < 2 ^ w := Nat.pow_lt_pow_right Nat.one_lt_two hk
  have hpos : 0 < 2 ^ k := Nat.two_pow_pos k
  have hone : (1 : ℕ) < 2 ^ w := Nat.one_lt_two_pow (by omega)
  have hle : 1#w ≤ capacity w k := by
    rw [BitVec.le_def, capacity, BitVec.toNat_ofNat, BitVec.toNat_ofNat, Nat.mod_eq_of_lt hlt,
      Nat.mod_eq_of_lt hone]
    exact hpos
  rw [BitVec.toNat_sub_of_le hle, capacity, BitVec.toNat_ofNat, BitVec.toNat_ofNat,
    Nat.mod_eq_of_lt hlt, Nat.mod_eq_of_lt hone]

/-- Masking a counter finds the slot of the unbounded count, wrapped or not. -/
theorem mask_ofNat (hk : k < w) (n : ℕ) : mask k (BitVec.ofNat w n) = n % 2 ^ k := by
  rw [mask, BitVec.toNat_and, toNat_capacity_sub_one hk, Nat.and_two_pow_sub_one_eq_mod,
    BitVec.toNat_ofNat, Nat.mod_mod_of_dvd _ (Nat.pow_dvd_pow 2 hk.le)]

theorem ofNat_inj_of_le (hk : k < w) {m n : ℕ} (hm : m ≤ 2 ^ k) (hn : n ≤ 2 ^ k)
    (h : BitVec.ofNat w m = BitVec.ofNat w n) : m = n := by
  have hlt : 2 ^ k < 2 ^ w := Nat.pow_lt_pow_right Nat.one_lt_two hk
  have := congrArg BitVec.toNat h
  rwa [BitVec.toNat_ofNat, BitVec.toNat_ofNat, Nat.mod_eq_of_lt (hm.trans_lt hlt),
    Nat.mod_eq_of_lt (hn.trans_lt hlt)] at this

namespace Ring.Represents

variable {q : Ring α w k} {r : ℕ} {xs : List α}

theorem empty (buffer : ℕ → α) : Represents (⟨buffer, 0#w, 0#w⟩ : Ring α w k) 0 [] :=
  ⟨rfl, rfl, Nat.zero_le _, fun i h => by cases h⟩

theorem size_eq (h : q.Represents r xs) : q.size = BitVec.ofNat w xs.length := by
  rw [size, h.read, h.write, BitVec.ofNat_add, BitVec.add_comm, BitVec.add_sub_cancel]

theorem toNat_size (hk : k < w) (h : q.Represents r xs) : q.size.toNat = xs.length := by
  have hlt : 2 ^ k < 2 ^ w := Nat.pow_lt_pow_right Nat.one_lt_two hk
  rw [h.size_eq, BitVec.toNat_ofNat, Nat.mod_eq_of_lt (h.bound.trans_lt hlt)]

theorem isFull_iff (hk : k < w) (h : q.Represents r xs) :
    q.isFull = true ↔ xs.length = 2 ^ k := by
  rw [isFull, beq_iff_eq, h.size_eq, capacity]
  exact ⟨ofNat_inj_of_le hk h.bound le_rfl, fun he => by rw [he]⟩

theorem isEmpty_iff (hk : k < w) (h : q.Represents r xs) : q.isEmpty = true ↔ xs = [] := by
  have hsize : q.isEmpty = true ↔ q.size = BitVec.ofNat w 0 := by
    rw [isEmpty, beq_iff_eq, size, eq_comm]
    constructor
    · intro he
      rw [he, BitVec.sub_self]
    · intro he
      rw [← BitVec.sub_add_cancel q.writeCounter q.readCounter, he, BitVec.zero_add]
  rw [hsize, h.size_eq, ← List.length_eq_zero_iff]
  exact ⟨ofNat_inj_of_le hk h.bound (Nat.zero_le _), fun he => by rw [he]⟩

theorem push_room (hk : k < w) (h : q.Represents r xs) (hroom : xs.length < 2 ^ k) (x : α) :
    (q.push x).2 = true ∧ (q.push x).1.Represents r (xs ++ [x]) := by
  have hnot : ¬ q.isFull = true := fun hfull => hroom.ne ((h.isFull_iff hk).mp hfull)
  rw [push, if_neg hnot]
  refine ⟨rfl, h.read, ?_, ?_, fun i hi => ?_⟩
  · rw [List.length_append, List.length_singleton, ← Nat.add_assoc, BitVec.ofNat_add, ← h.write]
    rfl
  · rw [List.length_append, List.length_singleton]
    omega
  · rw [List.length_append, List.length_singleton] at hi
    change Function.update q.buffer (mask k q.writeCounter) x _ = _
    rw [h.write, mask_ofNat hk]
    rcases Nat.lt_or_ge i xs.length with hlt | hge
    · have hne : (r + i) % 2 ^ k ≠ (r + xs.length) % 2 ^ k := by
        intro he
        have hmod : i ≡ xs.length [MOD 2 ^ k] := Nat.ModEq.add_left_cancel' r he
        exact hlt.ne (Nat.ModEq.eq_of_lt_of_lt hmod (hlt.trans hroom) hroom)
      rw [Function.update_of_ne hne, h.slots i hlt, List.getElem_append_left hlt]
    · obtain rfl : i = xs.length := by omega
      rw [Function.update_self, List.getElem_append_right le_rfl]
      simp

theorem pop_nil (hk : k < w) (h : q.Represents r []) : q.pop = none := by
  rw [pop, if_pos ((h.isEmpty_iff hk).mpr rfl)]

theorem pop_cons (hk : k < w) {x : α} (h : q.Represents r (x :: xs)) :
    ∃ q', q.pop = some (x, q') ∧ q'.Represents (r + 1) xs := by
  have hnot : ¬ q.isEmpty = true := fun he => by cases (h.isEmpty_iff hk).mp he
  have hhead : q.buffer (mask k q.readCounter) = x := by
    rw [h.read, mask_ofNat hk]
    exact h.slots 0 (Nat.succ_pos _)
  refine ⟨{ q with readCounter := q.readCounter + 1 }, by rw [pop, if_neg hnot, hhead], ?_, ?_,
    (Nat.le_succ _).trans h.bound, fun i hi => ?_⟩
  · rw [BitVec.ofNat_add, ← h.read]
    rfl
  · rw [h.write, List.length_cons, Nat.add_assoc, Nat.add_comm 1]
  · have := h.slots (i + 1) (Nat.succ_lt_succ hi)
    rwa [← Nat.add_assoc, Nat.add_right_comm] at this

theorem loadSlot (hk : k < w) {x : α} (h : q.Represents r (x :: xs)) : q.loadSlot = x := by
  rw [Ring.loadSlot, h.read, mask_ofNat hk]
  exact h.slots 0 (Nat.succ_pos _)

/-- A store for a push on its way does not reach the front. -/
theorem loadSlot_storeSlot (hk : k < w) {x : α} (h : q.Represents r (x :: xs))
    (hroom : (x :: xs).length < 2 ^ k) (item : α) : (q.storeSlot item).loadSlot = x := by
  have hne : r % 2 ^ k ≠ (r + (x :: xs).length) % 2 ^ k := by
    intro he
    have hmod : 0 ≡ (x :: xs).length [MOD 2 ^ k] := Nat.ModEq.add_left_cancel' r he
    exact absurd (hmod.eq_of_lt_of_lt (Nat.two_pow_pos k) hroom).symm (Nat.succ_ne_zero _)
  have hfront := h.loadSlot hk
  rw [Ring.loadSlot, h.read, mask_ofNat hk] at hfront
  change Function.update q.buffer (mask k q.writeCounter) item (mask k q.readCounter) = x
  rw [h.read, h.write, mask_ofNat hk, mask_ofNat hk, Function.update_of_ne hne]
  exact hfront

end Ring.Represents

end FifoRing

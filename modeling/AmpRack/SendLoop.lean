import AmpRack.MachineInts
import Mathlib.Data.List.Infix
import Mathlib.Tactic.Common

/-!
# The loop around `send`

`send_response` and `send_request` append their framing and hand the bytes to `send` until none are
left. They count them in an `int`, so a message of 2 GiB or more is cut short without an error or read
past its end.
-/

namespace AmpRack

/-- `'}'`. -/
def brace : UInt8 := 0x7d

/-- What `send` reports: the number of bytes it took, `EINTR` or another error. -/
inductive Sent
  | wrote (n : ℕ)
  | interrupted
  | failed

namespace SendLoop

open MachineInts

/-- `send` is given a negative count, as a `size_t` larger than any string. -/
inductive SendFault
  | pastEnd
  deriving DecidableEq

/-- What the function returns, if it has, and the bytes that the socket has accepted. -/
structure Progress where
  returned : Option Bool
  accepted : List UInt8
  deriving DecidableEq

/-- The `while` loop, from `ptr`, `nleft` and the bytes accepted so far. The socket takes at most what
it is offered. -/
def loop (framed : List UInt8) (ptr : ℕ) (nleft : ℤ) (accepted : List UInt8) (sends : List Sent) :
    Except SendFault Progress :=
  if nleft = 0 then .ok ⟨some true, accepted⟩
  else if nleft < 0 then .error .pastEnd
  else
    match sends with
    | [] => .ok ⟨none, accepted⟩
    | .interrupted :: rs => loop framed ptr nleft accepted rs
    | .failed :: _ => .ok ⟨some false, accepted⟩
    | .wrote n :: rs =>
      let nwritten := min n nleft.toNat
      if nwritten = 0 then .ok ⟨some false, accepted⟩
      else
        loop framed (ptr + nwritten) (nleft - nwritten)
          (accepted ++ (framed.drop ptr).take nwritten) rs

def send (framed : List UInt8) (sends : List Sent) : Except SendFault Progress :=
  loop framed 0 (intOfSize framed.length) [] sends

/-- `Server::send_response`, for the bytes of `response`. -/
def sendResponse (response : List UInt8) (sends : List Sent) : Except SendFault Progress :=
  send (response ++ [brace, 0x0a]) sends

/-- `Client::send_request`, for the bytes of `request`. -/
def sendRequest (request : List UInt8) (sends : List Sent) : Except SendFault Progress :=
  send (request ++ [brace]) sends

/-- Whatever `send` reports: the bytes accepted are a prefix of the framed message, and `true` means
all of it. -/
def DeliversOnce (framed : List UInt8) (sender : List Sent → Except SendFault Progress) : Prop :=
  ∀ sends, ∃ p, sender sends = .ok p ∧ p.accepted <+: framed ∧
    (p.returned = some true ↔ p.accepted = framed)

variable {framed : List UInt8} {ptr n : ℕ} {sends : List Sent}

theorem take_ne_self (hlt : ptr < framed.length) : framed.take ptr ≠ framed := by
  intro h
  have hlen := congrArg List.length h
  rw [List.length_take, min_eq_left hlt.le] at hlen
  omega

/-- A loop that still has bytes left has not accepted the whole message. -/
theorem pending_ok (hlt : ptr < framed.length) {returned : Option Bool} (h : returned ≠ some true) :
    framed.take ptr <+: framed ∧ (returned = some true ↔ framed.take ptr = framed) :=
  ⟨List.take_prefix _ _, iff_of_false h (take_ne_self hlt)⟩

theorem loop_done (accepted : List UInt8) :
    loop framed ptr 0 accepted sends = .ok ⟨some true, accepted⟩ := by
  rw [loop.eq_def, if_pos rfl]

theorem loop_negative {nleft : ℤ} (hneg : nleft < 0) (accepted : List UInt8) :
    loop framed ptr nleft accepted sends = .error .pastEnd := by
  rw [loop.eq_def, if_neg (by omega), if_pos hneg]

/-- One turn while bytes are left: what `send` took is behind `ptr`. -/
theorem loop_wrote (hlt : ptr < framed.length) (n : ℕ) :
    let nwritten := min n (framed.length - ptr)
    loop framed ptr (framed.length - ptr : ℕ) (framed.take ptr) (.wrote n :: sends) =
      if n = 0 then .ok ⟨some false, framed.take ptr⟩
      else
        loop framed (ptr + nwritten) (framed.length - (ptr + nwritten) : ℕ)
          (framed.take (ptr + nwritten)) sends := by
  intro nwritten
  have hleft : ((framed.length - ptr : ℕ) : ℤ) - nwritten =
      (framed.length - (ptr + nwritten) : ℕ) := by omega
  rw [loop.eq_def, if_neg (by omega), if_neg (by omega)]
  simp only [Int.toNat_natCast]
  rw [← hleft, List.take_add]
  by_cases hn : n = 0
  · rw [if_pos hn, if_pos (by omega)]
  · rw [if_neg hn, if_neg (by omega)]

theorem loop_nil (hlt : ptr < framed.length) (accepted : List UInt8) :
    loop framed ptr (framed.length - ptr : ℕ) accepted [] = .ok ⟨none, accepted⟩ := by
  rw [loop.eq_def, if_neg (by omega), if_neg (by omega)]

theorem loop_interrupted (hlt : ptr < framed.length) (accepted : List UInt8) :
    loop framed ptr (framed.length - ptr : ℕ) accepted (.interrupted :: sends) =
      loop framed ptr (framed.length - ptr : ℕ) accepted sends := by
  rw [loop.eq_def, if_neg (by omega), if_neg (by omega)]

theorem loop_failed (hlt : ptr < framed.length) (accepted : List UInt8) :
    loop framed ptr (framed.length - ptr : ℕ) accepted (.failed :: sends) =
      .ok ⟨some false, accepted⟩ := by
  rw [loop.eq_def, if_neg (by omega), if_neg (by omega)]

/-- The invariant: `ptr` bytes are accepted and `nleft` is what is left of the message. -/
theorem loop_ok (hle : ptr ≤ framed.length) (sends : List Sent) :
    ∃ p, loop framed ptr (framed.length - ptr : ℕ) (framed.take ptr) sends = .ok p ∧
      p.accepted <+: framed ∧ (p.returned = some true ↔ p.accepted = framed) := by
  induction sends generalizing ptr with
  | nil =>
    obtain hlt | rfl := hle.lt_or_eq
    · exact ⟨_, loop_nil hlt _, pending_ok hlt (by simp)⟩
    · rw [Nat.sub_self, List.take_length]
      exact ⟨_, loop_done _, List.prefix_refl _, by simp⟩
  | cons r rs ih =>
    obtain hlt | rfl := hle.lt_or_eq
    · cases r with
      | interrupted =>
        rw [loop_interrupted hlt]
        exact ih hle
      | failed => exact ⟨_, loop_failed hlt _, pending_ok hlt (by simp)⟩
      | wrote n =>
        rw [loop_wrote hlt]
        split_ifs
        · exact ⟨_, rfl, pending_ok hlt (by simp)⟩
        · exact ih (by omega)
    · rw [Nat.sub_self, List.take_length]
      exact ⟨_, loop_done _, List.prefix_refl _, by simp⟩

theorem send_of_lt (hlt : framed.length < 2 ^ 31) (sends : List Sent) :
    send framed sends = loop framed 0 (framed.length - 0 : ℕ) (framed.take 0) sends := by
  rw [send, intOfSize_of_lt (by omega), Nat.mod_eq_of_lt (by omega)]
  rfl

theorem deliversOnce_of_lt (hlt : framed.length < 2 ^ 31) : DeliversOnce framed (send framed) := by
  intro sends
  rw [send_of_lt hlt]
  exact loop_ok (Nat.zero_le _) sends

/-- A loop that succeeds has sent everything. -/
theorem eq_of_send (hlt : framed.length < 2 ^ 31) {out : List UInt8}
    (h : send framed sends = .ok ⟨some true, out⟩) : out = framed := by
  obtain ⟨p, hp, -, htrue⟩ := deliversOnce_of_lt hlt sends
  rw [h] at hp
  cases hp
  exact htrue.mp rfl

/-- A socket that takes all it is offered. -/
theorem exists_send (hlt : framed.length < 2 ^ 31) :
    ∃ sends, send framed sends = .ok ⟨some true, framed⟩ := by
  refine ⟨[.wrote framed.length], ?_⟩
  rw [send_of_lt hlt]
  by_cases hzero : framed.length = 0
  · rw [List.length_eq_zero_iff.mp hzero]
    rfl
  · rw [loop_wrote (Nat.pos_of_ne_zero hzero), if_neg hzero, Nat.sub_zero, min_self, Nat.zero_add,
      Nat.sub_self, List.take_length]
    exact loop_done _

/-- What is left of the length in 32 bits is negative, or it is sent and the rest is not. -/
theorem exists_send_cut (hge : 2 ^ 31 ≤ framed.length) :
    ∃ sends, send framed sends = .error .pastEnd ∨
      ∃ k, k + 2 ^ 32 ≤ framed.length ∧ send framed sends = .ok ⟨some true, framed.take k⟩ := by
  let k := framed.length % 2 ^ 32
  refine ⟨[.wrote k], ?_⟩
  rw [send]
  by_cases hneg : 2 ^ 31 ≤ k
  · exact .inl (loop_negative (intOfSize_of_le hneg).2 _)
  · refine .inr ⟨k, by omega, ?_⟩
    rw [intOfSize_of_lt (not_le.mp hneg)]
    by_cases hzero : framed.length % 2 ^ 32 = 0
    · rw [show k = 0 from hzero, hzero]
      exact loop_done []
    · rw [loop.eq_def, if_neg (by omega), if_neg (by omega)]
      simp only [Int.toNat_natCast, k, min_self, if_neg hzero, Int.sub_self]
      exact loop_done _

theorem not_deliversOnce (hge : 2 ^ 31 ≤ framed.length) : ¬ DeliversOnce framed (send framed) := by
  intro h
  obtain ⟨sends, herror | ⟨k, hk, hcut⟩⟩ := exists_send_cut hge
  · obtain ⟨p, hp, -⟩ := h sends
    rw [herror] at hp
    cases hp
  · obtain ⟨p, hp, -, htrue⟩ := h sends
    rw [hcut] at hp
    cases hp
    exact take_ne_self (by omega) (htrue.mp rfl)

theorem deliversOnce_iff_lt : DeliversOnce framed (send framed) ↔ framed.length < 2 ^ 31 := by
  constructor
  · intro h
    by_contra hge
    exact not_deliversOnce (not_lt.mp hge) h
  · exact deliversOnce_of_lt

/-- Every byte is delivered once, and `true` returned for the whole message only, exactly when an
`int` holds the length of the framed message. -/
theorem deliversOnce_iff (message : List UInt8) :
    (DeliversOnce (message ++ [brace, 0x0a]) (sendResponse message) ↔
        message.length + 2 < 2 ^ 31) ∧
      (DeliversOnce (message ++ [brace]) (sendRequest message) ↔ message.length + 1 < 2 ^ 31) := by
  constructor
  · have hlen : (message ++ [brace, 0x0a]).length = message.length + 2 := List.length_append
    rw [← hlen]
    exact deliversOnce_iff_lt
  · have hlen : (message ++ [brace]).length = message.length + 1 := List.length_append
    rw [← hlen]
    exact deliversOnce_iff_lt

/-- With the framing it is 4 GiB long: the count is 0 and nothing is sent. -/
def longMessage : List UInt8 := List.replicate (2 ^ 32 - 2) 0x61

theorem longMessage_not_delivered :
    ¬ DeliversOnce (longMessage ++ [brace, 0x0a]) (sendResponse longMessage) := by
  apply not_deliversOnce
  rw [List.length_append, longMessage, List.length_replicate]
  norm_num

end SendLoop

end AmpRack

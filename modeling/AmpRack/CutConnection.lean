import AmpRack.ServerLoop

/-!
# Connections that are cut

A message of which only the beginning comes, because the peer closes or a read fails, is to be left
alone. On Linux both sides take it for an empty one. On Windows both go on with what has come: the
server parses it in any case, the client when it is not empty.
-/

namespace AmpRack

open JsonText Framing Utf8Text

/-- The bytes of a message come one chunk after the other, and then no more. -/
inductive Cut : List UInt8 → List Recv → Prop
  | ends {r rs} (h : r = .closed ∨ r = .failed)
    (hrs : ∀ r ∈ rs, r = .closed ∨ r = .failed ∨ r = .interrupted) : Cut [] (r :: rs)
  | interrupted {text rs} (h : Cut text rs) : Cut text (.interrupted :: rs)
  | data {chunk text rs} (hne : chunk ≠ []) (h : Cut text rs) :
    Cut (chunk ++ text) (.data chunk :: rs)

/-- A message that is cut in front of its last brace, in front of which there are no three. -/
structure CutConnection where
  message : List UInt8
  braceFree : hasBraces message = false
  read : List UInt8
  isPrefix : read <+: message
  recvs : List Recv
  cut : Cut read recvs

/-- The two sides on Linux and on Windows. -/
inductive Side
  | server
  | client
  | winServer
  | winClient
  deriving DecidableEq

/-- The requests that `handle` gets, as long as its responses go out. -/
def Server.requests (text : List UInt8) : List Recv → List (List UInt8)
  | [] => []
  | r :: rs =>
    match readStep text r with
    | .more text => requests text rs
    | .done request => request :: requests [] rs

/-- What `read_some` puts into the buffer: nothing when it fails. -/
def Recv.chunk : Recv → List UInt8
  | .data chunk => chunk
  | _ => []

/-- `ec.failed ()`. -/
def Recv.fails : Recv → Bool
  | .data _ => false
  | _ => true

namespace Win

/-- The loop around `read_some`, on both sides. -/
def receive (str : List UInt8) : List Recv → Option (List UInt8)
  | [] => none
  | r :: rs =>
    if r.fails || hasBraces (str ++ r.chunk) || (str ++ r.chunk)[1]? = some brace then
      some (str ++ r.chunk)
    else receive (str ++ r.chunk) rs

/-- What comes after the loop, on both sides. The second byte of an empty string is not there; either
branch leaves it. -/
def trim (str : List UInt8) : List UInt8 :=
  if str[1]? ≠ some brace then popBack hasBraces str
  else popBack (contains (List.replicate 2 brace)) str

end Win

namespace Side

/-- What `handle` and `sync_send` make of a text: it is parsed unless it is empty. -/
def parsedText (text : List UInt8) : Option (List UInt8) :=
  if text = [] then none else some (popBack hasBraces text)

/-- The texts that are passed to `json::parse`. -/
def parsed : Side → List Recv → List (List UInt8)
  | .server, recvs => (Server.requests [] recvs).filterMap parsedText
  | .client, recvs => ((Client.getResponse recvs).bind parsedText).toList
  | .winServer, recvs => ((Win.receive [] recvs).map Win.trim).toList
  | .winClient, recvs => (((Win.receive [] recvs).map Win.trim).bind parsedText).toList

/-- The values that are imported. -/
def imported (side : Side) (recvs : List Recv) : List Json :=
  (side.parsed recvs).filterMap fun text => (ofBytes text).bind parse

/-- An exception of `json::parse` escapes. -/
def Throws (side : Side) (recvs : List Recv) : Prop :=
  ∃ text ∈ side.parsed recvs, (ofBytes text).bind parse = none

structure LeavesAlone (side : Side) (recvs : List Recv) : Prop where
  parsed : side.parsed recvs = []
  imported : side.imported recvs = []
  quiet : ¬ side.Throws recvs

/-- Linux; or the Windows client, when the first read fails. -/
def CutOk (side : Side) (recvs : List Recv) : Prop :=
  side = .server ∨ side = .client ∨ side = .winClient ∧ ∀ chunk rs, recvs ≠ .data chunk :: rs

end Side

theorem Side.leavesAlone_iff {side : Side} {recvs : List Recv} :
    side.LeavesAlone recvs ↔ side.parsed recvs = [] := by
  constructor
  · exact fun h => h.parsed
  · intro h
    refine ⟨h, by rw [Side.imported, h, List.filterMap_nil], ?_⟩
    rintro ⟨text, htext, -⟩
    rw [h] at htext
    cases htext

section Linux

variable {text read : List UInt8} {recvs : List Recv}

theorem not_hasBraces_of_append {xs ys : List UInt8} (h : hasBraces (xs ++ ys) = false) :
    hasBraces xs = false ∧ hasBraces ys = false := by
  simp only [hasBraces, ← Bool.not_eq_true, contains_iff] at h ⊢
  exact ⟨fun hx => h (hx.trans (List.prefix_append xs ys).isInfix),
    fun hy => h (hy.trans (List.suffix_append xs ys).isInfix)⟩

/-- Without the braces a chunk is waited on, or it has a brace in the second place. -/
theorem readStep_data (hbraces : hasBraces (text ++ chunk) = false) :
    readStep text (.data chunk) = .done [] ∨
      readStep text (.data chunk) = .more (text ++ chunk) := by
  rw [readStep, hbraces]
  by_cases hsecond : (text ++ chunk)[1]? = some brace
  · exact .inl (if_pos hsecond)
  · exact .inr ((if_neg hsecond).trans (if_neg Bool.false_ne_true))

/-- Without bytes no request has any. -/
theorem requests_of_ended (hrs : ∀ r ∈ recvs, r = .closed ∨ r = .failed ∨ r = .interrupted)
    (text : List UInt8) : ∀ request ∈ Server.requests text recvs, request = [] := by
  induction recvs generalizing text with
  | nil => exact fun request h => absurd h List.not_mem_nil
  | cons r rs ih =>
    obtain ⟨hr, hrest⟩ := List.forall_mem_cons.mp hrs
    rcases hr with rfl | rfl | rfl
    · exact List.forall_mem_cons.mpr ⟨rfl, ih hrest []⟩
    · exact List.forall_mem_cons.mpr ⟨rfl, ih hrest []⟩
    · exact ih hrest text

theorem requests_of_cut (hcut : Cut read recvs) (hbraces : hasBraces (text ++ read) = false) :
    ∀ request ∈ Server.requests text recvs, request = [] := by
  induction hcut generalizing text with
  | ends hr hrs =>
    have hrest := requests_of_ended hrs []
    rcases hr with rfl | rfl <;> exact List.forall_mem_cons.mpr ⟨rfl, hrest⟩
  | interrupted h ih => exact ih hbraces
  | @data chunk read rs hne h ih =>
    rw [← List.append_assoc] at hbraces
    obtain ⟨hchunk, hread⟩ := not_hasBraces_of_append hbraces
    rw [Server.requests]
    rcases readStep_data hchunk with hstep | hstep
    · rw [hstep]
      exact List.forall_mem_cons.mpr ⟨rfl, ih hread⟩
    · rw [hstep]
      exact ih hbraces

theorem receive_of_cut (hcut : Cut read recvs) (hbraces : hasBraces (text ++ read) = false) :
    receive text recvs = some [] := by
  induction hcut generalizing text with
  | ends hr hrs =>
    rw [receive_cons (not_hasBraces_of_append hbraces).1]
    rcases hr with rfl | rfl <;> rfl
  | interrupted h ih =>
    rw [receive_cons (not_hasBraces_of_append hbraces).1]
    exact ih hbraces
  | @data chunk read rs hne h ih =>
    rw [receive_cons (not_hasBraces_of_append hbraces).1]
    rw [← List.append_assoc] at hbraces
    rcases readStep_data (not_hasBraces_of_append hbraces).1 with hstep | hstep
    · rw [hstep]
    · rw [hstep]
      exact ih hbraces

end Linux

section Windows

variable {str read : List UInt8} {recvs : List Recv}

theorem exists_winReceive (hcut : Cut read recvs) (str : List UInt8) :
    ∃ t, Win.receive str recvs = some (str ++ t) := by
  induction hcut generalizing str with
  | ends hr hrs =>
    refine ⟨[], ?_⟩
    rcases hr with rfl | rfl <;> rfl
  | interrupted h ih => exact ⟨[], rfl⟩
  | @data chunk read rs hne h ih =>
    rw [Win.receive]
    split_ifs with hbreak
    · exact ⟨chunk, rfl⟩
    · obtain ⟨t, ht⟩ := ih (str ++ chunk)
      exact ⟨chunk ++ t, by rw [← List.append_assoc]; exact ht⟩

/-- Nothing has come exactly when the first read fails. -/
theorem winReceive_nil_iff (hcut : Cut read recvs) :
    Win.receive [] recvs = some [] ↔ ∀ chunk rs, recvs ≠ .data chunk :: rs := by
  cases hcut with
  | ends hr hrs =>
    rcases hr with rfl | rfl
    · exact ⟨fun _ chunk rs h => (by cases h), fun _ => rfl⟩
    · exact ⟨fun _ chunk rs h => (by cases h), fun _ => rfl⟩
  | interrupted h => exact ⟨fun _ chunk rs h => (by cases h), fun _ => rfl⟩
  | @data chunk read rs hne h =>
    constructor
    · intro hnil
      rw [Win.receive] at hnil
      split_ifs at hnil with hbreak
      · exact absurd (Option.some.inj hnil) hne
      · obtain ⟨t, ht⟩ := exists_winReceive h ([] ++ chunk)
        rw [show ([] ++ (Recv.data chunk).chunk) = [] ++ chunk from rfl, ht] at hnil
        exact absurd (List.append_eq_nil_iff.mp (Option.some.inj hnil)).1 hne
    · exact fun h => absurd rfl (h chunk rs)

theorem trim_eq_nil_iff : Win.trim str = [] ↔ str = [] := by
  constructor
  · intro h
    by_contra hne
    have hone (k : ℕ) (b : UInt8) : contains (List.replicate (k + 2) brace) [b] = false := by
      apply not_contains_of_length_lt
      rw [List.length_singleton, List.length_replicate]
      omega
    rw [Win.trim] at h
    split_ifs at h
    · exact popBack_ne_nil (hone 1) hne h
    · exact popBack_ne_nil (hone 0) hne h
  · rintro rfl
    rfl

end Windows

namespace CutConnection

/-- A connection that is cut imports nothing on Linux; on Windows only if not even the first read
succeeds, and only in the client. -/
theorem leavesAlone_iff_cutOk (c : CutConnection) (side : Side) :
    side.LeavesAlone c.recvs ↔ side.CutOk c.recvs := by
  have hbraces : hasBraces ([] ++ c.read) = false := by
    obtain ⟨rest, hrest⟩ := c.isPrefix
    have hmessage := c.braceFree
    rw [← hrest] at hmessage
    exact (not_hasBraces_of_append hmessage).1
  obtain ⟨t, ht⟩ := exists_winReceive c.cut []
  rw [Side.leavesAlone_iff]
  cases side with
  | server =>
    refine iff_of_true (List.filterMap_eq_nil_iff.mpr fun request hrequest => ?_) (.inl rfl)
    rw [requests_of_cut c.cut hbraces request hrequest]
    rfl
  | client =>
    refine iff_of_true ?_ (.inr (.inl rfl))
    rw [Side.parsed, Client.getResponse, receive_of_cut c.cut hbraces]
    rfl
  | winServer =>
    refine iff_of_false ?_ (by simp [Side.CutOk])
    rw [Side.parsed, ht]
    exact List.cons_ne_nil _ _
  | winClient =>
    have hparsed : Side.winClient.parsed c.recvs = [] ↔ t = [] := by
      rw [Side.parsed, ht, List.nil_append, Option.map_some, Option.bind_some, Side.parsedText]
      by_cases h : Win.trim t = []
      · rw [if_pos h]
        exact iff_of_true rfl (trim_eq_nil_iff.mp h)
      · rw [if_neg h]
        exact iff_of_false (List.cons_ne_nil _ _) fun hnil => h (trim_eq_nil_iff.mpr hnil)
    have hnil := winReceive_nil_iff c.cut
    rw [ht, List.nil_append, Option.some.injEq] at hnil
    rw [hparsed, hnil, Side.CutOk]
    simp

/-- The message of a preset whose name is `a`, which is closed behind its first byte. -/
def closedAtOnce : CutConnection where
  message := bytes (messageText (getAllUserPresets [(namedPreset ['a']).toJson]))
  braceFree := by decide
  read := [0x7b]
  isPrefix := by decide
  recvs := [.data [0x7b], .closed]
  cut := .data (List.cons_ne_nil 0x7b []) (.ends (.inl rfl) fun _ h => absurd h List.not_mem_nil)

/-- The Windows server parses the brace, and the exception escapes. -/
theorem closedAtOnce_not_leavesAlone :
    Side.winServer.Throws closedAtOnce.recvs ∧ ¬ Side.winServer.LeavesAlone closedAtOnce.recvs := by
  have hthrows : Side.winServer.Throws closedAtOnce.recvs := ⟨[0x7b], List.mem_cons_self, rfl⟩
  exact ⟨hthrows, fun h => h.quiet hthrows⟩

end CutConnection

end AmpRack

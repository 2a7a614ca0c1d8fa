import AmpRack.SavedPreset
import AmpRack.SendLoop
import AmpRack.Utf8Text

/-!
# The messages of a synchronisation

A request is the text of a collection of presets and one brace more, a response is followed by a
brace and a newline. Both receivers read until three braces in a row have come and then drop bytes
from the end until they are gone. A collection ends with two braces, so that what is dropped is what
was appended, unless one of its strings has three braces in a row. A text of 2 GiB is not sent whole.
-/

namespace AmpRack

open JsonText Framing Utf8Text

/-- `text.find ("}}}") != npos`. -/
def hasBraces (text : List UInt8) : Bool := contains (List.replicate 3 brace) text

/-- What `recv` reports: bytes, `EINTR`, another error or the end of the stream. -/
inductive Recv
  | data (chunk : List UInt8)
  | interrupted
  | failed
  | closed

/-- The loop around `recv`, from what it has read. It has no result while it waits for more. -/
def receive (text : List UInt8) : List Recv → Option (List UInt8)
  | [] => if hasBraces text then some text else none
  | r :: rs =>
    if hasBraces text then some text
    else
      match r with
      | .interrupted => receive text rs
      | .failed => some []
      | .closed => some []
      | .data chunk =>
        if (text ++ chunk)[1]? = some brace then some [] else receive (text ++ chunk) rs

/-- `j.empty ()`. -/
def isEmpty : Json → Bool
  | .null => true
  | .arr xs => xs.isEmpty
  | .obj ms => ms.isEmpty
  | _ => false

/-- The text of a collection, on both sides. -/
def messageText (j : Json) : Text := if isEmpty j then ['{', '}'] else dump j

/-- An `int` holds the length of the response, and so of the request. -/
def Short (j : Json) : Prop := (bytes (messageText j)).length + 2 < 2 ^ 31

instance (j : Json) : Decidable (Short j) := inferInstanceAs (Decidable (_ < _))

/-- What is imported from a message, on both sides: nothing if it is empty, and `json::parse` throws
if it is no JSON. -/
def importable (text : List UInt8) : Option Json :=
  if text = [] then none else (ofBytes (popBack hasBraces text)).bind parse

/-- What is imported from a message that comes through: an empty collection is taken for none. -/
def delivered (j : Json) : Option Json := if isEmpty j then none else some j

/-- The collection that is sent, from the contents of the files. -/
def getAllUserPresets (files : List Json) : Json :=
  if files = [] then .null else .obj (numbered files)

namespace Client

/-- The first half of `send_preset`. -/
def sendPreset (j : Json) (sends : List Sent) : Except SendLoop.SendFault SendLoop.Progress :=
  SendLoop.sendRequest (bytes (messageText j)) sends

/-- The second half of `send_preset`. -/
def getResponse (recvs : List Recv) : Option (List UInt8) := receive [] recvs

/-- What `sync_send` imports. -/
def imported (recvs : List Recv) : Option Json := (getResponse recvs).bind importable

end Client

namespace Server

def getRequest (recvs : List Recv) : Option (List UInt8) := receive [] recvs

/-- `send_response` of what `handle` sends. -/
def sendPreset (j : Json) (sends : List Sent) : Except SendLoop.SendFault SendLoop.Progress :=
  SendLoop.sendResponse (bytes (messageText j)) sends

/-- What `handle` imports. -/
def imported (recvs : List Recv) : Option Json := (getRequest recvs).bind importable

end Server

/-- The ways `recv` can hand over a stream that is not cut short. -/
inductive Splits : List UInt8 → List Recv → Prop
  | nil : Splits [] []
  | interrupted {stream rs} (h : Splits stream rs) : Splits stream (.interrupted :: rs)
  | data {chunk stream rs} (hne : chunk ≠ []) (hlen : chunk.length ≤ 1024) (h : Splits stream rs) :
    Splits (chunk ++ stream) (.data chunk :: rs)

/-- Neither side goes past the end of its message, and when it has sent it the other side imports the
value, however the bytes are cut. -/
structure RoundTrips (j : Json) : Prop where
  toServer : ∀ sends, ∃ p, Client.sendPreset j sends = .ok p ∧
    (p.returned = some true → ∀ recvs, Splits p.accepted recvs → Server.imported recvs = some j)
  toClient : ∀ sends, ∃ p, Server.sendPreset j sends = .ok p ∧
    (p.returned = some true → ∀ recvs, Splits p.accepted recvs → Client.imported recvs = some j)

section Receive

variable {text y zs : List UInt8}

theorem splits_singletons (stream : List UInt8) :
    Splits stream (stream.map fun b => .data [b]) := by
  induction stream with
  | nil => exact .nil
  | cons b bs ih => exact .data (List.cons_ne_nil b []) (by simp) ih

theorem getElem?_eq_of_start {a : UInt8} {xs ys : List UInt8} {i : ℕ} (h : xs <+: ys)
    (hx : xs[i]? = some a) : ys[i]? = some a := by
  obtain ⟨zs, rfl⟩ := h
  obtain ⟨hlt, -⟩ := List.getElem?_eq_some_iff.mp hx
  rwa [List.getElem?_append_left hlt]

/-- A loop that has not come to the braces waits for more. -/
theorem receive_of_not_hasBraces (text : List UInt8) {s : List UInt8} {recvs : List Recv}
    (hs : Splits s recvs) (h : hasBraces (text ++ s) = false)
    (hsecond : (text ++ s)[1]? ≠ some brace) : receive text recvs = none := by
  induction hs generalizing text with
  | nil =>
    rw [List.append_nil] at h
    rw [receive, h]
    rfl
  | interrupted hs ih =>
    have htext : ¬ hasBraces text = true := fun ht => by
      rw [hasBraces, contains_append ht] at h
      cases h
    rw [receive, if_neg htext]
    exact ih _ h hsecond
  | @data chunk s rs hne hlen hs ih =>
    have htext : ¬ hasBraces text = true := fun ht => by
      rw [hasBraces, contains_append ht] at h
      cases h
    rw [← List.append_assoc] at h hsecond
    have hchunk : (text ++ chunk)[1]? ≠ some brace := fun hc =>
      hsecond (getElem?_eq_of_start (List.prefix_append _ _) hc)
    rw [receive, if_neg htext]
    simp only [if_neg hchunk]
    exact ih _ h hsecond

/-- What has run past the first braces goes on past them. -/
theorem append_of_hasBraces (hy : hasBraces y = false) {s : List UInt8}
    (h : text ++ s = y ++ brace :: zs) (ht : hasBraces text = true) :
    ∃ ws, text = y ++ brace :: ws := by
  rcases List.append_eq_append_iff.mp h with ⟨as, rfl, -⟩ | ⟨bs, rfl, hbs⟩
  · rw [hasBraces, contains_append ht as] at hy
    cases hy
  · cases bs with
    | nil =>
      rw [List.append_nil, hy] at ht
      cases ht
    | cons b bs =>
      rw [List.cons_append, List.cons.injEq] at hbs
      exact ⟨bs, by rw [hbs.1]⟩

/-- The loop stops behind the first braces, at the end of some chunk. -/
theorem receive_splits (text : List UInt8) (hy : hasBraces y = false)
    (hbraces : hasBraces (y ++ [brace]) = true) {s : List UInt8} {recvs : List Recv}
    (hs : Splits s recvs) (h : text ++ s = y ++ brace :: zs)
    (hsecond : (text ++ s)[1]? ≠ some brace) :
    ∃ ws, receive text recvs = some (y ++ brace :: ws) := by
  induction hs generalizing text with
  | nil =>
    have ht : hasBraces text = true := by
      rw [List.append_nil] at h
      rw [h, List.append_cons]
      exact contains_append hbraces zs
    obtain ⟨ws, hws⟩ := append_of_hasBraces hy h ht
    exact ⟨ws, by rw [receive, if_pos ht, hws]⟩
  | interrupted hs ih =>
    by_cases ht : hasBraces text = true
    · obtain ⟨ws, hws⟩ := append_of_hasBraces hy h ht
      exact ⟨ws, by rw [receive, if_pos ht, hws]⟩
    · rw [receive, if_neg ht]
      exact ih _ h hsecond
  | @data chunk s rs hne hlen hs ih =>
    by_cases ht : hasBraces text = true
    · obtain ⟨ws, hws⟩ := append_of_hasBraces hy h ht
      exact ⟨ws, by rw [receive, if_pos ht, hws]⟩
    · rw [← List.append_assoc] at h hsecond
      have hchunk : (text ++ chunk)[1]? ≠ some brace := by
        intro hc
        obtain ⟨hlt, -⟩ := List.getElem?_eq_some_iff.mp hc
        rw [List.getElem?_append_left hlt] at hsecond
        exact hsecond hc
      rw [receive, if_neg ht]
      simp only [if_neg hchunk]
      exact ih _ h hsecond

/-- A newline or a request that has come with the braces is dropped with them. -/
theorem importable_append (hy : hasBraces y = false) (hbraces : hasBraces (y ++ [brace]) = true)
    (ws : List UInt8) : importable (y ++ brace :: ws) = (ofBytes y).bind parse := by
  have hx (zs : List UInt8) : hasBraces (y ++ brace :: zs) = true := by
    rw [List.append_cons]
    exact contains_append hbraces zs
  rw [importable, if_neg (by simp), popBack_append hy hx]

theorem closing_bytes (n k : ℕ) (t : Text) : closing n brace k (bytes t) = closing n '}' k t := by
  refine closing_flatMap (f := String.utf8EncodeChar) (by decide) (fun c _ hc k hk => ?_) k
  refine closing_of_notMem (encode_ne_nil c) (not_mem_encode (by decide) fun h => hc ?_) hk
  exact Char.toNat_inj.mp h

/-- The brace behind a text that ends with two makes the first three. -/
theorem hasBraces_bytes {y : Text} (hy : closing 3 '}' 0 y = 2) :
    hasBraces (bytes y) = false ∧ hasBraces (bytes y ++ [brace]) = true := by
  constructor
  · rw [hasBraces, not_contains_iff_closing, closing_bytes, hy]
    decide
  · rw [hasBraces, contains_iff_closing, closing_append, closing_bytes, hy]
    decide

/-- The value that comes out of a stream is read from the text in front of the brace that makes
three. -/
theorem imported_eq {y : Text} (hy : closing 3 '}' 0 y = 2) {recvs : List Recv}
    (hs : Splits (bytes y ++ brace :: zs) recvs)
    (hsecond : (bytes y ++ brace :: zs)[1]? ≠ some brace) :
    (receive [] recvs).bind importable = parse y := by
  obtain ⟨hyb, hbraces⟩ := hasBraces_bytes hy
  obtain ⟨ws, hws⟩ := receive_splits [] hyb hbraces hs rfl hsecond
  rw [hws, Option.bind_some, importable_append hyb hbraces, ofBytes_bytes, Option.bind_some]

theorem three_le_length (h : hasBraces text = true) : 3 ≤ text.length := by
  rw [hasBraces, contains_iff] at h
  have hlen := h.length_le
  rwa [List.length_replicate] at hlen

theorem not_hasBraces_of_length (h : text.length ≤ 1) : ¬ hasBraces text = true := by
  intro hb
  have hlen := three_le_length hb
  omega

/-- A message whose second byte is a brace is taken for an empty one. -/
theorem receive_of_second (text : List UInt8) {s : List UInt8} {recvs : List Recv}
    (hs : Splits s recvs) (hlen : text.length ≤ 1) (hsecond : (text ++ s)[1]? = some brace) :
    receive text recvs = some [] := by
  induction hs generalizing text with
  | nil =>
    rw [List.append_nil, List.getElem?_eq_none hlen] at hsecond
    cases hsecond
  | interrupted hs ih =>
    rw [receive, if_neg (not_hasBraces_of_length hlen)]
    exact ih _ hlen hsecond
  | @data chunk s rs hne hmax hs ih =>
    rw [← List.append_assoc] at hsecond
    rw [receive, if_neg (not_hasBraces_of_length hlen)]
    by_cases hc : (text ++ chunk)[1]? = some brace
    · simp only [if_pos hc]
    · simp only [if_neg hc]
      refine ih _ ?_ hsecond
      by_contra hlong
      rw [List.getElem?_append_left (not_le.mp hlong)] at hsecond
      exact hc hsecond

theorem imported_of_second {s : List UInt8} {recvs : List Recv} (hs : Splits s recvs)
    (hsecond : s[1]? = some brace) : (receive [] recvs).bind importable = none := by
  rw [receive_of_second [] hs (Nat.zero_le 1) hsecond]
  rfl

end Receive

section RoundTrips

variable {ms : Members} {zs : List UInt8} {recvs : List Recv}

theorem exists_dump_obj (hne : ms ≠ []) : ∃ rest, dump (.obj ms) = '{' :: '"' :: rest := by
  obtain ⟨m, ms, rfl⟩ := List.exists_cons_of_ne_nil hne
  exact ⟨_, rfl⟩

theorem second_dump (hne : ms ≠ []) (zs : List UInt8) :
    (bytes (dump (.obj ms)) ++ zs)[1]? ≠ some brace := by
  obtain ⟨rest, hrest⟩ := exists_dump_obj hne
  rw [hrest]
  have hquote : (bytes ('{' :: '"' :: rest) ++ zs)[1]? = some 0x22 := rfl
  rw [hquote]
  decide

/-- The first three braces behind a value: they end its text, or they are in its first bad string, and
then what stands in front of them is no JSON. -/
theorem exists_first_braces (hw : (Json.obj ms).WellFormed)
    (hclosing : closing 3 Token.endObject 0 (Json.obj ms).tokens = 2) :
    ∃ y ws, bytes (dump (.obj ms)) ++ [brace] = bytes y ++ brace :: ws ∧ closing 3 '}' 0 y = 2 ∧
      (BraceFree 3 (Json.obj ms).tokens ∧ y = dump (.obj ms) ∨
        ¬ BraceFree 3 (Json.obj ms).tokens ∧ parse y = none) := by
  have hreadable := tokens_readable _ hw
  by_cases hfree : BraceFree 3 (Json.obj ms).tokens
  · refine ⟨dump (.obj ms), [], rfl, ?_, .inl ⟨hfree, rfl⟩⟩
    rw [dump, closing_render hreadable hfree, hclosing]
  · obtain ⟨before, after, s, p, rest, htokens, hp, htext, hcut⟩ :=
      exists_cut_of_not_braceFree hreadable (by omega) hfree
    refine ⟨render before ++ '"' :: p, bytes rest ++ [brace], ?_, by omega,
      .inr ⟨hfree, parse_cut hw htokens hp⟩⟩
    rw [dump, htext, bytes_append, List.append_assoc]
    rfl

/-- A value whose text ends with two braces comes through when no string of it has three. -/
theorem imported_iff (hne : ms ≠ []) (hw : (Json.obj ms).WellFormed)
    (hclosing : closing 3 Token.endObject 0 (Json.obj ms).tokens = 2)
    (hs : Splits (bytes (dump (.obj ms)) ++ brace :: zs) recvs) :
    (receive [] recvs).bind importable = some (.obj ms) ↔ BraceFree 3 (Json.obj ms).tokens := by
  obtain ⟨y, ws, hy, hclose, hparse⟩ := exists_first_braces hw hclosing
  have hsecond := second_dump hne (brace :: zs)
  rw [List.append_cons, hy, List.append_assoc, List.cons_append] at hs hsecond
  rw [imported_eq hclose hs hsecond]
  rcases hparse with ⟨hfree, rfl⟩ | ⟨hbad, hnone⟩
  · exact iff_of_true (parse_dump hw) hfree
  · rw [hnone]
    exact iff_of_false (by simp) hbad

/-- The beginning of a message is not imported as the whole. -/
theorem imported_take_ne (hne : ms ≠ []) (hw : (Json.obj ms).WellFormed)
    (hclosing : closing 3 Token.endObject 0 (Json.obj ms).tokens = 2) {k : ℕ}
    (hk : k ≤ (bytes (dump (.obj ms))).length)
    (hs : Splits ((bytes (dump (.obj ms)) ++ brace :: zs).take k) recvs) :
    (receive [] recvs).bind importable ≠ some (.obj ms) := by
  obtain ⟨y, ws, hy, hclose, hparse⟩ := exists_first_braces hw hclosing
  have hsecond : ((bytes (dump (.obj ms)) ++ brace :: zs).take k)[1]? ≠ some brace := fun h =>
    second_dump hne _ (getElem?_eq_of_start (List.take_prefix _ _) h)
  rw [List.append_cons, hy, List.append_assoc, List.cons_append] at hs hsecond
  rcases Nat.lt_or_ge (bytes y).length k with hlt | hge
  · rw [List.take_append, List.take_of_length_le hlt.le,
      ← Nat.sub_add_cancel (Nat.sub_pos_of_lt hlt), List.take_succ_cons] at hs hsecond
    rw [imported_eq hclose hs hsecond]
    rcases hparse with ⟨-, rfl⟩ | ⟨-, hnone⟩
    · omega
    · rw [hnone]
      simp
  · rw [List.take_append_of_le_length hge] at hs hsecond
    have hbraces : hasBraces ((bytes y).take k) = false := by
      cases h : hasBraces ((bytes y).take k) with
      | false => rfl
      | true =>
        have hall := contains_append h ((bytes y).drop k)
        rw [List.take_append_drop] at hall
        exact hall.symm.trans (hasBraces_bytes hclose).1
    rw [receive_of_not_hasBraces [] hs hbraces hsecond]
    simp

theorem messageText_obj (hne : ms ≠ []) : messageText (.obj ms) = dump (.obj ms) := by
  rw [messageText, if_neg]
  simpa [isEmpty] using hne

section Sent

variable {j : Json} {sends : List Sent}

theorem length_request (j : Json) :
    (bytes (messageText j) ++ [brace]).length = (bytes (messageText j)).length + 1 :=
  List.length_append

theorem length_response (j : Json) :
    (bytes (messageText j) ++ [brace, 0x0a]).length = (bytes (messageText j)).length + 2 :=
  List.length_append

theorem Short.length_request_lt (h : Short j) :
    (bytes (messageText j) ++ [brace]).length < 2 ^ 31 := by
  rw [length_request]
  exact (Nat.lt_succ_self _).trans h

theorem Short.length_response_lt (h : Short j) :
    (bytes (messageText j) ++ [brace, 0x0a]).length < 2 ^ 31 := by
  rw [length_response]
  exact h

/-- Both sides send the whole of a short message, or say that they have not. -/
theorem Short.request (h : Short j) (sends : List Sent) :
    ∃ p, Client.sendPreset j sends = .ok p ∧
      (p.returned = some true → p.accepted = bytes (messageText j) ++ [brace]) := by
  obtain ⟨p, hp, -, htrue⟩ := SendLoop.deliversOnce_of_lt h.length_request_lt sends
  exact ⟨p, hp, htrue.mp⟩

theorem Short.response (h : Short j) (sends : List Sent) :
    ∃ p, Server.sendPreset j sends = .ok p ∧
      (p.returned = some true → p.accepted = bytes (messageText j) ++ [brace, 0x0a]) := by
  obtain ⟨p, hp, -, htrue⟩ := SendLoop.deliversOnce_of_lt h.length_response_lt sends
  exact ⟨p, hp, htrue.mp⟩

end Sent

/-- A value comes through in both directions when no string of it has three braces and an `int` holds
the length of its messages. -/
theorem roundTrips_iff_braceFree (hne : ms ≠ []) (hw : (Json.obj ms).WellFormed)
    (hclosing : closing 3 Token.endObject 0 (Json.obj ms).tokens = 2) :
    RoundTrips (.obj ms) ↔ BraceFree 3 (Json.obj ms).tokens ∧ Short (.obj ms) := by
  have hmessage := messageText_obj hne
  constructor
  · intro h
    have hshort : Short (.obj ms) := by
      by_contra hlong
      have hge : 2 ^ 31 ≤ (bytes (messageText (.obj ms)) ++ [brace, 0x0a]).length := by
        rw [length_response]
        exact not_lt.mp hlong
      obtain ⟨sends, hsend⟩ := SendLoop.exists_send_cut hge
      obtain ⟨p, hp, himported⟩ := h.toClient sends
      have hp' : SendLoop.send (bytes (messageText (.obj ms)) ++ [brace, 0x0a]) sends = .ok p := hp
      rcases hsend with herror | ⟨k, hk, hcut⟩
      · rw [herror] at hp'
        cases hp'
      · rw [hcut] at hp'
        cases hp'
        rw [length_response] at hk
        have hs := splits_singletons ((bytes (messageText (.obj ms)) ++ [brace, 0x0a]).take k)
        have hwhole := himported rfl _ hs
        rw [hmessage] at hs hwhole hk
        exact imported_take_ne hne hw hclosing (by omega) hs hwhole
    refine ⟨?_, hshort⟩
    obtain ⟨sends, hsend⟩ := SendLoop.exists_send hshort.length_request_lt
    obtain ⟨p, hp, himported⟩ := h.toServer sends
    have hp' : SendLoop.send (bytes (messageText (.obj ms)) ++ [brace]) sends = .ok p := hp
    rw [hsend] at hp'
    cases hp'
    have hs := splits_singletons (bytes (messageText (.obj ms)) ++ [brace])
    have hwhole := himported rfl _ hs
    rw [hmessage] at hs hwhole
    exact (imported_iff hne hw hclosing hs).mp hwhole
  · rintro ⟨hfree, hshort⟩
    refine ⟨fun sends => ?_, fun sends => ?_⟩
    · obtain ⟨p, hp, haccepted⟩ := hshort.request sends
      refine ⟨p, hp, fun hreturned recvs hs => ?_⟩
      rw [haccepted hreturned, hmessage] at hs
      exact (imported_iff hne hw hclosing hs).mpr hfree
    · obtain ⟨p, hp, haccepted⟩ := hshort.response sends
      refine ⟨p, hp, fun hreturned recvs hs => ?_⟩
      rw [haccepted hreturned, hmessage] at hs
      exact (imported_iff hne hw hclosing hs).mpr hfree

theorem wellFormed_collection (presets : List SavedPreset) :
    (Json.obj (numbered (presets.map SavedPreset.toJson))).WellFormed := by
  apply wellFormed_numbered
  intro j hj
  obtain ⟨p, -, rfl⟩ := List.mem_map.mp hj
  exact p.wellFormed_toJson

theorem closing_collection {presets : List SavedPreset}
    (hne : presets.map SavedPreset.toJson ≠ []) :
    closing 3 Token.endObject 0
      (Json.obj (numbered (presets.map SavedPreset.toJson))).tokens = 2 := by
  apply closing_numbered hne (by decide)
  intro j hj
  obtain ⟨p, -, rfl⟩ := List.mem_map.mp hj
  exact p.closing_toJson

theorem braceFree_collection (presets : List SavedPreset) :
    BraceFree 3 (Json.obj (numbered (presets.map SavedPreset.toJson))).tokens ↔
      ∀ p ∈ presets, BraceFree 3 p.toJson.tokens := by
  rw [braceFree_numbered (by decide), List.forall_mem_map]

theorem roundTrips_iff_forall_braceFree (presets : List SavedPreset) (hne : presets ≠ []) :
    RoundTrips (getAllUserPresets (presets.map SavedPreset.toJson)) ↔
      (∀ p ∈ presets, BraceFree 3 p.toJson.tokens) ∧
        Short (getAllUserPresets (presets.map SavedPreset.toJson)) := by
  have hfiles : presets.map SavedPreset.toJson ≠ [] := by
    rw [Ne, List.map_eq_nil_iff]
    exact hne
  rw [getAllUserPresets, if_neg hfiles, roundTrips_iff_braceFree (numbered_ne_nil hfiles)
    (wellFormed_collection presets) (closing_collection hfiles), braceFree_collection]

/-- Both sides import what was sent to them, or nothing of nothing, as long as no string has the braces
and an `int` holds the length of the messages. -/
theorem imported_eq_delivered {presets : List SavedPreset}
    (hfree : ∀ p ∈ presets, BraceFree 3 p.toJson.tokens)
    (hshort : Short (getAllUserPresets (presets.map SavedPreset.toJson))) {sends : List Sent}
    {stream : List UInt8} {recvs : List Recv} (hs : Splits stream recvs) :
    let j := getAllUserPresets (presets.map SavedPreset.toJson)
    (Client.sendPreset j sends = .ok ⟨some true, stream⟩ → Server.imported recvs = delivered j) ∧
      (Server.sendPreset j sends = .ok ⟨some true, stream⟩ →
        Client.imported recvs = delivered j) := by
  by_cases hne : presets = []
  · subst hne
    constructor
    · intro hsend
      rw [SendLoop.eq_of_send hshort.length_request_lt hsend] at hs
      exact imported_of_second hs rfl
    · intro hsend
      rw [SendLoop.eq_of_send hshort.length_response_lt hsend] at hs
      exact imported_of_second hs rfl
  · have hfiles : presets.map SavedPreset.toJson ≠ [] := by
      rw [Ne, List.map_eq_nil_iff]
      exact hne
    have hdelivered : delivered (getAllUserPresets (presets.map SavedPreset.toJson)) =
        some (getAllUserPresets (presets.map SavedPreset.toJson)) := by
      rw [delivered, getAllUserPresets, if_neg hfiles, if_neg]
      simpa [isEmpty] using numbered_ne_nil hfiles
    have htrips := (roundTrips_iff_forall_braceFree presets hne).mpr ⟨hfree, hshort⟩
    constructor
    · intro hsend
      obtain ⟨p, hp, himported⟩ := htrips.toServer sends
      rw [hsend] at hp
      cases hp
      rw [himported rfl _ hs, hdelivered]
    · intro hsend
      obtain ⟨p, hp, himported⟩ := htrips.toClient sends
      rw [hsend] at hp
      cases hp
      rw [himported rfl _ hs, hdelivered]

/-- A collection of presets comes through in both directions exactly when none of its strings has
three closing braces in a row and an `int` holds the length of its messages. -/
theorem roundTrips_iff_strings (presets : List SavedPreset) (hne : presets ≠ []) :
    RoundTrips (getAllUserPresets (presets.map SavedPreset.toJson)) ↔
      (∀ p ∈ presets, ∀ s ∈ p.strings, contains ['}', '}', '}'] s = false) ∧
        Short (getAllUserPresets (presets.map SavedPreset.toJson)) := by
  have hrun (s : Text) : closing 3 '}' 0 s < 3 ↔ contains ['}', '}', '}'] s = false :=
    (not_contains_iff_closing (n := 3) s).symm
  rw [roundTrips_iff_forall_braceFree presets hne]
  simp only [SavedPreset.braceFree_toJson, hrun]

/-- A preset of one plugin. -/
def namedPreset (name : Text) : SavedPreset where
  name := name
  desc := []
  entries := [{ name := "Gain".toList, controls := "0.500000;".toList }]
  filetype_int := by simp

theorem roundTrips_two_braces :
    RoundTrips (getAllUserPresets [(namedPreset ['a', '}', '}']).toJson]) :=
  (roundTrips_iff_strings [namedPreset ['a', '}', '}']] (List.cons_ne_nil _ _)).mpr
    ⟨by decide, by decide⟩

theorem three_braces_not_roundTrips :
    ¬ RoundTrips (getAllUserPresets [(namedPreset ['}', '}', '}']).toJson]) := by
  intro h
  obtain ⟨hfree, -⟩ := (roundTrips_iff_forall_braceFree [namedPreset ['}', '}', '}']]
    (List.cons_ne_nil _ _)).mp h
  have hname := hfree _ List.mem_cons_self
  rw [SavedPreset.braceFree_toJson] at hname
  exact absurd (hname ['}', '}', '}'] List.mem_cons_self) (by decide)

end RoundTrips

end AmpRack

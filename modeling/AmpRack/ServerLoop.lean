import AmpRack.GuardedRun
import AmpRack.PresetImport
import AmpRack.SyncFraming

/-!
# The responses of a server

`Server::handle` reads a request, imports what is in it and answers with its own presets, until a
response cannot be sent. A `Handler` is the server between two calls of `recv` or `send` on one
connection, together with what the client has sent and what has gone back. `get_request` returns an
empty string for an empty collection, for the end of the stream and for an error alike, and `handle`
answers all three.
-/

namespace AmpRack

open JsonText Framing Utf8Text GuardedRun

/-- Where one turn of the loop around `recv` comes to. -/
inductive Reading
  | more (text : List UInt8)
  | done (text : List UInt8)

def readStep (text : List UInt8) : Recv → Reading
  | .interrupted => .more text
  | .failed => .done []
  | .closed => .done []
  | .data chunk =>
    if (text ++ chunk)[1]? = some brace then .done []
    else if hasBraces (text ++ chunk) then .done (text ++ chunk) else .more (text ++ chunk)

/-- A run of `handle` ends with an exception, behind the end of its response, or with a call that cannot
be, or not return that. -/
inductive Stop
  | exception
  | pastEnd
  | impossible
  deriving DecidableEq

inductive Point
  | reading (request : List UInt8)
  | responding
  | left
  deriving DecidableEq

/-- `unread` is what the client has sent and `recv` has not handed over, `received` what it has,
`responses` what went out in each call of `send_response`. `ended` says that a request has ended with
the stream or with an error. -/
structure Handler where
  unread : List UInt8
  received : List UInt8 := []
  point : Point := .reading []
  responses : List (List UInt8) := []
  ended : Bool := false

inductive HandlerOp
  | recv (r : Recv)
  | send (sends : List Sent)

namespace Server

/-- The number of presets in a request, unless parsing or importing it throws. -/
def howMany (request : List UInt8) : Option ℕ :=
  (importable request).bind fun j => (Presets.importPresetsFromJson j).howMany

/-- `handle` comes to the response. -/
def answers (request : List UInt8) : Bool := request = [] || (howMany request).isSome

end Server

namespace Handler

/-- `recv` hands over bytes that the client has sent, at most 1024 of them. -/
def arrive (h : Handler) : Recv → Except Stop Handler
  | .data chunk =>
    if chunk ≠ [] ∧ chunk.length ≤ 1024 ∧ chunk <+: h.unread then
      .ok { h with unread := h.unread.drop chunk.length, received := h.received ++ chunk }
    else .error .impossible
  | .interrupted => .ok h
  | .failed => .ok { h with ended := true }
  | .closed => .ok { h with ended := true }

/-- The `break` for an empty request is commented out. -/
def handleRequest (h : Handler) : Reading → Except Stop Handler
  | .more text => .ok { h with point := .reading text }
  | .done request =>
    if Server.answers request then .ok { h with point := .responding } else .error .exception

def respond (toSend : Json) (h : Handler) (sends : List Sent) : Except Stop Handler :=
  match Server.sendPreset toSend sends with
  | .error .pastEnd => .error .pastEnd
  | .ok ⟨none, _⟩ => .error .impossible
  | .ok ⟨some success, out⟩ =>
    .ok { h with
      responses := h.responses ++ [out]
      point := if success then .reading [] else .left }

/-- `toSend` is taken once, in front of the loop. -/
def step (toSend : Json) (h : Handler) : HandlerOp → Except Stop Handler
  | .recv r =>
    match h.point with
    | .reading text => do
      let h ← h.arrive r
      h.handleRequest (readStep text r)
    | _ => .error .impossible
  | .send sends =>
    match h.point with
    | .responding => h.respond toSend sends
    | _ => .error .impossible

end Handler

/-- The empty collection, as it is sent. -/
def emptyBody : List UInt8 := [0x7b, brace]

/-- A complete message without its last brace: `{}`, or what stands in front of the brace that makes
the first three. -/
structure Message where
  body : List UInt8
  complete : body = emptyBody ∨
    body[1]? ≠ some brace ∧ hasBraces body = false ∧ hasBraces (body ++ [brace]) = true

namespace Message

def bytes (m : Message) : List UInt8 := m.body ++ [brace]

/-- Neither parsing the message nor importing its presets throws. -/
def Imports (m : Message) : Prop := m.body = emptyBody ∨ (Server.howMany m.bytes).isSome = true

/-- What has been read is a part of the message, and does not end behind the first brace of an empty
one. -/
def Takes (m : Message) (text : List UInt8) : Prop :=
  text <+: m.bytes ∧ text ≠ emptyBody ∧ (text = m.bytes → m.Imports)

instance (m : Message) : Decidable m.Imports := inferInstanceAs (Decidable (_ ∨ _))

instance (m : Message) (text : List UInt8) : Decidable (m.Takes text) :=
  inferInstanceAs (Decidable (_ ∧ _ ∧ (_ → _)))

end Message

/-- The messages of a client that have come in as a whole. -/
def completed : List Message → List UInt8 → ℕ
  | [], _ => 0
  | m :: ms, text =>
    if m.bytes <+: text then completed ms (text.drop m.bytes.length) + 1 else 0

namespace Handler

def start (ms : List Message) : Handler := { unread := ms.flatMap Message.bytes }

/-- There is one response for each complete message, the last of which may still be to be sent, and
nothing goes on behind the end of the stream. -/
structure OnePerRequest (toSend : Json) (ms : List Message) (h : Handler) : Prop where
  count : h.responses.length + (if h.point = .responding then 1 else 0) = completed ms h.received
  response : h.point ≠ .left →
    ∀ r ∈ h.responses, r = Utf8Text.bytes (messageText toSend) ++ [brace, 0x0a]
  ended : h.ended = true → h.point = .left

end Handler

/-- While a request is read, neither the end of the stream nor an error comes, and the bytes that come
are of the message that is due. -/
def Point.Ready (due : Option Message) : Point → HandlerOp → Prop
  | .reading _, .recv .closed => False
  | .reading _, .recv .failed => False
  | .reading text, .recv (.data chunk) => ∃ m ∈ due, m.Takes (text ++ chunk)
  | .reading _, .recv .interrupted => True
  | .reading _, .send _ => True
  | .responding, _ => True
  | .left, _ => True

instance (due : Option Message) : ∀ point op, Decidable (Point.Ready due point op)
  | .reading _, .recv .closed => inferInstanceAs (Decidable False)
  | .reading _, .recv .failed => inferInstanceAs (Decidable False)
  | .reading _, .recv (.data _) => inferInstanceAs (Decidable (∃ m ∈ due, m.Takes _))
  | .reading _, .recv .interrupted => inferInstanceAs (Decidable True)
  | .reading _, .send _ => inferInstanceAs (Decidable True)
  | .responding, _ => inferInstanceAs (Decidable True)
  | .left, _ => inferInstanceAs (Decidable True)

namespace Handler

/-- Besides, a response is sent only if an `int` holds its length. -/
def RequestOk (toSend : Json) (ms : List Message) (h : Handler) (op : HandlerOp) : Prop :=
  h.point.Ready ms[completed ms h.received]? op ∧ (h.point = .responding → Short toSend)

instance (toSend : Json) (ms : List Message) (h : Handler) (op : HandlerOp) :
    Decidable (h.RequestOk toSend ms op) :=
  inferInstanceAs (Decidable (_ ∧ (_ → _)))

/-- The client's messages are answered up to a point behind which no other has come in. -/
def Answered (ms : List Message) (h : Handler) : Prop :=
  ∃ before after, ms = before ++ after ∧
    match h.point with
    | .reading text =>
      h.received = before.flatMap Message.bytes ++ text ∧ before.length = h.responses.length ∧
        completed after text = 0
    | .responding =>
      h.received = before.flatMap Message.bytes ∧ before.length = h.responses.length + 1
    | .left => h.received = before.flatMap Message.bytes ∧ before.length = h.responses.length

structure Inv (toSend : Json) (ms : List Message) (h : Handler) : Prop where
  answered : h.Answered ms
  response : h.point ≠ .left →
    ∀ r ∈ h.responses, r = Utf8Text.bytes (messageText toSend) ++ [brace, 0x0a]
  ended : h.ended = false

end Handler

section Reading

variable {text chunk : List UInt8} {m : Message}

theorem receive_of_hasBraces (h : hasBraces text = true) (rs : List Recv) :
    receive text rs = some text := by
  cases rs with
  | nil => exact if_pos h
  | cons r rs => exact if_pos h

/-- The loop of the framing is one turn after the other. -/
theorem receive_cons (h : hasBraces text = false) (r : Recv) (rs : List Recv) :
    receive text (r :: rs) =
      match readStep text r with
      | .more text => receive text rs
      | .done text => some text := by
  have hnot : ¬ hasBraces text = true := by
    rw [h]
    exact Bool.false_ne_true
  cases r with
  | interrupted => rw [receive, if_neg hnot, readStep]
  | failed => rw [receive, if_neg hnot, readStep]
  | closed => rw [receive, if_neg hnot, readStep]
  | data chunk =>
    rw [receive, if_neg hnot, readStep]
    by_cases hsecond : (text ++ chunk)[1]? = some brace
    · simp only [if_pos hsecond]
    · simp only [if_neg hsecond]
      by_cases hbraces : hasBraces (text ++ chunk) = true
      · simp only [if_pos hbraces, receive_of_hasBraces hbraces]
      · simp only [if_neg hbraces]

/-- A message that has come in ends the loop, with a request that is answered. -/
theorem readStep_of_complete (h : text ++ chunk = m.bytes) (himports : m.Imports) :
    ∃ request, readStep text (.data chunk) = .done request ∧ Server.answers request = true := by
  rw [readStep, h]
  rcases m.complete with hbody | ⟨hsecond, -, hbraces⟩
  · have hbytes : m.bytes[1]? = some brace := by
      rw [Message.bytes, hbody]
      rfl
    rw [if_pos hbytes]
    exact ⟨[], rfl, rfl⟩
  · have hlen := three_le_length hbraces
    have hbytes : m.bytes[1]? ≠ some brace := by
      rw [List.length_append, List.length_singleton] at hlen
      rw [Message.bytes, List.getElem?_append_left (by omega)]
      exact hsecond
    refine ⟨m.bytes, by rw [if_neg hbytes, if_pos (show hasBraces m.bytes = true from hbraces)], ?_⟩
    rcases himports with hbody | hmany
    · rw [hbody] at hsecond
      exact absurd rfl hsecond
    · rw [Server.answers, hmany, Bool.or_true]

/-- A part of a message leaves the loop waiting for more. -/
theorem readStep_of_part (h : text ++ chunk <+: m.bytes) (hne : text ++ chunk ≠ m.bytes)
    (hempty : text ++ chunk ≠ emptyBody) :
    readStep text (.data chunk) = .more (text ++ chunk) := by
  have hpart : text ++ chunk <+: m.body := (List.prefix_concat_iff.mp h).resolve_left hne
  rw [readStep]
  rcases m.complete with hbody | ⟨hsecond, hbraces, -⟩
  · have hlen : (text ++ chunk).length ≤ 1 := by
      rw [hbody] at hpart
      have hle := hpart.length_le
      by_contra hlt
      exact hempty (hpart.eq_of_length (le_antisymm hle (not_le.mp hlt)))
    rw [List.getElem?_eq_none hlen, if_neg (by simp), if_neg (not_hasBraces_of_length hlen)]
  · rw [if_neg fun h => hsecond (getElem?_eq_of_start hpart h), if_neg]
    intro h
    obtain ⟨zs, hzs⟩ := hpart
    rw [← hzs, hasBraces, contains_append h zs] at hbraces
    cases hbraces

end Reading

section Client

/-- What a client sends of its presets is a message, which is imported, when no string of them has
three closing braces in a row and an `int` holds the length. -/
theorem exists_message {presets : List SavedPreset}
    (hfree : ∀ p ∈ presets, BraceFree 3 p.toJson.tokens)
    (hshort : Short (getAllUserPresets (presets.map SavedPreset.toJson))) {sends : List Sent}
    {stream : List UInt8}
    (hsend : Client.sendPreset (getAllUserPresets (presets.map SavedPreset.toJson)) sends =
      .ok ⟨some true, stream⟩) :
    ∃ m : Message, m.bytes = stream ∧ m.Imports := by
  rw [SendLoop.eq_of_send hshort.length_request_lt hsend]
  by_cases hfiles : presets.map SavedPreset.toJson = []
  · rw [hfiles]
    exact ⟨⟨emptyBody, .inl rfl⟩, rfl, .inl rfl⟩
  · have hw := wellFormed_collection presets
    have hdump : closing 3 '}' 0 (dump (.obj (numbered (presets.map SavedPreset.toJson)))) = 2 := by
      rw [dump, closing_render (tokens_readable _ hw) ((braceFree_collection presets).mpr hfree),
        closing_collection hfiles]
    obtain ⟨hyb, hbraces⟩ := hasBraces_bytes hdump
    rw [getAllUserPresets, if_neg hfiles, messageText_obj (numbered_ne_nil hfiles)]
    refine ⟨⟨bytes (dump (.obj (numbered (presets.map SavedPreset.toJson)))),
      .inr ⟨?_, hyb, hbraces⟩⟩, rfl, .inr ?_⟩
    · have hsecond := second_dump (numbered_ne_nil hfiles) []
      rwa [List.append_nil] at hsecond
    · have himport := importable_append hyb hbraces []
      rw [ofBytes_bytes, Option.bind_some, parse_dump hw] at himport
      have hnamed : ∀ j ∈ (numbered (presets.map SavedPreset.toJson)).map (·.2),
          ∃ name, j.get? "name".toList = some (.str name) := by
        intro j hj
        obtain ⟨p, -, rfl⟩ := List.mem_map.mp ((map_numbered_perm _).mem_iff.mp hj)
        exact ⟨p.name, p.get?_name⟩
      rw [Server.howMany, Message.bytes, himport, Option.bind_some, Presets.importPresetsFromJson,
        elements, importEntries_of_named hnamed]
      rfl

end Client

section Completed

variable {ms before after : List Message} {text : List UInt8}

theorem completed_append (before after : List Message) (text : List UInt8) :
    completed (before ++ after) (before.flatMap Message.bytes ++ text) =
      before.length + completed after text := by
  induction before with
  | nil => simp
  | cons m before ih =>
    rw [List.cons_append, List.flatMap_cons, List.append_assoc, completed,
      if_pos (List.prefix_append _ _), List.drop_left, ih, List.length_cons]
    omega

theorem completed_of_part {m : Message} (h : text <+: m.bytes) (hne : text ≠ m.bytes) :
    completed (m :: after) text = 0 := by
  rw [completed, if_neg]
  intro hpre
  exact hne (h.eq_of_length_le hpre.length_le)

theorem completed_nil (ms : List Message) : completed ms [] = 0 := by
  cases ms with
  | nil => rfl
  | cons m ms => exact completed_of_part List.nil_prefix (by simp [Message.bytes])

theorem completed_before (before after : List Message) :
    completed (before ++ after) (before.flatMap Message.bytes) = before.length := by
  have h := completed_append before after []
  rwa [List.append_nil, completed_nil] at h

end Completed

namespace Handler

section Step

variable {toSend : Json} {ms : List Message} {h h' : Handler} {text : List UInt8}

theorem inv_start (toSend : Json) (ms : List Message) : Inv toSend ms (start ms) where
  answered := ⟨[], ms, rfl, rfl, rfl, completed_nil ms⟩
  response _ _ hr := absurd hr List.not_mem_nil
  ended := rfl

theorem Inv.onePerRequest (hi : Inv toSend ms h) : OnePerRequest toSend ms h where
  count := by
    obtain ⟨before, after, hms, hpoint⟩ := hi.answered
    cases hp : h.point with
    | reading text =>
      rw [hp] at hpoint
      obtain ⟨hreceived, hlen, hafter⟩ := hpoint
      rw [hms, hreceived, completed_append, hafter, hlen, if_neg (by simp)]
    | responding =>
      rw [hp] at hpoint
      obtain ⟨hreceived, hlen⟩ := hpoint
      rw [hms, hreceived, completed_before, hlen, if_pos rfl]
    | left =>
      rw [hp] at hpoint
      obtain ⟨hreceived, hlen⟩ := hpoint
      rw [hms, hreceived, completed_before, hlen, if_neg (by simp), Nat.add_zero]
  response := hi.response
  ended hended := by
    rw [hi.ended] at hended
    cases hended

/-- The message that is due is the first that has not come in. -/
theorem exists_due (hi : Inv toSend ms h) (hp : h.point = .reading text) :
    ∃ before after, ms = before ++ after ∧ h.received = before.flatMap Message.bytes ++ text ∧
      before.length = h.responses.length ∧ ms[completed ms h.received]? = after.head? := by
  obtain ⟨before, after, hms, hpoint⟩ := hi.answered
  rw [hp] at hpoint
  obtain ⟨hreceived, hlen, hafter⟩ := hpoint
  refine ⟨before, after, hms, hreceived, hlen, ?_⟩
  rw [hms, hreceived, completed_append, hafter, Nat.add_zero, List.getElem?_append_right le_rfl,
    Nat.sub_self, List.head?_eq_getElem?]

/-- Bytes of the message that is due are waited on, or the message is complete. -/
theorem Inv.data (hi : Inv toSend ms h) (hp : h.point = .reading text) {chunk unread : List UInt8}
    (hok : h.RequestOk toSend ms (.recv (.data chunk))) :
    ∃ h', handleRequest { h with unread := unread, received := h.received ++ chunk }
      (readStep text (.data chunk)) = .ok h' ∧ Inv toSend ms h' := by
  obtain ⟨before, after, hms, hreceived, hlen, hdue⟩ := exists_due hi hp
  simp only [RequestOk, hp, hdue, Point.Ready] at hok
  obtain ⟨⟨m, hm, hpre, hempty, himports⟩, -⟩ := hok
  obtain ⟨after, rfl⟩ := List.head?_eq_some_iff.mp hm
  have hresponse : ∀ r ∈ h.responses, r = Utf8Text.bytes (messageText toSend) ++ [brace, 0x0a] :=
    hi.response (by rw [hp]; exact Point.noConfusion)
  by_cases hbytes : text ++ chunk = m.bytes
  · obtain ⟨request, hrequest, hanswers⟩ := readStep_of_complete hbytes (himports hbytes)
    rw [hrequest, handleRequest, if_pos hanswers]
    refine ⟨_, rfl, ⟨before ++ [m], after, ?_, ?_, ?_⟩, fun _ => hresponse, hi.ended⟩
    · rw [hms, List.append_assoc, List.singleton_append]
    · simp only [hreceived, List.append_assoc, hbytes, List.flatMap_append, List.flatMap_singleton]
    · simp only [List.length_append, List.length_singleton, hlen]
  · rw [readStep_of_part hpre hbytes hempty, handleRequest]
    refine ⟨_, rfl, ⟨before, m :: after, hms, ?_, hlen, ?_⟩, fun _ => hresponse, hi.ended⟩
    · simp only [hreceived, List.append_assoc]
    · exact completed_of_part hpre hbytes

/-- The response goes out as a whole, or the connection is left. -/
theorem Inv.respond (hi : Inv toSend ms h) (hp : h.point = .responding) (hshort : Short toSend)
    (sends : List Sent) :
    h.respond toSend sends = .error .impossible ∨
      ∃ h', h.respond toSend sends = .ok h' ∧ Inv toSend ms h' := by
  obtain ⟨before, after, hms, hpoint⟩ := hi.answered
  rw [hp] at hpoint
  obtain ⟨hreceived, hlen⟩ := hpoint
  have hresponse := hi.response (by rw [hp]; exact Point.noConfusion)
  have hlen' (out : List UInt8) : before.length = (h.responses ++ [out]).length := by
    rw [List.length_append, List.length_singleton, hlen]
  obtain ⟨⟨returned, out⟩, hsend, hwhole⟩ := hshort.response sends
  rw [Handler.respond, hsend]
  cases returned with
  | none => exact .inl rfl
  | some success =>
    refine .inr ⟨_, rfl, ?_⟩
    cases success with
    | false =>
      exact ⟨⟨before, after, hms, hreceived, hlen' out⟩, fun hleft => absurd rfl hleft, hi.ended⟩
    | true =>
      refine ⟨⟨before, after, hms, ?_, hlen' out, completed_nil after⟩, fun _ r hr => ?_, hi.ended⟩
      · rw [List.append_nil]
        exact hreceived
      · rcases List.mem_append.mp hr with hr | hr
        · exact hresponse r hr
        · rw [List.mem_singleton.mp hr]
          exact hwhole rfl

/-- What `recv` may hand over comes to the next turn. -/
theorem step_data (hp : h.point = .reading text) {chunk : List UInt8}
    (harrive : chunk ≠ [] ∧ chunk.length ≤ 1024 ∧ chunk <+: h.unread) :
    step toSend h (.recv (.data chunk)) =
      handleRequest { h with unread := h.unread.drop chunk.length, received := h.received ++ chunk }
        (readStep text (.data chunk)) := by
  simp only [step, hp, arrive, if_pos harrive]
  rfl

theorem inv_step (hi : Inv toSend ms h) (op : HandlerOp) (hok : h.RequestOk toSend ms op) :
    (∀ e, step toSend h op = .error e → ¬ e ≠ .impossible) ∧
      ∀ h', step toSend h op = .ok h' → Inv toSend ms h' := by
  have himpossible (hs : step toSend h op = .error .impossible) :
      (∀ e, step toSend h op = .error e → ¬ e ≠ .impossible) ∧
        ∀ h', step toSend h op = .ok h' → Inv toSend ms h' := by
    rw [hs]
    refine ⟨fun e he => ?_, fun h' hs => (by cases hs)⟩
    cases he
    exact not_not.mpr rfl
  have hok_of {t : Handler} (hs : step toSend h op = .ok t) (hinv : Inv toSend ms t) :
      (∀ e, step toSend h op = .error e → ¬ e ≠ .impossible) ∧
        ∀ h', step toSend h op = .ok h' → Inv toSend ms h' := by
    rw [hs]
    refine ⟨fun e he => (by cases he), fun h' hs => ?_⟩
    cases hs
    exact hinv
  cases op with
  | recv r =>
    cases hp : h.point with
    | responding => exact himpossible (by simp only [step, hp])
    | left => exact himpossible (by simp only [step, hp])
    | reading text =>
      cases r with
      | closed => simp only [RequestOk, hp, Point.Ready, false_and] at hok
      | failed => simp only [RequestOk, hp, Point.Ready, false_and] at hok
      | interrupted =>
        have hsame : { h with point := .reading text } = h := by rw [← hp]
        refine hok_of ?_ hi
        simp only [step, hp]
        exact congrArg Except.ok hsame
      | data chunk =>
        by_cases harrive : chunk ≠ [] ∧ chunk.length ≤ 1024 ∧ chunk <+: h.unread
        · obtain ⟨t, ht, hinv⟩ := hi.data hp hok
          exact hok_of ((step_data hp harrive).trans ht) hinv
        · apply himpossible
          simp only [step, hp, arrive, if_neg harrive]
          rfl
  | send sends =>
    cases hp : h.point with
    | reading text => exact himpossible (by simp only [step, hp])
    | left => exact himpossible (by simp only [step, hp])
    | responding =>
      have hs : step toSend h (.send sends) = h.respond toSend sends := by simp only [step, hp]
      rcases hi.respond hp (hok.2 hp) sends with hnone | ⟨t, ht, hinv⟩
      · exact himpossible (hs.trans hnone)
      · exact hok_of (hs.trans ht) hinv

/-- Whatever the client sends, every complete message gets one response as long as the connection
lasts, each message is waited for and an `int` holds the length of the response. -/
theorem onePerRequest_of_requestOk (toSend : Json) (ms : List Message) (ops : List HandlerOp)
    (hok : Admits (step toSend) (RequestOk toSend ms) (start ms) ops) :
    Safe (step toSend) (· ≠ .impossible) (OnePerRequest toSend ms) (start ms) ops :=
  safe_of_admits (fun _ => Inv.onePerRequest) (fun _ op hi => inv_step hi op) (inv_start toSend ms) hok

/-- The end of the stream is answered, and the loop goes on. -/
theorem step_ended {r : Recv} (hr : r = .closed ∨ r = .failed) (hp : h.point = .reading text) :
    step toSend h (.recv r) = .ok { h with point := .responding, ended := true } := by
  rcases hr with rfl | rfl <;> simp only [step, hp] <;> rfl

/-- No run in which it comes is one of responses to requests alone. -/
theorem not_safe_of_ended {s : Handler} {before after : List HandlerOp} {r : Recv}
    (hr : r = .closed ∨ r = .failed) (hrun : run (step toSend) s before = .ok h)
    (hp : h.point = .reading text) :
    ¬ Safe (step toSend) (· ≠ .impossible) (OnePerRequest toSend ms) s
      (before ++ .recv r :: after) := by
  intro hsafe
  have hlast := (hsafe (before ++ [.recv r]) (by simp)).1 { h with point := .responding, ended := true }
  have hended := (hlast (run_concat hrun (step_ended hr hp))).ended rfl
  cases hended

end Step

def emptyMessage : Message := ⟨emptyBody, .inl rfl⟩

/-- A message of an empty collection and the response to it. -/
def emptyTurn : List HandlerOp := [.recv (.data emptyMessage.bytes), .send [.wrote 4]]

theorem onePerRequest_emptyTurn :
    Safe (step .null) (· ≠ .impossible) (OnePerRequest .null [emptyMessage]) (start [emptyMessage])
      emptyTurn :=
  onePerRequest_of_requestOk .null [emptyMessage] emptyTurn (by decide)

/-- Closing after it brings another response. -/
theorem closed_after_turn_not_onePerRequest :
    ¬ Safe (step .null) (· ≠ .impossible) (OnePerRequest .null [emptyMessage]) (start [emptyMessage])
      (emptyTurn ++ [.recv .closed, .send [.wrote 4]]) := by
  intro hsafe
  have hrun : (run (step .null) (start [emptyMessage])
      (emptyTurn ++ [.recv .closed, .send [.wrote 4]])).map
      (fun h => (h.responses.length, h.point, completed [emptyMessage] h.received)) =
        .ok (2, .reading [], 1) := by decide +kernel
  cases hlast : run (step .null) (start [emptyMessage])
      (emptyTurn ++ [.recv .closed, .send [.wrote 4]]) with
  | error e =>
    rw [hlast] at hrun
    cases hrun
  | ok h =>
    rw [hlast] at hrun
    injection hrun with hrun
    obtain ⟨hlen, hrun⟩ := Prod.mk.inj hrun
    obtain ⟨hpoint, hcompleted⟩ := Prod.mk.inj hrun
    have hcount := ((hsafe _ (List.prefix_refl _)).1 h hlast).count
    rw [hlen, hpoint, hcompleted] at hcount
    exact absurd hcount (by decide)

end Handler

end AmpRack

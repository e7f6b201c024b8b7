/-
  Realtime/Sse.lean --- events on the wire of a connection.

  Source: services/realtime-hub/internal/api/sse.go and internal_publish.go,
  internal/topics/topics.go, internal/fanout/replay.go and redisbus.go.

  An event reaches a connection through the bus, which encodes its payload once more, or out
  of the replay buffer, which has the payload as it was published.  The sink writes id, topic
  and payload between fixed texts and escapes none of them.
-/
import Windrose.Foundation.Compact
import Windrose.Foundation.EventStream
import Windrose.Foundation.Uuid
import Windrose.Query.Frame
import Windrose.Realtime.Conn

set_option autoImplicit false

namespace Windrose.Realtime

open Windrose.Foundation
open Windrose.Foundation.EventStream (Message Unbroken fieldLine)
open Windrose.Foundation.Compact (compact Tight)

/-! ## Topics -/

/-- `Scheme`. -/
inductive Scheme where
  | runStatus
  | chat
  | agentRun
  | notifications
  | proposal
  | list
  deriving DecidableEq

namespace Scheme

def text : Scheme → Bytes
  | .runStatus => bytes "run-status"
  | .chat => bytes "chat"
  | .agentRun => bytes "agent_run"
  | .notifications => bytes "notifications"
  | .proposal => bytes "proposal"
  | .list => bytes "list"

def ofText (s : Bytes) : Option Scheme :=
  [runStatus, chat, agentRun, notifications, proposal, list].find? fun scheme => scheme.text = s

end Scheme

/-- `Topic`. -/
structure Topic where
  raw : Bytes
  scheme : Scheme
  ident : Bytes
  deriving DecidableEq

/-- `Parse`; `none` is `ErrInvalidTopic`. -/
def Topic.parse (raw : Bytes) : Option Topic :=
  let raw := Query.trimSpace raw
  let i := raw.idxOf 58
  if raw = [] then none
  else if i = 0 ∨ raw.length ≤ i + 1 then none
  else
    match Scheme.ofText (raw.take i) with
    | none => none
    | some scheme =>
      let ident := raw.drop (i + 1)
      if Query.trimSpace ident = [] then none
      else if scheme = .runStatus ∧ (bytes "wr:").isPrefixOf ident = false then none
      else some ⟨raw, scheme, ident⟩

/-- `IsChat`. -/
def Topic.isChat (t : Topic) : Bool := t.scheme = .chat

/-! ## What is published -/

/-- A raw JSON text, as the decoder of the request lets it through. -/
structure RawMessage where
  text : Bytes
  scans : Compact.scans text = true
  deriving DecidableEq

/-- An event as the hub takes it in.  `payload` is `none` when the request has none. -/
structure Published where
  id : Bytes
  topic : Bytes
  payload : Option RawMessage
  chat : Bool
  id_ne : id ≠ []
  topic_ne : topic ≠ []
  capped : ((payload.map RawMessage.text).getD []).length ≤ payloadCap

instance : DecidableEq Published := fun p q =>
  decidable_of_iff ((p.id, p.topic, p.payload, p.chat) = (q.id, q.topic, q.payload, q.chat))
    (by cases p; cases q; simp)

/-- `Event.Data`. -/
def Published.data (p : Published) : Bytes := (p.payload.map RawMessage.text).getD []

/-- What `MarshalJSON` and `appendCompact` make of a raw text. -/
def encodeRaw : Option RawMessage → Bytes
  | none => bytes "null"
  | some raw => compact raw.text

theorem length_encodeRaw_le {payload : Option RawMessage}
    (h : ((payload.map RawMessage.text).getD []).length ≤ payloadCap) :
    (encodeRaw payload).length ≤ maxData := by
  cases payload with
  | none => exact (by decide : (bytes "null").length ≤ maxData)
  | some raw =>
    calc (compact raw.text).length
      _ ≤ 6 * raw.text.length := Compact.length_compact_le raw.text
      _ ≤ maxData := Nat.mul_le_mul_left 6 h

/-- The copy that went over the bus: `Publish` encodes it into a `wireMsg` and `receive` decodes
that.  The strings were decoded from JSON, so they come back as they were. -/
def Published.live (p : Published) : Event :=
  { id := p.id
    topic := p.topic
    data := encodeRaw p.payload
    chat := p.chat
    admitted := length_encodeRaw_le p.capped }

/-! ## The replay buffer -/

/-- The values of a stream entry. -/
structure Entry where
  eventID : Bytes
  data : Bytes
  chat : Bytes
  admitted : data.length ≤ maxData

/-- `boolStr`. -/
def boolStr (b : Bool) : Bytes := if b then bytes "1" else bytes "0"

/-- What `Append` adds. -/
def Published.entry (p : Published) : Entry :=
  { eventID := p.id
    data := p.data
    chat := boolStr p.chat
    admitted := p.capped.trans (by decide) }

def Entry.event (topic : Bytes) (e : Entry) : Event :=
  { id := e.eventID, topic, data := e.data, chat := e.chat = bytes "1", admitted := e.admitted }

/-- The copy that is read from the buffer. -/
def Published.replayed (p : Published) : Event := p.entry.event p.topic

theorem Published.replayed_data (p : Published) : p.replayed.data = p.data := rfl

/-! ## The publish API -/

/-- What the verifier finds in a token. -/
structure PublisherClaims where
  typ : Bytes
  scopes : List Bytes

/-- `publishRequest`. -/
structure PublishRequest where
  tenantID : Bytes
  topic : Bytes
  eventID : Bytes
  payloadJSON : Option RawMessage
  ttlSeconds : UInt32

/-- A status with what `publishAck` puts in the answer. -/
structure PublishAck where
  status : Nat
  eventID : Bytes
  accepted : Bool
  reason : String
  deriving DecidableEq

/-- What `IngestInternal` is called with. -/
structure Publication where
  tenant : Bytes
  ev : Published
  ttl : Nat
  deriving DecidableEq

/-- `ScopePublish`. -/
def scopePublish : Bytes := bytes "realtime.publish"

/-- `authenticatePublisher` on the header; `none` when the caller may publish. -/
def authenticatePublisher (verify : Bytes → Option PublisherClaims) (authorization : Bytes) :
    Option PublishAck :=
  if (bytes "Bearer ").isPrefixOf authorization = false then
    some ⟨401, [], false, "UNAUTHENTICATED: producer token required"⟩
  else
    match verify (authorization.drop 7) with
    | none => some ⟨401, [], false, "UNAUTHENTICATED: invalid token"⟩
    | some claims =>
      if (claims.typ = bytes "service" ∨ (bytes "agent").isPrefixOf claims.typ) ∧
          scopePublish ∈ claims.scopes then
        none
      else some ⟨401, [], false, "PERMISSION_DENIED: producer not authorized"⟩

theorem text_ne_nil (u : Uuid) : u.text ≠ [] := fun h => absurd (u.length_text) (by rw [h]; decide)

/-- `handleInternalPublish`, up to the call of `IngestInternal`.  The body is `none` when it does
not decode, and `fresh` is the id of an event that comes without one.  The event has the topic
of the request, not the one that was parsed. -/
def handleInternalPublish (verify : Bytes → Option PublisherClaims) (fresh : Uuid)
    (authorization : Bytes) (body : Option PublishRequest) : Except PublishAck Publication :=
  match authenticatePublisher verify authorization, body with
  | some refusal, _ => .error refusal
  | none, none => .error ⟨400, [], false, "INVALID_ARGUMENT: bad body"⟩
  | none, some req =>
    if h : req.tenantID = [] ∨ req.topic = [] then
      .error ⟨400, req.eventID, false, "INVALID_ARGUMENT: tenant_id and topic required"⟩
    else
      match Topic.parse req.topic with
      | none => .error ⟨400, req.eventID, false, "INVALID_ARGUMENT: INVALID_TOPIC"⟩
      | some t =>
        if hcap : ((req.payloadJSON.map RawMessage.text).getD []).length ≤ payloadCap then
          .ok
            { tenant := req.tenantID
              ev :=
                { id := if req.eventID = [] then fresh.text else req.eventID
                  topic := req.topic
                  payload := req.payloadJSON
                  chat := t.isChat
                  id_ne := by
                    split
                    · exact text_ne_nil fresh
                    · assumption
                  topic_ne := (not_or.mp h).2
                  capped := hcap }
              ttl := if req.ttlSeconds = 0 ∧ t.isChat then 600 else req.ttlSeconds.toNat }
        else
          .error ⟨413, req.eventID, false, "RESOURCE_EXHAUSTED: payload > 64KB"⟩

/-! ## The sink -/

/-- `WriteEvent`. -/
def writeEvent (evID event data : Bytes) : Bytes :=
  (if evID ≠ [] then bytes "id: " ++ evID ++ bytes "\n" else []) ++
    (bytes "event: " ++ event ++ bytes "\ndata: " ++ data ++ bytes "\n\n")

def degradedData : Bytes := bytes "\x7b\"type\":\"heartbeat\",\"degraded\":true\x7d"

/-- `WriteHeartbeat`. -/
def writeHeartbeat (degraded : Bool) : Bytes :=
  bytes ": hb\n\n" ++ if degraded then writeEvent [] (bytes "control") degradedData else []

/-- Which copy of an event. -/
inductive Path where
  | live
  | replayed
  deriving DecidableEq

def Path.copy : Path → Published → Event
  | .live, p => p.live
  | .replayed, p => p.replayed

/-- What the writer of a connection asks its sink for.  The data of a control event was written
by an encoder, which escapes the end of a line. -/
inductive Delivery where
  | event (path : Path) (p : Published)
  | control (data : Bytes) (unbroken : Unbroken data)
  | heartbeat (degraded : Bool)
  deriving DecidableEq

def Delivery.write : Delivery → Bytes
  | .event path p => writeEvent (path.copy p).id (path.copy p).topic (path.copy p).data
  | .control data _ => writeEvent [] (bytes "control") data
  | .heartbeat degraded => writeHeartbeat degraded

def stream (ds : List Delivery) : Bytes := ds.flatMap Delivery.write

/-- What a client should read, which has seen the id `last`: each event with its id, topic and
data, and each control event with the id before it. -/
def expected (last : Bytes) : List Delivery → List Message
  | [] => []
  | .event path p :: ds => ⟨p.id, p.topic, (path.copy p).data⟩ :: expected p.id ds
  | .control data _ :: ds => ⟨last, bytes "control", data⟩ :: expected last ds
  | .heartbeat degraded :: ds =>
    (if degraded then [⟨last, bytes "control", degradedData⟩] else []) ++ expected last ds

/-- A client reads what was written, and the two copies of an event are the same text. -/
structure RoundTrip (ds : List Delivery) : Prop where
  read : EventStream.read (stream ds) = expected [] ds
  sameText : ∀ path p, Delivery.event path p ∈ ds → p.live.data = p.replayed.data

/-! ## The condition -/

/-- Id and topic stay on their lines, and the payload is there and is passed on as it is. -/
structure Published.Clean (p : Published) : Prop where
  id : Unbroken p.id ∧ 0 ∉ p.id
  topic : Unbroken p.topic
  payload : ∃ raw, p.payload = some raw ∧ Tight .outside raw.text

theorem sameText_iff (p : Published) :
    p.live.data = p.replayed.data ↔ ∃ raw, p.payload = some raw ∧ Tight .outside raw.text := by
  rw [p.replayed_data]
  change encodeRaw p.payload = (p.payload.map RawMessage.text).getD [] ↔ _
  cases p.payload with
  | none =>
    refine iff_of_false (by decide) ?_
    rintro ⟨raw, hraw, -⟩
    cases hraw
  | some raw =>
    change compact raw.text = raw.text ↔ _
    rw [Compact.compact_eq_self_iff]
    exact ⟨fun h => ⟨raw, rfl, h⟩, fun ⟨_, hraw, h⟩ => (Option.some.inj hraw) ▸ h⟩

theorem Published.Clean.unbroken_data {p : Published} (hp : p.Clean) (path : Path) :
    Unbroken (path.copy p).data := by
  have hdata : (path.copy p).data = p.data := by
    cases path with
    | live => exact (sameText_iff p).mpr hp.payload
    | replayed => rfl
  obtain ⟨raw, hraw, htight⟩ := hp.payload
  rw [hdata, Published.data, hraw]
  exact htight.unbroken raw.scans

/-! ## Frames as lines -/

/-- The lines of `WriteEvent`. -/
def eventLines (evID event data : Bytes) : List Bytes :=
  (if evID ≠ [] then [fieldLine (bytes "id") evID] else []) ++
    [fieldLine (bytes "event") event, fieldLine (bytes "data") data, []]

theorem writeEvent_eq (evID event data : Bytes) :
    writeEvent evID event data = joinLines (eventLines evID event data) := by
  have hid : bytes "id: " = bytes "id" ++ [58, 32] := by decide
  have hevent : bytes "event: " = bytes "event" ++ [58, 32] := by decide
  have hdata : bytes "\ndata: " = 10 :: (bytes "data" ++ [58, 32]) := by decide
  have hend : bytes "\n\n" = [10, 10] := by decide
  have hlf : bytes "\n" = [10] := by decide
  rw [writeEvent, eventLines, hid, hevent, hdata, hend, hlf]
  split <;> simp [joinLines, fieldLine]

def Delivery.lines : Delivery → List Bytes
  | .event path p => eventLines p.id p.topic (path.copy p).data
  | .control data _ => eventLines [] (bytes "control") data
  | .heartbeat degraded =>
    [bytes ": hb", []] ++ if degraded then eventLines [] (bytes "control") degradedData else []

theorem Delivery.write_eq (d : Delivery) : d.write = joinLines d.lines := by
  cases d with
  | event path p => cases path <;> exact writeEvent_eq ..
  | control data h => exact writeEvent_eq ..
  | heartbeat degraded =>
    have hcomment : bytes ": hb\n\n" = joinLines [bytes ": hb", []] := by decide
    rw [Delivery.write, writeHeartbeat, hcomment, writeEvent_eq, Delivery.lines]
    cases degraded
    · simp [joinLines]
    · simp [joinLines]

/-- No part of the delivery breaks its line. -/
def Delivery.Clean : Delivery → Prop
  | .event _ p => p.Clean
  | _ => True

theorem unbroken_eventLines {evID event data : Bytes} (hid : Unbroken evID)
    (hevent : Unbroken event) (hdata : Unbroken data) :
    ∀ l ∈ eventLines evID event data, Unbroken l := by
  intro l hl
  rw [eventLines, List.mem_append] at hl
  obtain hl | hl := hl
  · split at hl
    · obtain rfl := List.mem_singleton.mp hl
      exact (EventStream.unbroken_fieldLine (by decide)).mpr hid
    · exact absurd hl List.not_mem_nil
  · simp only [List.mem_cons, List.not_mem_nil, or_false] at hl
    obtain rfl | rfl | rfl := hl
    · exact (EventStream.unbroken_fieldLine (by decide)).mpr hevent
    · exact (EventStream.unbroken_fieldLine (by decide)).mpr hdata
    · exact EventStream.unbroken_nil

theorem Delivery.Clean.unbroken {d : Delivery} (hd : d.Clean) : ∀ l ∈ d.lines, Unbroken l := by
  cases d with
  | event path p =>
    exact unbroken_eventLines (Published.Clean.id hd).1 (Published.Clean.topic hd)
      (Published.Clean.unbroken_data hd path)
  | control data hdata => exact unbroken_eventLines EventStream.unbroken_nil (by decide) hdata
  | heartbeat degraded =>
    rw [Delivery.lines, List.forall_mem_append]
    refine ⟨by decide, ?_⟩
    cases degraded
    · exact nofun
    · exact unbroken_eventLines EventStream.unbroken_nil (by decide) (by decide)

/-! ## Reading back -/

section

variable (last : Bytes)

/-- A client between two frames. -/
def ready : EventStream.Client := { lastID := last }

theorem line_id {evID : Bytes} (hnul : 0 ∉ evID) :
    (ready last).line (fieldLine (bytes "id") evID) = (ready evID, none) := by
  rw [EventStream.Client.line_fieldLine _ (by decide), EventStream.Client.setField,
    if_neg (by decide), if_neg (by decide), if_pos ⟨rfl, hnul⟩]
  rfl

theorem messages_frame {event : Bytes} (data : Bytes) (hevent : event ≠ []) : (ready last).messages
        [fieldLine (bytes "event") event, fieldLine (bytes "data") data, []] =
          [⟨last, event, data⟩] ∧
      (ready last).after [fieldLine (bytes "event") event, fieldLine (bytes "data") data, []] =
        ready last := by
  have h1 : (ready last).line (fieldLine (bytes "event") event) =
      ({ lastID := last, event := event }, none) := by
    rw [EventStream.Client.line_fieldLine _ (by decide), EventStream.Client.setField, if_pos rfl]
    rfl
  have h2 : EventStream.Client.line { lastID := last, event := event }
        (fieldLine (bytes "data") data) =
      ({ lastID := last, event := event, data := data ++ [10] }, none) := by
    rw [EventStream.Client.line_fieldLine _ (by decide), EventStream.Client.setField,
      if_neg (by decide), if_pos rfl]
    rfl
  have h3 : EventStream.Client.line { lastID := last, event := event, data := data ++ [10] } [] =
      (ready last, some ⟨last, event, data⟩) := by
    rw [EventStream.Client.line, if_pos rfl, EventStream.Client.dispatch,
      if_neg (List.append_ne_nil_of_right_ne_nil _ (List.cons_ne_nil _ _)), if_neg hevent,
      List.dropLast_concat]
    rfl
  constructor
  · simp only [EventStream.Client.messages, h1, h2, h3, Option.toList, List.nil_append,
      List.append_nil]
  · simp only [EventStream.Client.after, List.foldl_cons, List.foldl_nil, h1, h2, h3]

theorem messages_eventLines {evID event : Bytes} (data : Bytes) (hnul : 0 ∉ evID)
    (hevent : event ≠ []) : (ready last).messages (eventLines evID event data) =
        [⟨if evID ≠ [] then evID else last, event, data⟩] ∧
      (ready last).after (eventLines evID event data) =
        ready (if evID ≠ [] then evID else last) := by
  rw [eventLines]
  split
  · have hframe := messages_frame evID data hevent
    constructor
    · rw [List.singleton_append, EventStream.Client.messages, line_id last hnul]
      exact hframe.1
    · rw [List.singleton_append, EventStream.Client.after, List.foldl_cons, line_id last hnul]
      exact hframe.2
  · exact messages_frame last data hevent

theorem messages_comment : (ready last).messages [bytes ": hb", []] = [] ∧
      (ready last).after [bytes ": hb", []] = ready last := by
  have hcomment : (ready last).line (bytes ": hb") = (ready last, none) := by
    have hname : EventStream.fieldName (bytes ": hb") = [] := by decide
    rw [EventStream.Client.line, if_neg (by decide), hname, EventStream.Client.setField,
      if_neg (by decide), if_neg (by decide), if_neg (by decide)]
  constructor
  · rw [EventStream.Client.messages, hcomment]
    rfl
  · rw [EventStream.Client.after, List.foldl_cons, hcomment]
    rfl

/-- One delivery: what the client reads of it, and the id that it knows then. -/
theorem messages_delivery {d : Delivery} (hd : d.Clean) (ds : List Delivery) :
    (ready last).messages d.lines ++ expected ((ready last).after d.lines).lastID ds =
        expected last (d :: ds) ∧
      (ready last).after d.lines = ready ((ready last).after d.lines).lastID := by
  have hcontrol : ∀ data : Bytes,
      (ready last).messages (eventLines [] (bytes "control") data) =
          [⟨last, bytes "control", data⟩] ∧
        (ready last).after (eventLines [] (bytes "control") data) = ready last :=
    fun data => messages_eventLines last data List.not_mem_nil (by decide)
  cases d with
  | event path p =>
    obtain ⟨hmessages, hafter⟩ := messages_eventLines last (path.copy p).data
      (Published.Clean.id hd).2 p.topic_ne
    rw [Delivery.lines, hmessages, hafter, if_pos p.id_ne]
    exact ⟨rfl, rfl⟩
  | control data hdata =>
    rw [Delivery.lines, (hcontrol data).1, (hcontrol data).2]
    exact ⟨rfl, rfl⟩
  | heartbeat degraded =>
    obtain ⟨hmessages, hafter⟩ := messages_comment last
    cases degraded
    · rw [Delivery.lines, if_neg Bool.false_ne_true, List.append_nil, hmessages, hafter]
      exact ⟨rfl, rfl⟩
    · rw [Delivery.lines, if_pos rfl, EventStream.Client.messages_append, hmessages,
        EventStream.Client.after_append, hafter, (hcontrol degradedData).1,
        (hcontrol degradedData).2]
      exact ⟨rfl, rfl⟩

/-- All deliveries, by induction: between two of them the client holds nothing but the id. -/
theorem messages_deliveries {ds : List Delivery} (hds : ∀ d ∈ ds, d.Clean) :
    (ready last).messages (ds.flatMap Delivery.lines) = expected last ds := by
  induction ds generalizing last with
  | nil => rfl
  | cons d ds ih =>
    rw [List.forall_mem_cons] at hds
    obtain ⟨hstep, hready⟩ := messages_delivery last hds.1 ds
    rw [List.flatMap_cons, EventStream.Client.messages_append, hready, ih _ hds.2]
    exact hstep

end

theorem stream_eq (ds : List Delivery) : stream ds = joinLines (ds.flatMap Delivery.lines) := by
  induction ds with
  | nil => rfl
  | cons d ds ih =>
    rw [stream, List.flatMap_cons, List.flatMap_cons, joinLines, List.flatMap_append]
    exact congrArg₂ (· ++ ·) d.write_eq ih

theorem read_stream {ds : List Delivery} (hds : ∀ d ∈ ds, d.Clean) :
    EventStream.read (stream ds) = expected [] ds := by
  have hlines : EventStream.lines (stream ds) = ds.flatMap Delivery.lines := by
    have hunbroken : ∀ l ∈ ds.flatMap Delivery.lines, Unbroken l := by
      intro l hl
      obtain ⟨d, hd, hl⟩ := List.mem_flatMap.mp hl
      exact (hds d hd).unbroken l hl
    have hnil : EventStream.lines [] = [] := rfl
    have := EventStream.lines_joinLines hunbroken []
    rwa [List.append_nil, ← stream_eq, hnil, List.append_nil] at this
  rw [EventStream.read, hlines]
  exact messages_deliveries [] hds

theorem mem_expected {ds : List Delivery} {path : Path} {p : Published}
    (h : Delivery.event path p ∈ ds) (last : Bytes) :
    (⟨p.id, p.topic, (path.copy p).data⟩ : Message) ∈ expected last ds := by
  induction ds generalizing last with
  | nil => exact absurd h List.not_mem_nil
  | cons d ds ih =>
    obtain rfl | hds := List.mem_cons.mp h
    · exact List.mem_cons_self
    · cases d with
      | event path' p' => exact List.mem_cons_of_mem _ (ih hds p'.id)
      | control data hdata => exact List.mem_cons_of_mem _ (ih hds last)
      | heartbeat degraded => exact List.mem_append_right _ (ih hds last)

/-- A client reads back what was written, and the two copies of each event are the same text,
exactly when every event is clean. -/
theorem roundTrip_iff (ds : List Delivery) :
    RoundTrip ds ↔ ∀ path p, Delivery.event path p ∈ ds → p.Clean := by
  constructor
  · intro h path p hp
    have hmem := mem_expected hp []
    rw [← h.read] at hmem
    obtain ⟨hid, hnul, htopic⟩ := EventStream.read_unbroken hmem
    exact ⟨⟨hid, hnul⟩, htopic, (sameText_iff p).mp (h.sameText path p hp)⟩
  · intro h
    have hclean : ∀ d ∈ ds, d.Clean := by
      intro d hd
      cases d with
      | event path p => exact h path p hd
      | control data hdata => trivial
      | heartbeat degraded => trivial
    exact ⟨read_stream hclean, fun path p hp => (sameText_iff p).mpr (h path p hp).payload⟩

/-! ## A payload of two lines -/

namespace Spread

def request : PublishRequest :=
  { tenantID := bytes "t"
    topic := bytes "chat:s"
    eventID := bytes "e"
    payloadJSON := some ⟨bytes "\x7b\n\"a\":1\x7d", by decide⟩
    ttlSeconds := 0 }

def verify (_ : Bytes) : Option PublisherClaims := some ⟨bytes "service", [scopePublish]⟩

def event : Published :=
  { id := bytes "e"
    topic := bytes "chat:s"
    payload := request.payloadJSON
    chat := true
    id_ne := by decide
    topic_ne := by decide
    capped := by decide }

theorem read_replayed : EventStream.read (stream [.event .replayed event]) =
    [⟨bytes "e", bytes "chat:s", bytes "\x7b"⟩] := by decide

/-- The request is accepted, and of the copy in the buffer the client reads one line. -/
theorem replayed_lost : handleInternalPublish verify default (bytes "Bearer x") (some request) =
        .ok ⟨bytes "t", event, 600⟩ ∧
      ¬ RoundTrip [.event .replayed event] := by
  refine ⟨by decide, fun h => ?_⟩
  have hread := h.read
  rw [read_replayed] at hread
  exact absurd hread (by decide)

end Spread

end Windrose.Realtime

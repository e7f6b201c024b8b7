/-
  Notifications/Pipeline.lean --- an event on its way to its recipients.

  Source: services/notification-service/internal/pipeline/pipeline.go, email.go, inapp.go,
  internal/preferences/filter.go, internal/registry/registry.go,
  internal/subscriptions/match.go, internal/worker/worker.go (flushDigests,
  sendDeferredEmail), internal/store/deliveries.go, digest.go, notifications.go.

  Calls of `Process` may overlap, for one event too: its marker in the consumer group is
  only held for a time, and not at all while Redis is away.  A step of a call reads what it
  needs for one recipient, or delivers on one channel; Go ranges over the maps in any order,
  so the step says which recipient comes next and in which order its channels were listed.
  What the store, the directory, the limiter and the provider answer comes with the step.

  Each digest and each deferred email that is due has a step of its own.  The delivery row
  of a digest as a whole is left out.  The ghosts are `handed`, the messages that were handed
  to their channels, and `consumed`, the events that a call has returned for.
-/
import Windrose.Foundation.Upsert

set_option autoImplicit false

namespace Windrose.Notifications

open Windrose.Foundation

/-! ## Events and rules -/

/-- The channels of a message. -/
inductive Channel where
  | inApp | email | webhook
  deriving DecidableEq

/-- A field of a payload: of a list, the strings in it. -/
inductive Value where
  | text (s : String)
  | list (items : List String)
  | other
  deriving DecidableEq

/-- An event from the bus. -/
structure Event where
  eventType : String
  resourceURN : String
  payload : List (String × Value)

/-- A field of the payload. -/
def Event.field (e : Event) (name : String) : Option Value := e.payload.lookup name

/-- `ExtractPayloadPrincipals`. -/
def extractPayloadPrincipals (e : Event) (field : String) : List String :=
  match e.field field with
  | some (.text s) => if s = "" then [] else [s]
  | some (.list items) => items.filter (· ≠ "")
  | _ => []

/-- Where an audience is named. -/
structure AudienceRef where
  payloadField : String := ""
  role : String := ""

/-- The registry's entry for an event type. -/
structure Mapping where
  audience : List AudienceRef
  channels : List Channel
  eventClass : String
  digestible : Bool

/-- `SubjectType` and `SubjectID`. -/
inductive Subject where
  | user (id : String)
  | group (id : String)
  deriving DecidableEq

/-- A subscription. -/
structure Rule where
  subject : Subject
  eventTypes : List String
  resourceURNPrefix : String
  attrs : List (String × List String)
  channels : List Channel

/-- `matchesEventType`. -/
def matchesEventType (patterns : List String) (eventType : String) : Bool :=
  patterns.any fun p =>
    p = eventType || p = "*" ||
      (['.', '*'].isSuffixOf p.toList && p.toList.dropLast.isPrefixOf eventType.toList)

/-- `attrMatches`. -/
def attrMatches (v : Option Value) (allowed : List String) : Bool :=
  match v with
  | some (.text s) => allowed.contains s
  | _ => false

/-- `subscriptions.Matches`. -/
def Rule.applies (rule : Rule) (e : Event) : Bool :=
  matchesEventType rule.eventTypes e.eventType &&
    rule.resourceURNPrefix.toList.isPrefixOf e.resourceURN.toList &&
    rule.attrs.all fun (field, allowed) => attrMatches (e.field field) allowed

/-! ## Preferences -/

/-- The hours without email. -/
structure QuietHours where
  tz : String
  start : String
  stop : String
  deriving DecidableEq

/-- The preferences of a user. -/
structure Preferences where
  channelOverride : List (String × List Channel) := []
  mutedTypes : List String := []
  mutedURNs : List String := []
  /-- The event classes of `DigestConfig`. -/
  digestClasses : List String := []
  quietHours : Option QuietHours := none

/-- What the filter decides. -/
structure Decision where
  channels : List Channel
  digest : Bool
  deferEmailTo : Option Nat
  deriving DecidableEq

/-- `SeverityCritical`. -/
def severityCritical : String := "critical"

/-- `isMuted`. -/
def isMuted (prefs : Preferences) (e : Event) : Bool :=
  prefs.mutedTypes.contains e.eventType || prefs.mutedURNs.contains e.resourceURN

/-- What a tenant has set up: the events that are published, the registry, the rules, who is
in a role of a workspace and in a group, and the preferences.  `quietUntil` goes by the time
zone database. -/
structure Settings where
  event : Nat → Event
  registry : String → Option Mapping
  rules : List Rule
  role : String → String → List String
  group : String → List String
  preferences : String → Option Preferences
  quietUntil : QuietHours → Nat → Option Nat
  inAppCap : Nat := 500
  digestWindow : Nat := 3600

/-- The channels of `Resolve`: an override replaces the defaults, and a mute leaves critical
in-app messages. -/
def resolveChannels (prefs : Option Preferences) (defaults : List Channel) (e : Event)
    (critical : Bool) : List Channel :=
  match prefs with
  | none => defaults
  | some prefs =>
    let channels := (prefs.channelOverride.lookup e.eventType).getD defaults
    if isMuted prefs e then channels.filter fun ch => ch = .inApp && critical else channels

/-- `preferences.Resolve`. -/
def resolve (s : Settings) (prefs : Option Preferences) (defaults : List Channel) (e : Event)
    (eventClass : String) (now : Nat) : Decision :=
  let critical : Bool := eventClass = severityCritical
  { channels := resolveChannels prefs defaults e critical
    digest := !critical && prefs.any (·.digestClasses.contains eventClass)
    deferEmailTo :=
      if critical then none else (prefs.bind (·.quietHours)).bind (s.quietUntil · now) }

/-! ## The audience -/

/-- What `resolveAudience` looks up, and may fail to. -/
inductive Lookup where
  | role (role : String)
  | rules
  | group (id : String)
  deriving DecidableEq

/-- A recipient gets more channels. -/
def add (out : Table String (List Channel)) (user : String) (channels : List Channel) :
    Table String (List Channel) :=
  if user = "" then out else out.upsert user (channels ∪ []) (channels ∪ ·)

/-- `add` for some users. -/
def addAll (out : Table String (List Channel)) (users : List String) (channels : List Channel) :
    Table String (List Channel) :=
  users.foldl (fun out user => add out user channels) out

namespace Settings

variable (s : Settings)

/-- `Groups.Role`, whose error leaves the role out. -/
def roleUsers (e : Event) (fails : Lookup → Bool) (role : String) : List String :=
  let workspace := match e.field "workspace_id" with
    | some (.text w) => w
    | _ => ""
  if fails (.role role) then [] else s.role workspace role

/-- The users of a subject. -/
def subjects (fails : Lookup → Bool) : Subject → List String
  | .user id => [id]
  | .group id => if fails (.group id) then [] else s.group id

/-- `resolveAudience`, before the cap. -/
def resolveAudience (e : Event) (m : Mapping) (fails : Lookup → Bool) :
    Table String (List Channel) :=
  let out := m.audience.foldl (fun out ref =>
    let out := if ref.payloadField = "" then out
      else addAll out (extractPayloadPrincipals e ref.payloadField) m.channels
    if ref.role = "" then out else addAll out (s.roleUsers e fails ref.role) m.channels) []
  -- `ActiveRulesForEvent`
  let rules := if fails .rules then [] else s.rules
  (rules.filter (·.applies e)).foldl
    (fun out rule => addAll out (s.subjects fails rule.subject) rule.channels) out

end Settings

/-- The cap of an audience. -/
def maxAudience : Nat := 500

/-- The cap keeps the recipients that the map gives first. -/
def truncate (kept : String → Bool) (out : Table String (List Channel)) :
    Table String (List Channel) :=
  if maxAudience < out.length then (out.keep kept).take maxAudience else out

/-! ## The state -/

/-- An event, or the event id that a rollup makes up for a user's day. -/
inductive EventId where
  | event (id : Nat)
  | rollup (user : String) (day : Nat)
  deriving DecidableEq

/-- A message, by the key of its delivery row. -/
structure Key where
  event : EventId
  recipient : String
  channel : Channel
  deriving DecidableEq

/-- The status of a delivery row. -/
inductive DeliveryStatus where
  | queued (due : Nat)
  | sent | failed | skipped | suppressed | rateLimitedDigested | delivered
  deriving DecidableEq

/-- The digest of a user. -/
structure DigestBuffer where
  windowEnd : Nat
  items : List Key
  deriving DecidableEq

/-- The recipient that a call is at, and the channels that are still to come. -/
structure Recipient where
  user : String
  address : String
  decision : Decision
  channels : List Channel

/-- A call of `Process`. -/
structure Call where
  event : Nat
  mapping : Mapping
  recipients : Table String (List Channel)
  current : Option Recipient := none

/-- The tables, the calls and the ghosts. -/
structure Pipeline where
  clock : Nat
  calls : List Call := []
  deliveries : Table Key DeliveryStatus := []
  /-- The user and `created_at` of each notification. -/
  notifications : List (String × Nat) := []
  /-- The email buffers, by user and event class. -/
  buffers : Table (String × String) DigestBuffer := []
  handed : List Key := []
  consumed : List Nat := []

/-- What comes back while a recipient is delivered to on a channel; `none` is an error. -/
structure Answers where
  counted : Bool := true
  stored : Bool := true
  suppressed : Option Bool := some false
  tenantAllows : Option Bool := some true
  userAllows : Option Bool := some true
  sent : Bool := true
  recorded : Bool := true
  marked : Bool := true

namespace Pipeline

/-! ## Deliveries -/

/-- `InsertDelivery`: `ON CONFLICT DO NOTHING`. -/
def insertDelivery (w : Pipeline) (k : Key) (status : DeliveryStatus) : Pipeline :=
  { w with deliveries := w.deliveries.upsert k status fun old => old }

/-- `recordEmail`. -/
def recordEmail (w : Pipeline) (k : Key) (status : DeliveryStatus) (a : Answers) : Pipeline :=
  if a.recorded then w.insertDelivery k status else w

/-- A message is handed over. -/
def hand (w : Pipeline) (k : Key) : Pipeline := { w with handed := k :: w.handed }

/-- `InsertNotificationTx`, when it commits. -/
def insertNotification (w : Pipeline) (k : Key) : Pipeline :=
  match w.deliveries.find k with
  | some _ => w
  | none =>
    { (w.insertDelivery k .delivered).hand k with
      notifications := (k.recipient, w.clock) :: w.notifications }

/-- In seconds. -/
def day : Nat := 24 * 3600

/-- `CountInAppToday`. -/
def countInAppToday (w : Pipeline) (user : String) : Nat :=
  w.notifications.countP fun n => n.1 = user && w.clock / day * day ≤ n.2

/-- `deliverInApp`; over the cap the day's rollup is inserted.  The answer is whether there
was no error. -/
def deliverInApp (w : Pipeline) (s : Settings) (k : Key) (a : Answers) : Pipeline × Bool :=
  if a.counted && a.stored then
    let k := if s.inAppCap ≤ w.countInAppToday k.recipient then
      ⟨.rollup k.recipient (w.clock / day), k.recipient, .inApp⟩ else k
    (w.insertNotification k, true)
  else (w, false)

/-- What `deliverEmail` does with an email. -/
inductive Route where
  | skip
  | suppress
  | deferred (due : Nat)
  | digest
  | immediate
  deriving DecidableEq

/-- Where `deliverEmail` leads. -/
def emailRoute (m : Mapping) (r : Recipient) (a : Answers) : Route :=
  let critical : Bool := m.eventClass = severityCritical
  if r.address = "" then .skip
  else if a.suppressed = some true then .suppress
  else match if critical then none else r.decision.deferEmailTo with
    | some due => .deferred due
    | none =>
      if r.decision.digest && m.digestible then .digest
      else if !critical && (a.tenantAllows = some false || a.userAllows = some false) then
        .digest
      else .immediate

/-- `digestMaxItems`. -/
def digestMaxItems : Nat := 200

/-- `AppendDigest`, and `MarkDigestDue` when the buffer is full. -/
def bufferDigest (w : Pipeline) (s : Settings) (m : Mapping) (k : Key) (a : Answers) : Pipeline :=
  { w with
    buffers := w.buffers.upsert (k.recipient, m.eventClass) ⟨w.clock + s.digestWindow, [k]⟩
      fun b =>
        let items := b.items ++ [k]
        ⟨if digestMaxItems ≤ items.length ∧ a.marked then w.clock else b.windowEnd, items⟩ }

/-- `deliverEmail`. -/
def deliverEmail (w : Pipeline) (s : Settings) (m : Mapping) (r : Recipient) (k : Key)
    (a : Answers) : Pipeline × Bool :=
  match emailRoute m r a with
  | .skip => (w.recordEmail k .skipped a, true)
  | .suppress => (w.recordEmail k .suppressed a, true)
  | .deferred due => if a.stored then (w.insertDelivery k (.queued due), true) else (w, false)
  | .digest =>
    if a.stored then ((w.bufferDigest s m k a).recordEmail k .rateLimitedDigested a, true)
    else (w, false)
  | .immediate =>
    if a.sent then ((w.hand k).recordEmail k .sent a, true)
    else (w.recordEmail k .failed a, true)

/-- One channel of `deliverToRecipient`. -/
def deliver (w : Pipeline) (s : Settings) (c : Call) (r : Recipient) (ch : Channel)
    (a : Answers) : Pipeline × Bool :=
  match ch with
  | .inApp => w.deliverInApp s ⟨.event c.event, r.user, .inApp⟩ a
  | .email => w.deliverEmail s c.mapping r ⟨.event c.event, r.user, .email⟩ a
  | .webhook => (w, true)

/-! ## Steps -/

/-- A call goes on. -/
def setCall (w : Pipeline) (i : Nat) (c : Call) : Pipeline := { w with calls := w.calls.set i c }

/-- `Process` begins; an event without a mapping is ignored. -/
def process (w : Pipeline) (s : Settings) (id : Nat) (fails : Lookup → Bool)
    (kept : String → Bool) : Pipeline :=
  match s.registry (s.event id).eventType with
  | none => { w with consumed := id :: w.consumed }
  | some m =>
    let out := s.resolveAudience (s.event id) m fails
    { w with calls := { event := id, mapping := m, recipients := truncate kept out } :: w.calls }

/-- The reads of `deliverToRecipient`, of the preferences and in the directory.  An error is
logged, and the next recipient comes. -/
def startRecipient (w : Pipeline) (s : Settings) (i : Nat) (user : String)
    (channels : List Channel) (read : Bool) (info : Option String) : Pipeline :=
  match w.calls[i]? with
  | some ⟨id, m, recipients, none⟩ =>
    match recipients.find user with
    | some plan =>
      if channels.Perm plan then
        let dec := resolve s (s.preferences user) channels (s.event id) m.eventClass w.clock
        w.setCall i ⟨id, m, recipients.remove user,
          if read then info.map fun address => ⟨user, address, dec, dec.channels⟩ else none⟩
      else w
    | none => w
  | _ => w

/-- The call goes on with the current recipient's next channel.  After the last one, or an
error, it is done with the recipient; with no recipients left it returns. -/
def next (w : Pipeline) (s : Settings) (i : Nat) (a : Answers) : Pipeline :=
  match w.calls[i]? with
  | some ⟨id, m, recipients, some r⟩ =>
    match r.channels with
    | ch :: rest =>
      let (w', ok) := w.deliver s ⟨id, m, recipients, some r⟩ r ch a
      w'.setCall i ⟨id, m, recipients,
        if ok then some { r with channels := rest } else none⟩
    | [] => w.setCall i ⟨id, m, recipients, none⟩
  | some ⟨id, _, [], none⟩ => { w with calls := w.calls.eraseIdx i, consumed := id :: w.consumed }
  | _ => w

/-- A digest buffer that is due is taken and sent to the address that the directory gives.  A
mail without an address reaches nobody. -/
def flushDigest (w : Pipeline) (b : String × String) (taken : Bool) (info : Option String)
    (sent : Bool) : Pipeline :=
  match w.buffers.find b with
  | some buffer =>
    if buffer.windowEnd ≤ w.clock ∧ taken then
      let w := { w with buffers := w.buffers.remove b }
      if sent && info.any (· ≠ "") then { w with handed := buffer.items ++ w.handed } else w
    else w
  | none => w

/-- A deferred email that is due is sent, and its row is updated. -/
def sendDeferred (w : Pipeline) (k : Key) (sent updated : Bool) : Pipeline :=
  match w.deliveries.find k with
  | some (.queued due) =>
    if due ≤ w.clock then
      let w := if sent then w.hand k else w
      let status : DeliveryStatus := if sent then .sent else .failed
      if updated then { w with deliveries := w.deliveries.upsert k status fun _ => status } else w
    else w
  | _ => w

/-- A step of a call or of the worker. -/
inductive Op where
  | wait (time : Nat)
  | process (id : Nat) (fails : Lookup → Bool) (kept : String → Bool)
  | recipient (i : Nat) (user : String) (channels : List Channel) (read : Bool)
      (info : Option String)
  | next (i : Nat) (a : Answers)
  | flush (b : String × String) (taken : Bool) (info : Option String) (sent : Bool)
  | send (k : Key) (sent updated : Bool)

/-- One step. -/
def step (s : Settings) (w : Pipeline) : Op → Pipeline
  | .wait time => { w with clock := w.clock + time }
  | .process id fails kept => w.process s id fails kept
  | .recipient i user channels read info => w.startRecipient s i user channels read info
  | .next i a => w.next s i a
  | .flush b taken info sent => w.flushDigest b taken info sent
  | .send k sent updated => w.sendDeferred k sent updated

end Pipeline

end Windrose.Notifications

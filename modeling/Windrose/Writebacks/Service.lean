/-
  Writebacks/Service.lean --- requesting, approving, rejecting and delivering.

  Source: services/ingestion-service/app/domain/services/writebacks.py.

  A command is one database transaction, one read of the vault, one check of an address or
  one request to the target.  Whatever a delivery does carries the id of its writeback,
  which the source has in `writeback_id`.  A request that is sent has its effect at the
  target whatever answer comes back (`answer`); it may also fail before it is sent.

  `history` is no column: it lists what has happened, for the results about runs.
-/
import Windrose.Foundation.Await
import Windrose.Writebacks.Domain

set_option autoImplicit false

namespace Windrose.Writebacks

open Windrose.Foundation Await

/-! ## The store -/

/-- What is sent to a target. -/
inductive Body where
  | x12 (content : Bytes)
  | json (payload : Payload)
  | row (sql : Bytes) (values : List Value)

/-- What has happened. -/
inductive Event where
  | reserved (partner : Partner) (numbers : ControlSequence)
  /-- a row is inserted; with what was rendered for it, if something was -/
  | enqueued (id requester : Bytes) (rendering : Option (Payload × Target))
  | approved (id approver : Bytes)
  | rejected (id : Bytes)
  | sent (id : Bytes) (body : Body)
  | recorded (id : Bytes) (delivered : Bool)

/-- The tables and the targets. -/
structure Store where
  rows : Dict Bytes Writeback := ∅
  connections : Dict Bytes Connection := ∅
  sequences : Dict Partner ControlSequence := ∅
  /-- the answer of the targets: a status code, or an exception -/
  answer : Except Exn Nat := .ok 200
  history : List Event := []

/-- Who calls. -/
structure Principal where
  sub : Bytes
  tenantID : Bytes
  deriving DecidableEq

/-- `WritebackCreate`; the id of a new row is drawn by the caller. -/
structure NewWriteback where
  id : Bytes
  connectionID : Bytes
  idempotencyKey : Bytes
  target : Target
  payload : Payload

/-- `_ConnSnapshot`, `_WbSnapshot` and the executor. -/
structure Snapshot where
  conn : Connection
  target : Target
  payload : Payload
  idempotencyKey : Bytes
  kind : Executor

namespace Store

/-- A row that the tenant sees. -/
def get (s : Store) (tenant id : Bytes) : Except Exn Writeback :=
  match (s.rows.lookup id).filter fun wb => wb.tenantID = tenant with
  | some wb => .ok wb
  | none => .error (.notFound "writeback not found")

/-- `_get_connection`. -/
def getConnection (s : Store) (tenant id : Bytes) : Except Exn Connection :=
  match (s.connections.lookup id).filter fun conn => conn.tenantID = tenant && !conn.deleted with
  | some conn => .ok conn
  | none => .error (.notFound "connection not found")

/-- `reserve_control_numbers`. -/
def reserve (s : Store) (partner : Partner) : ControlSequence × Store :=
  let numbers := ((s.sequences.lookup partner).getD ⟨0, 0, 0⟩).next
  (numbers,
    { s with
      sequences := s.sequences.insert partner numbers
      history := s.history ++ [.reserved partner numbers] })

/-- The new row. -/
def insert (s : Store) (principal : Principal) (body : NewWriteback) (target : Target)
    (payload : Payload) (rendering : Option (Payload × Target)) : Except Exn Unit × Store :=
  if body.id ∈ s.rows then (.error .other, s)
  else
    (.ok (),
      { s with
        rows := s.rows.insert body.id
          { id := body.id
            tenantID := principal.tenantID
            connectionID := body.connectionID
            idempotencyKey := body.idempotencyKey
            target
            payload
            requestedBy := principal.sub }
        history := s.history ++ [.enqueued body.id principal.sub rendering] })

/-- The row of an earlier request with the same key. -/
def existing (s : Store) (tenant : Bytes) (body : NewWriteback) : Bool :=
  s.rows.values.any fun wb =>
    wb.tenantID = tenant && wb.connectionID = body.connectionID &&
      wb.idempotencyKey = body.idempotencyKey

/-- The part of `enqueue` for an X12 target. -/
def enqueueX12 (checksum : Bytes → Bytes) (s : Store) (principal : Principal)
    (body : NewWriteback) :
    Except Exn Unit × Store :=
  let sender := X12.pyStrip body.target.senderID
  let receiver := X12.pyStrip body.target.receiverID
  if sender = [] ∨ receiver = [] then
    (.error (.missing "X12 writeback: target is missing control field(s)"
      [bytes "sender_id", bytes "receiver_id"]), s)
  else
    let reserved := s.reserve ⟨principal.tenantID, sender, receiver⟩
    let target := body.target.withControl reserved.1
    match renderForWriteback checksum body.payload target with
    | .error e => (.error e, s)
    | .ok payload =>
      let inserted := reserved.2.insert principal body target payload (some (body.payload, target))
      match inserted.1 with
      | .ok _ => inserted
      | .error e => (.error e, s)

/-- `enqueue`. -/
def enqueue (checksum : Bytes → Bytes) (s : Store) (principal : Principal) (body : NewWriteback) :
    Except Exn Unit × Store :=
  match s.getConnection principal.tenantID body.connectionID with
  | .error e => (.error e, s)
  | .ok conn =>
    if conn.trafficDirection ≠ bytes "outgoing" ∧ conn.trafficDirection ≠ bytes "both" then
      (.error (.validationFailed "connection is not an outgoing write-back target"), s)
    else if conn.executor = none then
      (.error (.validationFailed "connector_type has no write-back executor"), s)
    else if s.existing principal.tenantID body then (.ok (), s)
    else if isX12Writeback body.target then s.enqueueX12 checksum principal body
    else s.insert principal body body.target body.payload none

/-- `_claim_for_delivery` on a row that is at hand. -/
def claim (s : Store) (wb : Writeback) (events : List Event) : Except Exn Snapshot × Store :=
  match s.getConnection wb.tenantID wb.connectionID with
  | .error e => (.error e, s)
  | .ok conn =>
    match conn.executor with
    | none => (.error (.validationFailed "connector_type has no write-back executor"), s)
    | some kind =>
      (.ok ⟨conn, wb.target, wb.payload, wb.idempotencyKey, kind⟩,
        { s with
          rows := s.rows.insert wb.id
            { wb with status := .delivering, attempts := wb.attempts + 1 }
          history := s.history ++ events })

/-- The first transaction of `approve`. -/
def approve (s : Store) (principal : Principal) (id : Bytes) : Except Exn Snapshot × Store :=
  match s.get principal.tenantID id with
  | .error e => (.error e, s)
  | .ok wb =>
    if wb.status ≠ .pendingApproval then
      (.error (.conflict s!"writeback is {wb.status.text}, not pending_approval"), s)
    else if wb.requestedBy ≠ [] ∧ principal.sub = wb.requestedBy then
      (.error (.validationFailed "four-eyes: the approver must differ from the requester"), s)
    else s.claim { wb with approvedBy := some principal.sub } [.approved wb.id principal.sub]

/-- `reject`. -/
def reject (s : Store) (principal : Principal) (id : Bytes) : Except Exn Unit × Store :=
  match s.get principal.tenantID id with
  | .error e => (.error e, s)
  | .ok wb =>
    if wb.status ≠ .pendingApproval ∧ wb.status ≠ .failed then
      (.error (.conflict s!"writeback is {wb.status.text}; cannot reject"), s)
    else
      (.ok (),
        { s with
          rows := s.rows.insert wb.id { wb with status := .rejected }
          history := s.history ++ [.rejected wb.id] })

/-- The first transaction of `retry`. -/
def retry (s : Store) (principal : Principal) (id : Bytes) : Except Exn Snapshot × Store :=
  match s.get principal.tenantID id with
  | .error e => (.error e, s)
  | .ok wb =>
    if wb.status ≠ .failed ∧ wb.status ≠ .delivering then
      (.error (.conflict s!"writeback is {wb.status.text}, not failed"), s)
    else if wb.approvedBy.getD [] = [] then
      (.error (.validationFailed "writeback was never approved"), s)
    else s.claim wb []

/-- The last transaction of `_deliver_and_record`. -/
def record (s : Store) (principal : Principal) (id : Bytes) (outcome : Except String Bytes) :
    Except Exn Unit × Store :=
  match s.get principal.tenantID id with
  | .error e => (.error e, s)
  | .ok wb =>
    match outcome with
    | .ok ref =>
      (.ok (),
        { s with
          rows := s.rows.insert wb.id
            { wb with status := .delivered, targetRef := some ref, lastError := none }
          history := s.history ++ [.recorded wb.id true] })
    | .error e =>
      (.ok (),
        { s with
          rows := s.rows.insert wb.id { wb with status := .failed, lastError := some e }
          history := s.history ++ [.recorded wb.id false] })

end Store

/-! ## Commands -/

/-- A transaction, or a call of another system. -/
inductive Cmd where
  | enqueue (principal : Principal) (body : NewWriteback)
  | approve (principal : Principal) (id : Bytes)
  | reject (principal : Principal) (id : Bytes)
  | retry (principal : Principal) (id : Bytes)
  /-- `_connection_secrets` -/
  | secrets (id : Bytes)
  /-- `_guard_url` or `_guard_host` -/
  | guard (id address : Bytes)
  /-- the request to the target, or the statement in its database -/
  | send (id : Bytes) (method address : Bytes) (body : Body)
  | record (principal : Principal) (id : Bytes) (outcome : Except String Bytes)

/-- What a command answers. -/
abbrev Cmd.Ans : Cmd → Type
  | .approve _ _ => Snapshot
  | .retry _ _ => Snapshot
  | .send _ _ _ _ => Nat
  | _ => Unit

/-- The writeback that a command helps to deliver. -/
def Cmd.delivery : Cmd → Option Bytes
  | .secrets id => some id
  | .guard id _ => some id
  | .send id _ _ _ => some id
  | .record _ id _ => some id
  | _ => none

/-- What a command does. -/
def effect (checksum : Bytes → Bytes) : (o : Cmd) → Store → Except Exn o.Ans × Store
  | .enqueue principal body, s => s.enqueue checksum principal body
  | .approve principal id, s => s.approve principal id
  | .reject principal id, s => s.reject principal id
  | .retry principal id, s => s.retry principal id
  | .secrets _, s => (.ok (), s)
  | .guard _ _, s => (.ok (), s)
  | .send id _ _ body, s => (s.answer, { s with history := s.history ++ [.sent id body] })
  | .record principal id outcome, s => s.record principal id outcome

/-! ## Deliveries -/

/-- A program of the service. -/
abbrev Prog (α : Type) : Type := Await Cmd Cmd.Ans Exn α

/-- One command. -/
def perform (o : Cmd) : Prog o.Ans := ask o

/-- `str.upper` of ASCII letters. -/
def upper (s : Bytes) : Bytes := s.map fun c => if 97 ≤ c && c ≤ 122 then c - 32 else c

/-- The address of a request. -/
def requestURL (snap : Snapshot) : Except Exn Bytes :=
  let base := (orElse snap.conn.url snap.conn.baseURL).rdropWhile (· = 47)
  let path := snap.target.path.dropWhile (· = 47)
  if base = [] then .error (.validationFailed "http_post connection config missing url")
  else .ok (if path = [] then base else base ++ 47 :: path)

/-- `_deliver_http_post`. -/
def deliverHTTPPost (checksum : Bytes → Bytes) (id : Bytes) (snap : Snapshot) : Prog Bytes := do
  let url ← ofExcept (requestURL snap)
  let method := upper (orElse (orElse snap.target.method snap.conn.method) (bytes "POST"))
  let _ ← perform (.secrets id)
  let _ ← perform (.guard id url)
  let body ← if renderedKey ∈ snap.payload then
      Body.x12 <$> ofExcept (approvedBytes checksum snap.payload)
    else pure (.json snap.payload)
  let status ← perform (.send id method url body)
  if 300 ≤ status then raise (.validationFailed s!"target returned {status}")
  else return method ++ bytes " " ++ url ++ bytes " -> " ++ itoa status

/-- `_quote_ident`. -/
def quoteIdent (name : Bytes) : Except Exn Bytes :=
  if Ingestions.isIdentifier name then .ok (34 :: name ++ [34])
  else .error (.validationFailed "invalid identifier")

/-- The statement of `_deliver_db_upsert`. -/
def upsertSQL (schema table key : Bytes) (cols : List Bytes) : Except Exn Bytes := do
  let qSchema ← quoteIdent schema
  let qTable ← quoteIdent table
  let qCols ← cols.mapM quoteIdent
  let qKey ← quoteIdent key
  let comma := bytes ", "
  let places := (List.range cols.length).map fun i => 36 :: itoa (i + 1)
  let updates := ((qCols.zip cols).filter (·.2 ≠ key)).map fun c => c.1 ++
      bytes " = EXCLUDED." ++ c.1
  let conflict := bytes "ON CONFLICT (" ++ qKey ++
    if updates = [] then bytes ") DO NOTHING" else bytes ") DO UPDATE SET " ++
      comma.intercalate updates
  return bytes "INSERT INTO " ++ qSchema ++ bytes "." ++ qTable ++ bytes " (" ++
    comma.intercalate qCols ++ bytes ") VALUES (" ++ comma.intercalate places ++ bytes ") " ++
      conflict

/-- `_deliver_db_upsert`. -/
def deliverDBUpsert (id : Bytes) (snap : Snapshot) : Prog Bytes := do
  let schema := orElse snap.target.schema (bytes "public")
  let key := snap.target.keyColumn
  if snap.target.table = [] ∨ key = [] then
    raise (.validationFailed "db_upsert target requires \x7btable, key_column\x7d")
  else if key ∉ snap.payload then raise (.validationFailed "payload is missing the key column")
  else
    let value := ((snap.payload.lookup key).map (·.str)).getD []
    let sql ← ofExcept (upsertSQL schema snap.target.table key snap.payload.keys)
    let _ ← perform (.secrets id)
    let _ ← perform (.guard id snap.conn.host)
    let _ ← perform (.send id [] snap.conn.host (.row sql snap.payload.values))
    return schema ++ bytes "." ++ snap.target.table ++ bytes "[" ++ key ++ bytes "=" ++ value ++
      bytes "]"

/-- The text of an exception in `last_error`. -/
def Exn.text : Exn → String
  | .notFound message => "NotFoundError: " ++ message
  | .validationFailed message => "ValidationFailedError: " ++ message
  | .conflict message => "ConflictError: " ++ message
  | .render _ => "PermanentJobError: X12 render"
  | .missing message _ => "PermanentJobError: " ++ message
  | .job message => "PermanentJobError: " ++ message
  | .other => "Exception"

/-- The delivery, and how it ended. -/
def deliver (checksum : Bytes → Bytes) (id : Bytes) (snap : Snapshot) :
    Prog (Except String Bytes) :=
  let sending := match snap.kind with
    | .dbUpsert => deliverDBUpsert id snap
    | .httpPost => deliverHTTPPost checksum id snap
  (Except.ok <$> sending).tryCatch fun e => pure (.error ((e.text.take 2000).toString))

/-- `_deliver_and_record`. -/
def deliverAndRecord (checksum : Bytes → Bytes) (principal : Principal) (id : Bytes)
    (snap : Snapshot) : Prog Unit := do
  let outcome ← deliver checksum id snap
  perform (.record principal id outcome)

/-! ## Calls -/

/-- A request to the service. -/
inductive Call where
  | enqueue (principal : Principal) (body : NewWriteback)
  | approve (principal : Principal) (id : Bytes)
  | reject (principal : Principal) (id : Bytes)
  | retry (principal : Principal) (id : Bytes)

def program (checksum : Bytes → Bytes) : Call → Prog Unit
  | .enqueue principal body => perform (.enqueue principal body)
  | .approve principal id => do
      let snap ← perform (.approve principal id)
      deliverAndRecord checksum principal id snap
  | .reject principal id => perform (.reject principal id)
  | .retry principal id => do
      let snap ← perform (.retry principal id)
      deliverAndRecord checksum principal id snap

/-- What happens besides the calls: connections come, change and go, and the targets change
what they answer. -/
inductive Outside where
  | addConnection (id : Bytes) (conn : Connection)
  /-- the configuration and the direction are replaced -/
  | updateConnection (id : Bytes) (conn : Connection)
  | deleteConnection (id : Bytes)
  | answer (status : Except Exn Nat)

def outside : Outside → Store → Store
  | .addConnection id conn, s =>
    if id ∈ s.connections then s else { s with connections := s.connections.insert id conn }
  | .updateConnection id new, s =>
    match s.connections.lookup id with
    | some conn =>
      { s with
        connections := s.connections.insert id
          { new with
            tenantID := conn.tenantID
            connectorType := conn.connectorType
            deleted := conn.deleted } }
    | none => s
  | .deleteConnection id, s =>
    match s.connections.lookup id with
    | some conn => { s with connections := s.connections.insert id { conn with deleted := true } }
    | none => s
  | .answer status, s => { s with answer := status }

end Windrose.Writebacks

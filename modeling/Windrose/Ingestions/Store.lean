/-
  Ingestions/Store.lean --- what the job runner works on, one transaction at a time.

  Source: services/ingestion-service/app/domain/services/runner.py, ingestions.py,
  schedules.py (the transactions of fire), watermark.py, x12_control.py
  (check_and_record_isa) and tablewriter.py (TableWriter).

  A command is one database transaction, one call of the table writer, or one read of a
  source.  A commit of the writer writes one snapshot that carries the id of its job; its
  reply may be lost after that (`replyLost`).  A staged append is private to its job until
  then and is no part of the store.

  `decode`, `answer` and `columns` stand for the decoders and the sources, `cell` for what
  `coerce_watermark` makes of the text of a cell; `coerce` and `serialize` are the two
  directions of a stored watermark.  Progress events and time stamps are left out.
-/
import Windrose.Foundation.Await
import Windrose.Foundation.Holds
import Windrose.Ingestions.Domain
import Windrose.X12.Domain

set_option autoImplicit false

namespace Windrose.Ingestions

open Windrose.Foundation

variable {ρ V : Type}

/-! ## Watermarks and schedules -/

/-- `WATERMARK_OPERATORS`. -/
inductive Operator where
  | gt
  | ge
  | lt
  | le
  | eq
  deriving DecidableEq

def Operator.text : Operator → Bytes
  | gt => bytes ">"
  | ge => bytes ">="
  | lt => bytes "<"
  | le => bytes "<="
  | eq => bytes "="

/-- `WATERMARK_VALUE_TYPES`. -/
inductive ValueType where
  | int
  | decimal
  | timestamp
  | date
  | string
  deriving DecidableEq

/-- The watermark of a source. -/
structure WatermarkSpec where
  column : Bytes
  operator : Operator := .gt
  valueType : ValueType := .string
  value : Option Bytes := none
  deriving DecidableEq

/-- What a schedule does beside a running job. -/
inductive OverlapPolicy where
  | skip
  | bufferOne
  deriving DecidableEq

/-- What `fire` reads of `ingestion_template`. -/
structure Template where
  datasetURN : Option Bytes := none
  statement : Option Bytes := none
  allowEmpty : Bool := false
  errorRowLimit : Int := 100
  deriving DecidableEq

/-- A row of `schedules`. -/
structure Schedule where
  id : Bytes
  tenantID : Bytes
  connectionID : Bytes
  ingestionTemplate : Template
  watermarkColumn : Option Bytes := none
  watermarkOperator : Operator := .gt
  watermarkValueType : ValueType := .string
  watermarkValue : Option Bytes := none
  overlapPolicy : OverlapPolicy := .skip
  enabled : Bool := true
  deleted : Bool := false
  deriving DecidableEq

/-- The watermark that `fire` captures. -/
def Schedule.watermark (sched : Schedule) : Option WatermarkSpec :=
  match sched.watermarkColumn, sched.watermarkValue with
  | some column, some value =>
    if column = [] then none
    else some ⟨column, sched.watermarkOperator, sched.watermarkValueType, some value⟩
  | _, _ => none

/-! ## The store -/

/-- A row of `connections`, without what a driver reads. -/
structure Connection where
  tenantID : Bytes
  deleted : Bool := false
  deriving DecidableEq

/-- A row of `uploads`, with the storage keys of its parts by number. -/
structure Upload where
  tenantID : Bytes
  ingestionID : Bytes
  completed : Bool
  parts : List Bytes
  deriving DecidableEq

/-- `StagedAppend`. -/
structure Staged (ρ : Type) where
  table : Bytes
  ingestionID : Bytes
  rows : List ρ
  deriving DecidableEq

/-- A snapshot of a table. -/
structure Snapshot (ρ : Type) where
  id : Nat
  table : Bytes
  ingestionID : Bytes
  rows : List ρ
  deriving DecidableEq

/-- The answer of the table writer. -/
structure AppendResult where
  snapshotID : Nat
  rowsAppended : Nat
  deriving DecidableEq

/-- Tenant, sender, receiver and control number of an interchange. -/
structure Interchange where
  tenantID : Bytes
  sender : Bytes
  receiver : Bytes
  isaControl : Bytes
  deriving DecidableEq

/-- The tables of the service, the object store, the sources and the snapshots. -/
structure Store (ρ : Type) where
  ingestions : Dict Bytes Ingestion := ∅
  uploads : List Upload := []
  objects : Dict Bytes Bytes := ∅
  seenInterchanges : List Interchange := []
  connections : Dict Bytes Connection := ∅
  schedules : Dict Bytes Schedule := ∅
  /-- the rows behind a connection -/
  source : Bytes → List ρ := fun _ => []
  snapshots : List (Snapshot ρ) := []
  replyLost : Bool := false

section Parts

variable {υ π ε : Type} (completed : Bytes → List υ) (parts : υ → List π) (multiple : ε)

/-- The loop of `find_upload_parts`; `scalar_one_or_none` does not admit two uploads. -/
def partsFor : List (Option Bytes) → Except ε (List π)
  | [] => .ok []
  | none :: candidates => partsFor candidates
  | some candidate :: candidates =>
    match completed candidate with
    | [] => partsFor candidates
    | [upload] => .ok (parts upload)
    | _ => .error multiple

/-- `find_upload_parts`, over the completed uploads of each job. -/
def uploadParts (ing : Ingestion) : Except ε (List π) :=
  partsFor completed parts multiple [some ing.id, ing.retriedFromID]

end Parts

namespace Store

/-- A job that the tenant sees. -/
def job (s : Store ρ) (tenant id : Bytes) : Option Ingestion :=
  (s.ingestions.lookup id).filter fun ing => ing.tenantID = tenant

/-- A transaction that changes one job, or fails. -/
def change (s : Store ρ) (tenant id : Bytes) (missing : Exn)
    (f : Ingestion → Except Exn Ingestion) : Except Exn Unit × Store ρ :=
  match s.job tenant id with
  | none => (.error missing, s)
  | some ing =>
    match f ing with
    | .ok ing' => (.ok (), { s with ingestions := s.ingestions.insert id ing' })
    | .error e => (.error e, s)

/-- The jobs with the property. -/
def count (s : Store ρ) (p : Ingestion → Bool) : Nat := Dict.count p s.ingestions

/-- The completed uploads of a job. -/
def completedOf (s : Store ρ) (tenant id : Bytes) : List Upload :=
  s.uploads.filter fun u => u.ingestionID = id && u.tenantID = tenant && u.completed

/-- `find_upload_parts`. -/
def findUploadParts (s : Store ρ) (ing : Ingestion) : Except Exn (List Bytes) :=
  uploadParts (s.completedOf ing.tenantID) (·.parts) .other ing

/-- A connection that the tenant sees. -/
def ownsConnection (s : Store ρ) (tenant id : Bytes) : Bool :=
  (s.connections.lookup id).any fun conn => conn.tenantID = tenant

/-- `has_snapshot`. -/
def hasSnapshot (s : Store ρ) (table id : Bytes) : Bool :=
  s.snapshots.any fun snap => snap.table = table && snap.ingestionID = id

/-- `max(snapshot ids, default=0) + 1`. -/
def nextSnapshotID (s : Store ρ) (table : Bytes) : Nat :=
  ((s.snapshots.filter fun snap => snap.table = table).map (·.id)).foldl max 0 + 1

def append (s : Store ρ) (staged : Staged ρ) : Store ρ :=
  { s with
    snapshots := s.snapshots ++
      [⟨s.nextSnapshotID staged.table, staged.table, staged.ingestionID, staged.rows⟩] }

end Store

/-! ## Requests -/

/-- What `create` reads of `IngestionCreate`. -/
structure NewIngestion where
  ingestionMode : Mode
  connectionID : Option Bytes := none
  datasetURN : Option Bytes := none
  newDataset : Bool := false
  fileFormat : Option Bytes := none
  statement : Option Bytes := none
  allowEmpty : Bool := false
  errorRowLimit : Int := 100

/-- The truth of an optional text. -/
def given : Option Bytes → Bool
  | some (_ :: _) => true
  | _ => false

/-- The row of a request. -/
def NewIngestion.row (body : NewIngestion) (tenant id datasetURN : Bytes) : Ingestion :=
  { id
    tenantID := tenant
    connectionID := body.connectionID
    datasetURN := some datasetURN
    ingestionMode := body.ingestionMode
    fileFormat :=
      if given body.fileFormat then body.fileFormat
      else if body.ingestionMode = .query then some (bytes "parquet") else none
    statement := body.statement
    allowEmpty := body.allowEmpty
    errorRowLimit := body.errorRowLimit }

/-! ## Settings and sources -/

/-- The settings that the runner reads, and the code it calls. -/
structure Runner (ρ V : Type) where
  maxRunningPerTenant : Nat := 5
  retryMaxAttempts : Nat := 5
  inlineExecution : Bool := true
  /-- `decode_stream`: format, row limit and bytes -/
  decode : Bytes → Int → Bytes → Except Exn (List ρ)
  /-- the columns of a statement -/
  columns : List ρ → Bytes → List Bytes
  /-- the answer of a source with the given rows to a statement with a parameter -/
  answer : List ρ → Bytes → Option V → List ρ
  cell : Bytes → ρ → Option V
  coerce : ValueType → Bytes → Option V
  serialize : V → Bytes

/-! ## Commands -/

/-- What `fire` returns from its transaction. -/
inductive Fired where
  | disabled
  | skipped
  | job (runImmediately : Bool) (watermark : Option WatermarkSpec)
  deriving DecidableEq

/-- The commands. -/
inductive Cmd (ρ V : Type) where
  | acquireSlot (tenant id : Bytes)
  | status (tenant id : Bytes)
  | transitionRetry (tenant id : Bytes) (attempt : Nat)
  | sleep (attempt : Nat)
  | transitionResume (tenant id : Bytes)
  | fail (tenant id : Bytes) (category : ErrorCategory) (message : String) (attempts : Nat)
      (samples : List Json) (hint : Option String)
  /-- the row that `_attempt` reads -/
  | load (tenant id : Bytes)
  /-- what `_attempt_file` reads: the row, the parts and the table -/
  | loadFile (tenant id : Bytes)
  /-- what `_attempt_query` reads: the row, its connection and the table -/
  | loadQuery (tenant id : Bytes)
  | hasSnapshot (table id : Bytes)
  | peek (keys : List Bytes)
  | checkAndRecordISA (interchange : Interchange)
  | stageFile (table id : Bytes) (keys : List Bytes) (fileFormat : Bytes) (errorRowLimit : Int)
  | columns (connection statement : Bytes)
  | stageQuery (table id connection sql : Bytes) (watermark : Option V)
  | discard (staged : Staged ρ)
  /-- the first transaction of `_commit_staged` -/
  | committing (tenant id : Bytes) (rowsDecoded : Nat) (allowEmpty : Bool)
  | commit (staged : Staged ρ)
  /-- the second -/
  | completed (tenant id : Bytes) (result : AppendResult)
  | create (tenant id datasetURN : Bytes) (body : NewIngestion)
  /-- an upload is opened, or completed with its parts -/
  | openUpload (tenant id : Bytes)
  | completeUpload (tenant id : Bytes) (parts : List Bytes)
  | expire (tenant id : Bytes)
  | cancel (tenant id : Bytes)
  | retry (tenant id cloneID : Bytes)
  | reingest (tenant id cloneID : Bytes)
  | fire (tenant schedule : Bytes) (force : Bool) (id datasetID : Bytes)
  | saveWatermark (schedule value : Bytes)

/-- What a command answers. -/
abbrev Cmd.Ans : Cmd ρ V → Type
  | .acquireSlot _ _ => Bool
  | .status _ _ => Option Status
  | .load _ _ => Ingestion
  | .loadFile _ _ => Ingestion × List Bytes × Bytes
  | .loadQuery _ _ => Ingestion × Bytes × Bytes
  | .hasSnapshot _ _ => Bool
  | .peek _ => Bytes
  | .stageFile _ _ _ _ _ => Staged ρ
  | .columns _ _ => List Bytes
  | .stageQuery _ _ _ _ _ => Staged ρ
  | .commit _ => AppendResult
  | .reingest _ _ _ => Mode
  | .fire _ _ _ _ _ => Fired
  | _ => Unit

namespace Store

/-! ### Jobs -/

/-- The two counts of `_acquire_slot`. -/
def running (s : Store ρ) (tenant : Bytes) : Nat :=
  s.count fun ing => ing.tenantID = tenant && ing.status = .running

def occupied (s : Store ρ) (tenant : Bytes) (urn : Option Bytes) : Nat :=
  s.count fun ing =>
    ing.tenantID = tenant && ing.datasetURN = urn &&
      (ing.status = .running || ing.status = .committing)

/-- `_acquire_slot`. -/
def acquireSlot (max : Nat) (s : Store ρ) (tenant id : Bytes) : Except Exn Bool × Store ρ :=
  match s.job tenant id with
  | none => (.ok false, s)
  | some ing =>
    if ing.status ≠ .queued then (.ok false, s)
    else if max ≤ s.running tenant ∨ 0 < s.occupied tenant ing.datasetURN then (.ok false, s)
    else
      match ing.recordTransition .running { slotAvailable := true } with
      | .ok ing' => (.ok true, { s with ingestions := s.ingestions.insert id ing' })
      | .error e => (.error e, s)

/-- A new row; a taken primary key is an error. -/
def insertNew (s : Store ρ) (ing : Ingestion) : Except Exn Unit × Store ρ :=
  if ing.id ∈ s.ingestions then (.error .other, s)
  else (.ok (), { s with ingestions := s.ingestions.insert ing.id ing })

/-- A new row that starts out queued. -/
def insertQueued (s : Store ρ) (ing : Ingestion) : Except Exn Unit × Store ρ :=
  match ing.recordTransition .queued { payloadValid := true } with
  | .ok ing' => s.insertNew ing'
  | .error e => (.error e, s)

/-- The clone of a job, queued; `allowed` is the check of the status. -/
def requeue (s : Store ρ) (tenant id cloneID : Bytes) (allowed : Status → Bool) (refusal : String) :
    Except Exn Mode × Store ρ :=
  match s.job tenant id with
  | none => (.error .notFound, s)
  | some ing =>
    if allowed ing.status then
      let inserted := s.insertQueued (ing.clone cloneID)
      (inserted.1.map fun _ => ing.ingestionMode, inserted.2)
    else (.error (.conflict refusal), s)

/-! ### Schedules -/

/-- The jobs of a schedule that have not ended. -/
def active (s : Store ρ) (tenant schedule : Bytes) : Nat :=
  s.count fun ing => ing.tenantID = tenant && ing.scheduleID = some schedule && !ing.status.terminal

def buffered (s : Store ρ) (tenant schedule : Bytes) : Nat :=
  s.count fun ing => ing.tenantID = tenant && ing.scheduleID = some schedule && ing.status = .queued

/-- The template, with the dataset pinned. -/
def pinned (sched : Schedule) (tenant datasetID : Bytes) : Template :=
  match sched.ingestionTemplate.datasetURN with
  | some (c :: urn) => { sched.ingestionTemplate with datasetURN := some (c :: urn) }
  | _ =>
    { sched.ingestionTemplate with
      datasetURN := some (bytes "wr:" ++ tenant ++ bytes ":dataset:dataset/" ++ datasetID) }

/-- The job of a fire. -/
def firedJob (sched : Schedule) (template : Template) (tenant id : Bytes) : Ingestion :=
  { id
    tenantID := tenant
    connectionID := some sched.connectionID
    datasetURN := template.datasetURN
    ingestionMode := .query
    fileFormat := some (bytes "parquet")
    statement := template.statement
    scheduleID := some sched.id
    allowEmpty := template.allowEmpty
    errorRowLimit := template.errorRowLimit }

/-- The job of a fire, inserted. -/
def fireJob (s : Store ρ) (sched : Schedule) (tenant schedule id datasetID : Bytes) :
    Except Exn Fired × Store ρ :=
  match s.insertQueued (firedJob sched (pinned sched tenant datasetID) tenant id) with
  | (.error e, _) => (.error e, s)
  | (.ok _, s') =>
    (.ok (.job (s.active tenant schedule = 0) sched.watermark),
      { s' with
        schedules := s.schedules.insert schedule
          { sched with ingestionTemplate := pinned sched tenant datasetID } })

/-- The first transaction of `fire`. -/
def fire (s : Store ρ) (tenant schedule : Bytes) (force : Bool) (id datasetID : Bytes) :
    Except Exn Fired × Store ρ :=
  match (s.schedules.lookup schedule).filter fun sched =>
      sched.tenantID = tenant && !sched.deleted with
  | none => (.ok .disabled, s)
  | some sched =>
    if !sched.enabled && !force then (.ok .disabled, s)
    else if 0 < s.active tenant schedule ∧
        (sched.overlapPolicy = .skip ∨ 0 < s.buffered tenant schedule) then (.ok .skipped, s)
    else s.fireJob sched tenant schedule id datasetID

end Store

/-- What a command does. -/
def effect (R : Runner ρ V) : (o : Cmd ρ V) → Store ρ → Except Exn o.Ans × Store ρ
  | .acquireSlot tenant id, s => s.acquireSlot R.maxRunningPerTenant tenant id
  | .status tenant id, s => (.ok ((s.job tenant id).map (·.status)), s)
  | .transitionRetry tenant id attempt, s =>
    s.change tenant id .other fun ing =>
      (ing.recordTransition .retrying
        { attempts := attempt, maxAttempts := R.retryMaxAttempts }).map
        ({ · with attempts := attempt })
  | .sleep _, s => (.ok (), s)
  | .transitionResume tenant id, s => s.change tenant id .other (·.recordTransition .running {})
  | .fail tenant id category message attempts samples hint, s =>
    s.change tenant id .other fun ing =>
      ({ ing with
          errorLog := some ⟨category, (message.take 2000).toString, samples.take 20, hint⟩
          attempts }).recordTransition .failed { errorLogPresent := true }
  | .load tenant id, s =>
    match s.job tenant id with
    | some ing => (.ok ing, s)
    | none => (.error .other, s)
  | .loadFile tenant id, s =>
    match s.job tenant id with
    | none => (.error .other, s)
    | some ing =>
      (do
        let parts ← s.findUploadParts ing
        let table ← bronzeTableIdent tenant (ing.datasetURN.getD [])
        return (ing, parts, table), s)
  | .loadQuery tenant id, s =>
    match s.job tenant id with
    | none => (.error .other, s)
    | some ing =>
      match ing.connectionID.filter fun c => s.ownsConnection tenant c with
      | some connection =>
        ((bronzeTableIdent tenant (ing.datasetURN.getD [])).map fun table =>
          (ing, connection, table), s)
      | none => (.error (.permanent .internal "connection not found for query job" [] none), s)
  | .hasSnapshot table id, s => (.ok (s.hasSnapshot table id), s)
  | .peek keys, s => (.ok ((keys.flatMap fun key => (s.objects.lookup key).getD []).take
    X12.isaLen), s)
  | .checkAndRecordISA interchange, s =>
    if interchange ∈ s.seenInterchanges then
      (.error (.permanent .decodeError
        "malformed X12: interchange control number has already been processed" [] none), s)
    else (.ok (), { s with seenInterchanges := s.seenInterchanges ++ [interchange] })
  | .stageFile table id keys fileFormat errorRowLimit, s =>
    ((R.decode fileFormat errorRowLimit
        (keys.flatMap fun key => (s.objects.lookup key).getD [])).map fun rows =>
          ⟨table, id, rows⟩, s)
  | .columns connection statement, s => (.ok (R.columns (s.source connection) statement), s)
  | .stageQuery table id connection sql watermark, s =>
    (.ok ⟨table, id, R.answer (s.source connection) sql watermark⟩, s)
  | .discard _, s => (.ok (), s)
  | .committing tenant id rowsDecoded allowEmpty, s =>
    s.change tenant id .other (·.recordTransition .committing { rowsDecoded, allowEmpty })
  | .commit staged, s =>
    (if s.replyLost then .error (.transient .sourceUnreachable "commit reply lost")
      else .ok ⟨s.nextSnapshotID staged.table, staged.rows.length⟩, s.append staged)
  | .completed tenant id result, s =>
    s.change tenant id .other fun ing =>
      ({ ing with
          icebergSnapshotID := some result.snapshotID
          rowsAppended := result.rowsAppended }).recordTransition .completed { commitOk := true }
  | .create tenant id datasetURN body, s =>
    if given body.connectionID ∧ ¬ body.connectionID.any (fun c =>
        (s.connections.lookup c).any fun conn => conn.tenantID = tenant && !conn.deleted) then
      (.error .notFound, s)
    else if body.ingestionMode = .query ∨ body.ingestionMode = .webhookBatch then
      s.insertQueued (body.row tenant id datasetURN)
    else s.insertNew (body.row tenant id datasetURN)
  | .openUpload tenant id, s =>
    s.change tenant id .notFound fun ing =>
      ing.recordTransition .awaitingUpload
        { ingestionMode := some ing.ingestionMode, uploadSessionOpened := true }
  | .completeUpload tenant id parts, s =>
    let r := s.change tenant id .notFound (·.recordTransition .queued { payloadValid := true })
    match r.1 with
    | .ok _ => (.ok (), { r.2 with uploads := r.2.uploads ++ [⟨tenant, id, true, parts⟩] })
    | .error e => (.error e, s)
  | .expire tenant id, s => s.change tenant id .notFound (·.recordTransition .expired {})
  | .cancel tenant id, s =>
    s.change tenant id .notFound fun ing =>
      ing.recordTransition .cancelled { committed := ing.icebergSnapshotID.isSome }
  | .retry tenant id cloneID, s =>
    let r := s.requeue tenant id cloneID (· = .failed) "only failed ingestions can be retried"
    (r.1.map fun _ => (), r.2)
  | .reingest tenant id cloneID, s =>
    s.requeue tenant id cloneID Status.terminal "only terminal ingestions can be re-ingested"
  | .fire tenant schedule force id datasetID, s => s.fire tenant schedule force id datasetID
  | .saveWatermark schedule value, s =>
    match s.schedules.lookup schedule with
    | some sched =>
      (.ok (), { s with
        schedules := s.schedules.insert schedule { sched with watermarkValue := some value } })
    | none => (.error .other, s)

/-! ## What commands do to the jobs -/

/-- The row that a command changes. -/
def Cmd.target : Cmd ρ V → Option (Bytes × Bytes)
  | .acquireSlot tenant id => some (tenant, id)
  | .transitionRetry tenant id _ => some (tenant, id)
  | .transitionResume tenant id => some (tenant, id)
  | .fail tenant id _ _ _ _ _ => some (tenant, id)
  | .committing tenant id _ _ => some (tenant, id)
  | .completed tenant id _ => some (tenant, id)
  | .openUpload tenant id => some (tenant, id)
  | .completeUpload tenant id _ => some (tenant, id)
  | .expire tenant id => some (tenant, id)
  | .cancel tenant id => some (tenant, id)
  | _ => none

/-- What a command makes of a row. -/
inductive Edit (R : Runner ρ V) (s : Store ρ) : Cmd ρ V → Ingestion → Ingestion → Prop where
  | acquireSlot {tenant id : Bytes} {ing : Ingestion} (hstatus : ing.status = .queued)
      (hrunning : s.running tenant < R.maxRunningPerTenant)
      (hoccupied : s.occupied tenant ing.datasetURN = 0) :
      Edit R s (.acquireSlot tenant id) ing { ing with status := .running }
  | transitionRetry {tenant id : Bytes} {attempt : Nat} {ing : Ingestion}
      (hstatus : ing.status = .running ∨ ing.status = .committing)
      (hattempt : attempt < R.retryMaxAttempts) :
      Edit R s (.transitionRetry tenant id attempt) ing
        { ing with status := .retrying, attempts := attempt }
  | transitionResume {tenant id : Bytes} {ing : Ingestion} (hstatus : ing.status = .retrying) :
      Edit R s (.transitionResume tenant id) ing { ing with status := .running }
  | fail {tenant id : Bytes} {category : ErrorCategory} {message : String} {attempts : Nat}
      {samples : List Json} {hint : Option String} {ing : Ingestion} (log : ErrorLog)
      (hstatus : ing.status = .retrying ∨ ing.status = .running ∨ ing.status = .committing) :
      Edit R s (.fail tenant id category message attempts samples hint) ing
        { ing with status := .failed, errorLog := some log, attempts }
  | committing {tenant id : Bytes} {rowsDecoded : Nat} {allowEmpty : Bool} {ing : Ingestion}
      (hstatus : ing.status = .running) :
      Edit R s (.committing tenant id rowsDecoded allowEmpty) ing { ing with status := .committing }
  | completed {tenant id : Bytes} {result : AppendResult} {ing : Ingestion}
      (hstatus : ing.status = .committing) :
      Edit R s (.completed tenant id result) ing
        { ing with
          status := .completed
          icebergSnapshotID := some result.snapshotID
          rowsAppended := result.rowsAppended }
  | openUpload {tenant id : Bytes} {ing : Ingestion} (hstatus : ing.status = .created) :
      Edit R s (.openUpload tenant id) ing { ing with status := .awaitingUpload }
  | completeUpload {tenant id : Bytes} {parts : List Bytes} {ing : Ingestion}
      (hstatus : ing.status = .created ∨ ing.status = .awaitingUpload) :
      Edit R s (.completeUpload tenant id parts) ing { ing with status := .queued }
  | expire {tenant id : Bytes} {ing : Ingestion} (hstatus : ing.status = .awaitingUpload) :
      Edit R s (.expire tenant id) ing { ing with status := .expired }
  | cancel {tenant id : Bytes} {ing : Ingestion}
      (hstatus : ing.status = .created ∨ ing.status = .awaitingUpload ∨ ing.status = .queued ∨
        ing.status = .running)
      (huncommitted : ing.icebergSnapshotID = none) :
      Edit R s (.cancel tenant id) ing { ing with status := .cancelled }

/-- What became of the rows: nothing, a change of one row, or a new row. -/
inductive Rows (R : Runner ρ V) (s : Store ρ) (o : Cmd ρ V) (s' : Store ρ) : Prop where
  | same (h : s'.ingestions = s.ingestions)
  | edited (tenant id : Bytes) (ing ing' : Ingestion) (htarget : o.target = some (tenant, id))
      (hjob : s.job tenant id = some ing) (hedit : Edit R s o ing ing')
      (h : s'.ingestions = s.ingestions.insert id ing')
  | inserted (ing : Ingestion) (hnew : ing.id ∉ s.ingestions)
      (hstatus : ing.status = .created ∨ ing.status = .queued)
      (h : s'.ingestions = s.ingestions.insert ing.id ing)

variable {s : Store ρ} {R : Runner ρ V} {o : Cmd ρ V} {ing : Ingestion}

theorem Rows.congr {s' s'' : Store ρ} (hrows : Rows R s o s')
    (heq : s''.ingestions = s'.ingestions) : Rows R s o s'' := by
  cases hrows with
  | same h => exact .same (heq.trans h)
  | edited tenant id ing ing' htarget hjob hedit h =>
    exact .edited tenant id ing ing' htarget hjob hedit (heq.trans h)
  | inserted ing hnew hstatus h => exact .inserted ing hnew hstatus (heq.trans h)

theorem Store.change_cases (s : Store ρ) (tenant id : Bytes) (missing : Exn)
    (f : Ingestion → Except Exn Ingestion) : (∃ e, s.change tenant id missing f = (.error e, s)) ∨
      ∃ ing ing', s.job tenant id = some ing ∧ f ing = .ok ing' ∧
        s.change tenant id missing f =
          (.ok (), { s with ingestions := s.ingestions.insert id ing' }) := by
  unfold Store.change
  cases hjob : s.job tenant id with
  | none => exact .inl ⟨missing, rfl⟩
  | some ing =>
    cases hf : f ing with
    | error e => exact .inl ⟨e, by simp [hf]⟩
    | ok ing' => exact .inr ⟨ing, ing', rfl, hf, by simp [hf]⟩

theorem rows_change {tenant id : Bytes} (missing : Exn)
    {f : Ingestion → Except Exn Ingestion} (htarget : o.target = some (tenant, id))
    (hedit : ∀ ing ing', f ing = .ok ing' → Edit R s o ing ing') :
    Rows R s o (s.change tenant id missing f).2 := by
  obtain ⟨e, h⟩ | ⟨ing, ing', hjob, hf, h⟩ := s.change_cases tenant id missing f
  · exact .same (by rw [h])
  · exact .edited tenant id ing ing' htarget hjob (hedit ing ing' hf) (by rw [h])

theorem rows_insertNew (hstatus : ing.status = .created ∨ ing.status = .queued) :
    Rows R s o (s.insertNew ing).2 := by
  unfold Store.insertNew
  by_cases h : ing.id ∈ s.ingestions
  · rw [if_pos h]
    exact .same rfl
  · rw [if_neg h]
    exact .inserted ing h hstatus rfl

theorem insertQueued_eq (h : ing.status = .created) :
    s.insertQueued ing = s.insertNew { ing with status := .queued } := by
  have hqueued : ing.recordTransition .queued { payloadValid := true } =
      .ok { ing with status := .queued } := by
    unfold Ingestion.recordTransition
    rw [h]
    rfl
  unfold Store.insertQueued
  rw [hqueued]

theorem rows_insertQueued (h : ing.status = .created) : Rows R s o (s.insertQueued ing).2 := by
  rw [insertQueued_eq h]
  exact rows_insertNew (.inr rfl)

theorem rows_requeue (tenant id cloneID : Bytes) (allowed : Status → Bool) (refusal : String) :
    Rows R s o (s.requeue tenant id cloneID allowed refusal).2 := by
  unfold Store.requeue
  cases s.job tenant id with
  | none => exact .same rfl
  | some ing =>
    by_cases h : allowed ing.status = true
    · simp only [h, if_true]
      exact rows_insertQueued rfl
    · simp only [h]
      exact .same rfl

theorem rows_fire (tenant schedule : Bytes) (force : Bool) (id datasetID : Bytes) :
    Rows R s o (s.fire tenant schedule force id datasetID).2 := by
  unfold Store.fire
  split
  · exact .same rfl
  split
  · exact .same rfl
  split
  · exact .same rfl
  rename_i sched _ _ _
  unfold Store.fireJob
  have hrows : Rows R s o
      (s.insertQueued (Store.firedJob sched (Store.pinned sched tenant datasetID) tenant id)).2 :=
    rows_insertQueued rfl
  cases hinserted : s.insertQueued (Store.firedJob sched (Store.pinned sched tenant datasetID)
    tenant id) with
  | mk answer s' =>
    rw [hinserted] at hrows
    cases answer with
    | error e => exact .same rfl
    | ok u => exact hrows.congr rfl

theorem rows_acquireSlot (tenant id : Bytes) :
    Rows R s (.acquireSlot tenant id) (s.acquireSlot R.maxRunningPerTenant tenant id).2 := by
  unfold Store.acquireSlot
  cases hjob : s.job tenant id with
  | none => exact .same rfl
  | some ing =>
    by_cases hstatus : ing.status = .queued
    · have hto : ing.recordTransition .running { slotAvailable := true } =
          .ok { ing with status := .running } := by
        unfold Ingestion.recordTransition
        rw [hstatus]
        rfl
      simp only [hstatus, ne_eq, not_true_eq_false, if_false]
      split
      · exact .same rfl
      · rename_i hfree
        rw [not_or] at hfree
        rw [hto]
        exact .edited tenant id ing _ rfl hjob
          (.acquireSlot hstatus (by omega) (by omega)) rfl
    · simp only [ne_eq, hstatus, not_false_eq_true, if_true]
      exact .same rfl

theorem effect_rows (R : Runner ρ V) (s : Store ρ) (o : Cmd ρ V) : Rows R s o (effect R o s).2 := by
  cases o with
  | acquireSlot tenant id => exact rows_acquireSlot tenant id
  | transitionRetry tenant id attempt =>
    refine rows_change .other rfl fun ing ing' hf => ?_
    cases hto : ing.recordTransition .retrying
        { attempts := attempt, maxAttempts := R.retryMaxAttempts } with
    | error e =>
      rw [hto] at hf
      simp [Except.map] at hf
    | ok ing'' =>
      rw [hto] at hf
      obtain rfl := Except.ok.inj hf
      obtain ⟨rfl, guard, hguard, hholds⟩ := ing.recordTransition_eq_ok hto
      obtain ⟨hstatus, rfl⟩ := transitions_eq_some hguard
      exact .transitionRetry hstatus (by simpa [Guard.attempts] using hholds)
  | transitionResume tenant id =>
    refine rows_change .other rfl fun ing ing' hf => ?_
    obtain ⟨rfl, guard, hguard, hholds⟩ := ing.recordTransition_eq_ok hf
    obtain ⟨-, rfl⟩ | ⟨hstatus, -⟩ := transitions_eq_some hguard
    · exact absurd hholds (by simp [Guard.slot])
    · exact .transitionResume hstatus
  | fail tenant id category message attempts samples hint =>
    refine rows_change .other rfl fun ing ing' hf => ?_
    obtain ⟨rfl, guard, hguard, -⟩ := Ingestion.recordTransition_eq_ok hf
    exact .fail _ (transitions_eq_some hguard).1
  | committing tenant id rowsDecoded allowEmpty =>
    refine rows_change .other rfl fun ing ing' hf => ?_
    obtain ⟨rfl, guard, hguard, -⟩ := ing.recordTransition_eq_ok hf
    exact .committing (transitions_eq_some hguard).1
  | completed tenant id result =>
    refine rows_change .other rfl fun ing ing' hf => ?_
    obtain ⟨rfl, guard, hguard, -⟩ := Ingestion.recordTransition_eq_ok hf
    exact .completed (transitions_eq_some hguard).1
  | openUpload tenant id =>
    refine rows_change .notFound rfl fun ing ing' hf => ?_
    obtain ⟨rfl, guard, hguard, -⟩ := ing.recordTransition_eq_ok hf
    exact .openUpload (transitions_eq_some hguard).1
  | completeUpload tenant id parts =>
    have hrows : Rows R s (.completeUpload tenant id parts : Cmd ρ V)
        (s.change tenant id .notFound (·.recordTransition .queued { payloadValid := true })).2 := by
      refine rows_change .notFound rfl fun ing ing' hf => ?_
      obtain ⟨rfl, guard, hguard, -⟩ := ing.recordTransition_eq_ok hf
      exact .completeUpload (transitions_eq_some hguard).1
    simp only [effect]
    split
    · exact hrows.congr rfl
    · exact .same rfl
  | expire tenant id =>
    refine rows_change .notFound rfl fun ing ing' hf => ?_
    obtain ⟨rfl, guard, hguard, -⟩ := ing.recordTransition_eq_ok hf
    exact .expire (transitions_eq_some hguard).1
  | cancel tenant id =>
    refine rows_change .notFound rfl fun ing ing' hf => ?_
    obtain ⟨rfl, guard, hguard, hholds⟩ := ing.recordTransition_eq_ok hf
    obtain ⟨hstatus, rfl⟩ := transitions_eq_some hguard
    exact .cancel hstatus (by simpa [Guard.uncommitted] using hholds)
  | create tenant id datasetURN body =>
    simp only [effect]
    split
    · exact .same rfl
    · split
      · exact rows_insertQueued rfl
      · exact rows_insertNew (.inl rfl)
  | retry tenant id cloneID => exact rows_requeue tenant id cloneID _ _
  | reingest tenant id cloneID => exact rows_requeue tenant id cloneID _ _
  | fire tenant schedule force id datasetID => exact rows_fire tenant schedule force id datasetID
  | load tenant id =>
    simp only [effect]
    split <;> exact .same rfl
  | loadFile tenant id =>
    simp only [effect]
    split <;> exact .same rfl
  | loadQuery tenant id =>
    simp only [effect]
    split
    · exact .same rfl
    · split <;> exact .same rfl
  | checkAndRecordISA interchange =>
    simp only [effect]
    split <;> exact .same rfl
  | saveWatermark schedule value =>
    simp only [effect]
    split <;> exact .same rfl
  | _ => exact .same rfl

end Windrose.Ingestions

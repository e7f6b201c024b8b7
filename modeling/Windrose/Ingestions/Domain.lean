/-
  Ingestions/Domain.lean --- the statuses and the rows of the ingestion service.

  Source: services/ingestion-service/app/domain/state_machine.py (TRANSITIONS,
  validate_transition), errors.py (the two job failures), services/transitions.py
  (record_transition), services/ingestions.py (parse_dataset_urn, bronze_table_ident,
  _clone) and store/models.py (Ingestion).

  A row has the columns that the job runner, the retries and the schedules read.  The
  transition log and the outbox are written and never read by them; they are left out.
-/
import Windrose.Foundation.Json

set_option autoImplicit false

namespace Windrose.Ingestions

open Windrose.Foundation

/-! ## Statuses -/

/-- `STATUSES`. -/
inductive Status where
  | created
  | awaitingUpload
  | queued
  | running
  | committing
  | retrying
  | completed
  | failed
  | cancelled
  | expired
  deriving DecidableEq

namespace Status

def text : Status → String
  | created => "created"
  | awaitingUpload => "awaiting_upload"
  | queued => "queued"
  | running => "running"
  | committing => "committing"
  | retrying => "retrying"
  | completed => "completed"
  | failed => "failed"
  | cancelled => "cancelled"
  | expired => "expired"

/-- `TERMINAL_STATUSES`. -/
def terminal : Status → Bool
  | completed | failed | cancelled | expired => true
  | _ => false

end Status

/-- `ingestion_mode`. -/
inductive Mode where
  | fileUpload
  | query
  | scheduledRun
  | webhookBatch
  deriving DecidableEq

def Mode.text : Mode → String
  | fileUpload => "file_upload"
  | query => "query"
  | scheduledRun => "scheduled_run"
  | webhookBatch => "webhook_batch"

/-- The category of a job failure. -/
inductive ErrorCategory where
  | sourceUnreachable
  | authFailed
  | schemaMismatch
  | decodeError
  | rowLimitExceeded
  | timeout
  | quotaExceeded
  | internal
  deriving DecidableEq

/-- The exceptions. -/
inductive Exn where
  /-- `TransientSourceError` -/
  | transient (category : ErrorCategory) (message : String)
  /-- `PermanentJobError` -/
  | permanent (category : ErrorCategory) (message : String) (samples : List Json)
      (hint : Option String)
  /-- `ConflictError`, with its message -/
  | conflict (message : String)
  /-- `ValidationFailedError`, with its message -/
  | validationFailed (message : String)
  /-- `NotImplementedFeatureError`, with its message: 501 -/
  | notImplemented (message : String)
  /-- `NotFoundError` -/
  | notFound
  /-- any other exception -/
  | other

/-! ## Transitions -/

/-- What the guards look at. -/
structure TransitionContext where
  ingestionMode : Option Mode := none
  uploadSessionOpened : Bool := false
  payloadValid : Bool := false
  slotAvailable : Bool := false
  rowsDecoded : Nat := 0
  allowEmpty : Bool := false
  commitOk : Bool := false
  attempts : Nat := 0
  maxAttempts : Nat := 5
  errorLogPresent : Bool := false
  committed : Bool := false

/-- A guard and what it says when it fails. -/
structure Guard where
  holds : TransitionContext → Bool
  reason : String

namespace Guard

def uploadOpened : Guard :=
  ⟨fun c => c.ingestionMode = some .fileUpload && c.uploadSessionOpened,
    "file_upload mode with an open upload session required"⟩

def payloadValid : Guard := ⟨(·.payloadValid), "payload validation must pass"⟩

def slot : Guard := ⟨(·.slotAvailable), "tenant concurrency slot required (ING-FR-082)"⟩

def rows : Guard :=
  ⟨fun c => 1 ≤ c.rowsDecoded || c.allowEmpty, ">=1 decoded row or allow_empty=true required"⟩

def commitOk : Guard := ⟨(·.commitOk), "single atomic Iceberg commit must succeed"⟩

def attempts : Guard := ⟨fun c => c.attempts < c.maxAttempts, "retry attempts exhausted"⟩

def always : Guard := ⟨fun _ => true, ""⟩

def errorLog : Guard := ⟨(·.errorLogPresent), "error_log must be populated"⟩

def uncommitted : Guard := ⟨(!·.committed), "only uncommitted jobs can be cancelled"⟩

end Guard

/-- `TRANSITIONS`. -/
def transitions : Status → Status → Option Guard
  | .created, .awaitingUpload => some .uploadOpened
  | .created, .queued => some .payloadValid
  | .awaitingUpload, .queued => some .payloadValid
  | .queued, .running => some .slot
  | .running, .committing => some .rows
  | .committing, .completed => some .commitOk
  | .running, .retrying => some .attempts
  | .committing, .retrying => some .attempts
  | .retrying, .running => some .always
  | .retrying, .failed => some .errorLog
  | .running, .failed => some .errorLog
  | .committing, .failed => some .errorLog
  | .created, .cancelled => some .uncommitted
  | .awaitingUpload, .cancelled => some .uncommitted
  | .queued, .cancelled => some .uncommitted
  | .running, .cancelled => some .uncommitted
  | .awaitingUpload, .expired => some .always
  | _, _ => none

def illegalTransition (current requested : Status) : Exn :=
  .conflict s!"illegal transition {current.text} -> {requested.text}"

def guardFailed (current requested : Status) (reason : String) : Exn :=
  .conflict s!"transition {current.text} -> {requested.text} rejected: {reason}"

/-- `validate_transition`. -/
def validateTransition (current requested : Status) (ctx : TransitionContext) : Except Exn Unit :=
  match transitions current requested with
  | none => .error (illegalTransition current requested)
  | some guard =>
    if guard.holds ctx then .ok () else .error (guardFailed current requested guard.reason)

theorem validateTransition_eq_ok {current requested : Status} {ctx : TransitionContext} :
    validateTransition current requested ctx = .ok () ↔
      ∃ guard, transitions current requested = some guard ∧ guard.holds ctx = true := by
  unfold validateTransition
  cases transitions current requested with
  | none => simp
  | some guard =>
    by_cases h : guard.holds ctx = true
    · simp [h]
    · simp [h]

theorem transitions_eq_some {current requested : Status} {guard : Guard}
    (h : transitions current requested = some guard) :
    match requested with
    | .created => False
    | .awaitingUpload => current = .created ∧ guard = .uploadOpened
    | .queued => (current = .created ∨ current = .awaitingUpload) ∧ guard = .payloadValid
    | .running => current = .queued ∧ guard = .slot ∨ current = .retrying ∧ guard = .always
    | .committing => current = .running ∧ guard = .rows
    | .retrying => (current = .running ∨ current = .committing) ∧ guard = .attempts
    | .completed => current = .committing ∧ guard = .commitOk
    | .failed =>
      (current = .retrying ∨ current = .running ∨ current = .committing) ∧ guard = .errorLog
    | .cancelled =>
      (current = .created ∨ current = .awaitingUpload ∨ current = .queued ∨ current = .running) ∧
        guard = .uncommitted
    | .expired => current = .awaitingUpload ∧ guard = .always := by
  cases requested <;> cases current <;> simp [transitions] at h <;> simp [h]

/-! ## Rows -/

/-- The error of a failed job. -/
structure ErrorLog where
  category : ErrorCategory
  message : String
  samples : List Json
  hint : Option String

/-- A row of `ingestions`. -/
structure Ingestion where
  id : Bytes
  tenantID : Bytes
  connectionID : Option Bytes := none
  datasetURN : Option Bytes := none
  ingestionMode : Mode
  fileFormat : Option Bytes := none
  statement : Option Bytes := none
  status : Status := .created
  scheduleID : Option Bytes := none
  allowEmpty : Bool := false
  rowsAppended : Nat := 0
  icebergSnapshotID : Option Nat := none
  errorLog : Option ErrorLog := none
  errorRowLimit : Int := 100
  attempts : Nat := 0
  retriedFromID : Option Bytes := none

namespace Ingestion

/-- `record_transition`. -/
def recordTransition (ing : Ingestion) (requested : Status) (ctx : TransitionContext) :
    Except Exn Ingestion :=
  match validateTransition ing.status requested ctx with
  | .ok _ => .ok { ing with status := requested }
  | .error e => .error e

theorem recordTransition_eq_ok {ing ing' : Ingestion} {requested : Status}
    {ctx : TransitionContext} (h : ing.recordTransition requested ctx = .ok ing') :
    ing' = { ing with status := requested } ∧
      ∃ guard, transitions ing.status requested = some guard ∧ guard.holds ctx = true := by
  unfold recordTransition at h
  cases hv : validateTransition ing.status requested ctx with
  | error e => simp [hv] at h
  | ok u =>
    have hguard := validateTransition_eq_ok.mp hv
    rw [hv] at h
    exact ⟨(Except.ok.inj h).symm, hguard⟩

/-- `_clone`; the caller draws the id. -/
def clone (ing : Ingestion) (id : Bytes) : Ingestion :=
  { id
    tenantID := ing.tenantID
    connectionID := ing.connectionID
    datasetURN := ing.datasetURN
    ingestionMode := ing.ingestionMode
    fileFormat := ing.fileFormat
    statement := ing.statement
    status := .created
    scheduleID := ing.scheduleID
    allowEmpty := ing.allowEmpty
    errorRowLimit := ing.errorRowLimit
    retriedFromID := some ing.id }

end Ingestion

/-! ## Tables -/

/-- `_IDENT_RE`. -/
def isIdentifier : Bytes → Bool
  | [] => false
  | c :: cs =>
    let letter (c : UInt8) : Bool := (65 ≤ c && c ≤ 90) || (97 ≤ c && c ≤ 122) || c = 95
    let rest := if cs.getLast? = some 10 then cs.dropLast else cs
    letter c && rest.all fun c => letter c || (48 ≤ c && c ≤ 57)

/-- `[0-9a-fA-F-]`. -/
def isURNDigit (c : UInt8) : Bool :=
  (48 ≤ c && c ≤ 57) || (97 ≤ c && c ≤ 102) || (65 ≤ c && c ≤ 70) || c = 45

/-- `str.lower` on the bytes of an id. -/
def lowerDigit (c : UInt8) : UInt8 := if 65 ≤ c && c ≤ 90 then c + 32 else c

/-- `[0-9a-fA-F-]{36}` at the head of a text, and the rest. -/
def takeURNID (s : Bytes) : Option (Bytes × Bytes) :=
  if (s.take 36).length = 36 ∧ (s.take 36).all isURNDigit then some (s.take 36, s.drop 36) else none

/-- A literal at the head of a text. -/
def dropLiteral (literal s : Bytes) : Option Bytes :=
  if literal.isPrefixOf s then some (s.drop literal.length) else none

/-- `_DATASET_URN_RE`; a `$` also stands before a last newline. -/
def parseDatasetURN (urn : Bytes) : Except Exn (Bytes × Bytes) :=
  let matched : Option (Bytes × Bytes) := do
    let rest ← dropLiteral (bytes "wr:") urn
    let (tenant, rest) ← takeURNID rest
    let rest ← dropLiteral (bytes ":dataset:dataset/") rest
    let (dataset, rest) ← takeURNID rest
    if rest = [] ∨ rest = [10] then some (tenant.map lowerDigit, dataset.map lowerDigit) else none
  match matched with
  | some ids => .ok ids
  | none => .error (.validationFailed "invalid dataset_urn")

/-- `bronze_table_ident`. -/
def bronzeTableIdent (tenantID urn : Bytes) : Except Exn Bytes :=
  (parseDatasetURN urn).map fun ids => bytes "bronze." ++ tenantID ++ bytes ".ds_" ++ ids.2

end Windrose.Ingestions

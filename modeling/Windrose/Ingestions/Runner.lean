/-
  Ingestions/Runner.lean --- the job runner and the calls that create jobs.

  Source: services/ingestion-service/app/domain/services/runner.py (IngestionRunner),
  ingestions.py (create, cancel, retry, reingest), schedules.py (fire) and watermark.py
  (build_incremental_query).

  A call is a program over the commands of Store.lean; the ids of new rows are drawn by
  its caller.  The transactions by which an upload is opened, completed or expired are
  calls of one command here.  What a call returns besides the status is left out.
-/
import Windrose.Ingestions.Store

set_option autoImplicit false

namespace Windrose.Ingestions

open Windrose.Foundation Await

variable {ρ V : Type}

/-- A program of the service. -/
abbrev Prog (ρ V α : Type) : Type := Await (Cmd ρ V) Cmd.Ans Exn α

/-- One command. -/
def perform (o : Cmd ρ V) : Prog ρ V o.Ans := ask o

/-! ## Incremental queries -/

/-- `.strip().rstrip(";")` of a statement. -/
def innerStatement (statement : Bytes) : Bytes := (X12.pyStrip statement).rdropWhile (· = 59)

/-- `build_incremental_query`: the text and its parameter. -/
def buildIncrementalQuery (R : Runner ρ V) (statement : Bytes) (spec : WatermarkSpec) :
    Except Exn (Bytes × V) :=
  match spec.value.map (R.coerce spec.valueType) with
  | none =>
    if isIdentifier spec.column then .error (.validationFailed "watermark value missing")
    else .error (.validationFailed "invalid watermark spec")
  | some none => .error (.validationFailed "invalid watermark spec")
  | some (some value) =>
    if isIdentifier spec.column then
      .ok (bytes "SELECT * FROM (" ++ innerStatement statement ++ bytes ") src WHERE " ++
        spec.column ++ bytes " " ++ spec.operator.text ++ bytes " :watermark", value)
    else .error (.validationFailed "invalid watermark spec")

/-- The greatest watermark of the rows, `observed` in `_attempt_query`. -/
def observe [LT V] [DecidableLT V] (cell : ρ → Option V) (rows : List ρ) : Option V :=
  (rows.filterMap cell).foldl
    (fun best v => match best with
      | none => some v
      | some b => if b < v then some v else some b) none

/-! ## Attempts -/

/-- `_commit_staged`. -/
def commitStaged (tenant id : Bytes) (staged : Staged ρ) (allowEmpty : Bool) : Prog ρ V Unit :=
  if staged.rows = [] ∧ ¬ allowEmpty then do
    perform (.discard staged)
    raise (.permanent .decodeError "source produced 0 decodable rows" []
      (some "set allow_empty=true to create an empty-schema dataset version"))
  else do
    perform (.committing tenant id staged.rows.length allowEmpty)
    let result ← perform (.commit staged)
    perform (.completed tenant id result)

/-- BR-9: a snapshot of the job is there already. -/
def alreadyCommitted : Exn :=
  .permanent .internal "snapshot already committed for this ingestion (BR-9)" [] none

def parseISAIdentity (head : Bytes) : Except X12.DecodeError (Bytes × Bytes × Bytes) :=
  (X12.Delimiters.fromIsa head).map fun delims =>
    let elements := (head.take (X12.isaLen - 1)).splitOn delims.element
    (X12.pyStrip (elements.getD 6 []), X12.pyStrip (elements.getD 8 []),
      X12.pyStrip (elements.getD 13 []))

/-- `_guard_x12_duplicate`. -/
def guardX12Duplicate (tenant : Bytes) (keys : List Bytes) : Prog ρ V Unit := do
  let head ← perform (.peek keys)
  match parseISAIdentity head with
  | .error _ => pure ()
  | .ok (sender, receiver, isaControl) =>
    perform (.checkAndRecordISA ⟨tenant, sender, receiver, isaControl⟩)

/-- `_attempt_file`. -/
def attemptFile (tenant id : Bytes) : Prog ρ V Unit := do
  let (ing, parts, table) ← perform (.loadFile tenant id)
  if parts = [] then
    raise (.permanent .internal "no completed upload parts found for file job" [] none)
  else
    if ← perform (.hasSnapshot table id) then raise alreadyCommitted
    else
      let fileFormat := if given ing.fileFormat then ing.fileFormat.getD [] else bytes "csv"
      if fileFormat = bytes "x12" then guardX12Duplicate tenant parts
      let staged ← perform (.stageFile table id parts fileFormat ing.errorRowLimit)
      commitStaged tenant id staged ing.allowEmpty

variable [LT V] [DecidableLT V]

/-- `_attempt_query`; the text of the watermark that it observed. -/
def attemptQuery (R : Runner ρ V) (tenant id : Bytes) (watermark : Option WatermarkSpec) :
    Prog ρ V (Option Bytes) := do
  let (ing, connection, table) ← perform (.loadQuery tenant id)
  if ← perform (.hasSnapshot table id) then raise alreadyCommitted
  else
    let statement := ing.statement.getD []
    let (sql, value) ← match watermark with
      | none => pure (statement, none)
      | some spec => do
          let columns ← perform (.columns connection statement)
          if spec.column ∈ columns then
            let (sql, value) ← ofExcept (buildIncrementalQuery R statement spec)
            pure (sql, some value)
          else raise (.permanent .schemaMismatch "watermark column absent from source schema"
            [] none)
    let staged ← perform (.stageQuery table id connection sql value)
    commitStaged tenant id staged ing.allowEmpty
    let observed := watermark.bind fun spec => observe (R.cell spec.column) staged.rows
    return observed.map R.serialize

/-- `_attempt`. -/
def attempt (R : Runner ρ V) (tenant id : Bytes) (watermark : Option WatermarkSpec) :
    Prog ρ V (Option Bytes) := do
  let ing ← perform (.load tenant id)
  match ing.ingestionMode with
  | .fileUpload => do
      attemptFile tenant id
      return none
  | .query | .scheduledRun => attemptQuery R tenant id watermark
  | .webhookBatch =>
    raise (.permanent .internal s!"mode {ing.ingestionMode.text} is not runnable" [] none)

/-! ## Runs -/

/-- What `execute` returns. -/
inductive ExecuteResult where
  /-- no slot: the status of the row -/
  | refused (status : Option Status)
  | completed (observed : Option Bytes)
  | failed
  deriving DecidableEq

/-- The loop of `execute`, with the attempts that are left after this one. -/
def attempts (R : Runner ρ V) (tenant id : Bytes) (watermark : Option WatermarkSpec) :
    Nat → Nat → Prog ρ V ExecuteResult
  | 0, n =>
    (ExecuteResult.completed <$> attempt R tenant id watermark).tryCatch fun
      | .transient category message => do
          perform (.fail tenant id category message n [] none)
          return .failed
      | .permanent category message samples hint => do
          perform (.fail tenant id category message n samples hint)
          return .failed
      | e => raise e
  | left + 1, n =>
    (ExecuteResult.completed <$> attempt R tenant id watermark).tryCatch fun
      | .transient _ _ => do
          perform (.transitionRetry tenant id n)
          perform (.sleep n)
          perform (.transitionResume tenant id)
          attempts R tenant id watermark left (n + 1)
      | .permanent category message samples hint => do
          perform (.fail tenant id category message n samples hint)
          return .failed
      | e => raise e

/-- `execute`. -/
def execute (R : Runner ρ V) (tenant id : Bytes) (watermark : Option WatermarkSpec) :
    Prog ρ V ExecuteResult := do
  if ← perform (.acquireSlot tenant id) then
    attempts R tenant id watermark (R.retryMaxAttempts - 1) 1
  else
    return .refused (← perform (.status tenant id))

/-! ## Calls -/

/-- `FILE_FORMATS`. -/
def fileFormats : List Bytes :=
  ["csv", "tsv", "json", "jsonl", "parquet", "avro", "xml", "x12", "fhir", "hl7v2", "iso20022",
    "acord"].map bytes

/-- `_validate_mode`. -/
def validateMode (body : NewIngestion) : Except Exn Unit :=
  match body.ingestionMode with
  | .webhookBatch => .error (.notImplemented ("webhook_batch ingestion is not available in this " ++
      "deployment: the buffered-events flush to Iceberg is not implemented (TODO wave-2 " ++
      "Temporal timer workflow); accepted events would never become dataset rows"))
  | .scheduledRun => .error (.validationFailed "invalid ingestion payload")
  | .fileUpload =>
    if given body.fileFormat ∧ body.fileFormat.getD [] ∈ fileFormats then .ok ()
    else .error (.validationFailed "invalid ingestion payload")
  | .query =>
    if given body.statement ∧ given body.connectionID then .ok ()
    else .error (.validationFailed "invalid ingestion payload")

/-- The dataset of `_resolve_target`; `datasetID` is for a new one. -/
def resolveTarget (tenant datasetID : Bytes) (body : NewIngestion) : Except Exn Bytes :=
  if given body.datasetURN = body.newDataset
    then .error (.validationFailed "exactly one target required")
  else if given body.datasetURN then
    match parseDatasetURN (body.datasetURN.getD []) with
    | .error e => .error e
    | .ok (owner, _) => if owner = tenant then .ok (body.datasetURN.getD []) else .error .notFound
  else .ok (bytes "wr:" ++ tenant ++ bytes ":dataset:dataset/" ++ datasetID)

/-- The calls. -/
inductive Call where
  | create (tenant id datasetID : Bytes) (body : NewIngestion)
  | openUpload (tenant id : Bytes)
  | completeUpload (tenant id : Bytes) (parts : List Bytes)
  | expire (tenant id : Bytes)
  | cancel (tenant id : Bytes)
  | execute (tenant id : Bytes) (watermark : Option WatermarkSpec)
  | retry (tenant id cloneID : Bytes)
  | reingest (tenant id cloneID : Bytes)
  | fire (tenant schedule : Bytes) (force : Bool) (id datasetID : Bytes)

/-- The end of `fire`: the watermark of a completed run is stored. -/
def afterFire (schedule : Bytes) : ExecuteResult → Prog ρ V (Option ExecuteResult)
  | .completed (some observed) => do
      perform (.saveWatermark schedule observed)
      return some (.completed (some observed))
  | result => return some result

/-- A call; the result is that of the run within it. -/
def program (R : Runner ρ V) : Call → Prog ρ V (Option ExecuteResult)
  | .create tenant id datasetID body => do
      let _ ← ofExcept (validateMode body)
      let datasetURN ← ofExcept (resolveTarget tenant datasetID body)
      perform (.create tenant id datasetURN body)
      if body.ingestionMode = .query ∧ R.inlineExecution then
        return some (← execute R tenant id none)
      else return none
  | .openUpload tenant id => do
      perform (.openUpload tenant id)
      return none
  | .completeUpload tenant id parts => do
      perform (.completeUpload tenant id parts)
      if R.inlineExecution then return some (← execute R tenant id none) else return none
  | .expire tenant id => do
      perform (.expire tenant id)
      return none
  | .cancel tenant id => do
      perform (.cancel tenant id)
      return none
  | .execute tenant id watermark => some <$> execute R tenant id watermark
  | .retry tenant id cloneID => do
      perform (.retry tenant id cloneID)
      if R.inlineExecution then return some (← execute R tenant cloneID none) else return none
  | .reingest tenant id cloneID => do
      let mode ← perform (.reingest tenant id cloneID)
      if R.inlineExecution ∧ mode = .query then return some (← execute R tenant cloneID none)
      else return none
  | .fire tenant schedule force id datasetID => do
      match ← perform (.fire tenant schedule force id datasetID) with
      | .disabled | .skipped => return none
      | .job runImmediately watermark =>
        if runImmediately ∧ R.inlineExecution then do
          let result ← execute R tenant id watermark
          afterFire schedule result
        else return none

/-! ## Runs of the service -/

/-- What happens besides the calls. -/
inductive Outside (ρ : Type) where
  | addConnection (id : Bytes) (conn : Connection)
  | addSchedule (sched : Schedule)
  | enableSchedule (id : Bytes) (enabled : Bool)
  | putObject (key content : Bytes)
  /-- a row is added to a source -/
  | addRow (connection : Bytes) (row : ρ)
  /-- replies of commits are lost from here on, or no more -/
  | loseReplies (lost : Bool)

def outside : Outside ρ → Store ρ → Store ρ
  | .addConnection id conn, s => { s with connections := s.connections.insert id conn }
  | .addSchedule sched, s =>
    if sched.id ∈ s.schedules then s
    else { s with schedules := s.schedules.insert sched.id sched }
  | .enableSchedule id enabled, s =>
    match s.schedules.lookup id with
    | some sched => { s with schedules := s.schedules.insert id { sched with enabled } }
    | none => s
  | .putObject key content, s => { s with objects := s.objects.insert key content }
  | .addRow connection row, s =>
    { s with source := Function.update s.source connection (s.source connection ++ [row]) }
  | .loseReplies lost, s => { s with replyLost := lost }

theorem outside_ingestions (t : Outside ρ) (s : Store ρ) :
    (outside t s).ingestions = s.ingestions := by
  cases t with
  | addSchedule sched =>
    simp only [outside]
    split <;> rfl
  | enableSchedule id enabled =>
    simp only [outside]
    split <;> rfl
  | _ => rfl

/-- The service and its calls. -/
abbrev Service (ι ρ V : Type) : Type :=
  Pool (Store ρ) ι Call (Cmd ρ V) Cmd.Ans Exn (Option ExecuteResult)

/-- A move of a run. -/
abbrev Step (ι ρ : Type) : Type := Move ι Call Exn (Outside ρ)

variable {ι : Type} [DecidableEq ι]

/-- One step of the service. -/
abbrev step (R : Runner ρ V) : Service ι ρ V → Step ι ρ → Service ι ρ V :=
  Pool.step (program R) (effect R) outside

end Windrose.Ingestions

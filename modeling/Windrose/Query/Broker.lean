/-
  Query/Broker.lean --- the goroutines of one execution.

  Source: services/query-service/internal/exec/broker.go (Run from its admission on,
  waitAndRun, capSink, runExecution, finish, Cancel, SuspendTenant, ResumeTenant,
  HandleDatasetDeleted).

  Each goroutine is a program counter with a step function over the shared state:
  the slot manager, the row of the execution with its outbox, and the run handle.
  A step is one access to one of them, since each has its own lock.  What the
  goroutine is told from outside (how a transaction ends, which case a `select`
  takes, what the engine does) is an `Input` of the step.

  Any number of `Cancel`, `SuspendTenant` and `HandleDatasetDeleted` calls run at
  the same time, and the other executions call the slot manager in any order.
  Cancelling the context of the engine has no step of its own: the engine may
  return at any time and with any result, also when its context is cancelled.
-/
import Windrose.Query.Lifecycle
import Windrose.Query.Slots

set_option autoImplicit false

namespace Windrose.Query

open Windrose.Foundation

/-! ## The shared state -/

/-- `reasonCancel`. -/
def reasonCancel : Bytes := bytes "cancel"
/-- `reasonSuspended`. -/
def reasonSuspended : Bytes := bytes "suspended"
/-- `reasonDatasetDeleted`. -/
def reasonDatasetDeleted : Bytes := bytes "dataset_deleted"
/-- `reasonRuntimeCeiling`. -/
def reasonRuntimeCeiling : Bytes := bytes "runtime_ceiling"
/-- `reasonScanCeiling`. -/
def reasonScanCeiling : Bytes := bytes "scan_ceiling"
/-- `reasonResultRows`. -/
def reasonResultRows : Bytes := bytes "result_rows_ceiling"
/-- `reasonResultBytes`. -/
def reasonResultBytes : Bytes := bytes "result_bytes_ceiling"

def syncMaxEstimatedScanBytes : Int := 10485760

/-- What `Run` knows of the execution when it asks for a slot. -/
structure Job where
  tenant : Uuid
  execID : Uuid
  user : Bytes
  agent : Bool
  caps : Caps
  sync : Bool
  engine : Bytes
  callerClass : Bytes
  estimate : Int
  maxScanBytes : Int
  maxResultRows : Int
  maxResultBytes : Int

/-- The state that the goroutines share: `registered` says that the run handle of
the execution is in `runs`, `reason` is the reason of the handle. -/
structure Shared where
  slots : SlotManager
  record : Record
  registered : Bool
  reason : Bytes
  suspended : Bool

namespace Shared

/-- `setReason`: the first reason stays. -/
def setReason (s : Shared) (r : Bytes) : Shared :=
  if s.reason = [] then { s with reason := r } else s

def setSlots (s : Shared) (m : SlotManager) : Shared := { s with slots := m }

def setRecord (s : Shared) (r : Record) : Shared := { s with record := r }

end Shared

/-! ## The run of the execution -/

/-- The progress of the result writer. -/
structure Progress where
  started : Bool
  rows : Int
  bytes : Int

/-- How `runExecution` ends. -/
inductive Ending where
  | succeeded
  | failed
  | cancelled
  | ceilingExceeded
  deriving DecidableEq

def Ending.status : Ending → Status
  | .succeeded => .succeeded
  | .failed => .failed
  | .cancelled => .cancelled
  | .ceilingExceeded => .ceilingExceeded

/-- The arguments of `finish`. -/
structure Verdict where
  target : Ending
  scanBytes : Int
  durationMS : Int
  writer : Progress
  error : Option ExecError

/-- The errors of `Run` before it has a row: one of its own, or that of the slots. -/
inductive RunError where
  | api (e : Error)
  | slots (e : SlotError)

/-- Where `Run`, `waitAndRun` and `runExecution` are. -/
inductive RunPC where
  | start
  | acquire
  | insert (g : Grant)
  | insertFailed
  | wait (g : Grant)
  | ready
  | readyFailed
  | aborted (reason : Bytes)
  | register
  | checkSuspended
  | findEngine
  | openWriter
  | execute (w : Progress)
  | sink (w : Progress)
  | returned (w : Progress) (scanBytes durationMS : Int) (err : Option ExecError)
  | judge (w : Progress) (scanBytes durationMS : Int) (err : Option ExecError)
  | finish (v : Verdict)
  | unregister
  | release
  | refused (e : RunError)
  | done

/-- The goroutine has nothing more to do. -/
def RunPC.finished : RunPC → Bool
  | .refused _ | .done => true
  | _ => false

/-- What the engine does next. -/
inductive EngineEvent where
  | row (rows bytes : Int)
  | returns (scanBytes durationMS : Int) (err : Option ExecError)

/-- What a step is told from outside. -/
structure Input where
  outcome : Outcome
  pickReady : Bool
  found : Bool
  writerError : Option Bytes
  engine : EngineEvent
  sealError : Option Bytes

/-- The row that `Run` inserts, with its events. -/
def insertedRow (job : Job) (g : Grant) : Row × List Envelope :=
  if 0 < g.pos then (.new .queued (some g.pos), [])
  else (.new .running none, [.started job.engine job.callerClass])

/-- The callback of the `Ready` branch. -/
def readyUpdate (job : Job) : Row → Option (Row × List Envelope) :=
  Record.transition .running (fun row => { row with queuePosition := none })
    (.started job.engine job.callerClass)

/-- The callback of the `Aborted` branch. -/
def abortedUpdate (reason : Bytes) : Row → Option (Row × List Envelope) :=
  if reason = reasonDatasetDeleted then
    Record.transition .failed
      (fun row => { row with
        queuePosition := none
        error := some ⟨.datasetNotFound, bytes "a referenced dataset was deleted while queued",
          none⟩ })
      (.failed .datasetNotFound)
  else
    Record.transition .cancelled (fun row => { row with queuePosition := none, error := none })
      (.cancelled none)

/-- The verdict on what the engine returned. -/
def verdict (w : Progress) (scanBytes durationMS : Int) (err : Option ExecError) (reason : Bytes)
    (sealError : Option Bytes) : Verdict :=
  match err with
  | none =>
    match sealError with
    | some e => ⟨.failed, scanBytes, durationMS, w,
        some ⟨.internal, bytes "seal results: " ++ e, none⟩⟩
    | none => ⟨.succeeded, scanBytes, durationMS, w, none⟩
  | some e =>
    if reason = reasonCancel ∨ reason = reasonSuspended then
      ⟨.cancelled, scanBytes, durationMS, w, none⟩
    else if reason ≠ [] then
      ⟨.ceilingExceeded, scanBytes, durationMS, w, some ⟨.costCeilingExceeded,
        bytes "ceiling breached at runtime: " ++ reason, some reason⟩⟩
    else ⟨.failed, scanBytes, durationMS, w, some e⟩

/-- A failure before the engine is contacted. -/
def earlyFailure (code : Code) (message : Bytes) : Verdict :=
  ⟨.failed, 0, 0, ⟨false, 0, 0⟩, some ⟨code, message, none⟩⟩

/-- The event of `finish`. -/
def finishEnvelope (job : Job) (v : Verdict) : Envelope :=
  match v.target with
  | .succeeded => .succeeded v.scanBytes v.writer.rows v.durationMS
  | .cancelled => .cancelled (some (v.scanBytes, v.durationMS))
  | .ceilingExceeded =>
    .ceilingExceeded ((v.error.bind (·.ceiling)).getD []) job.estimate v.scanBytes
  | .failed => .failed ((v.error.map (·.code)).getD .internal)

/-- What `finish` writes into the row. -/
def finishEdit (v : Verdict) (row : Row) : Row where
  status := v.target.status
  queuePosition := row.queuePosition
  error := v.error
  actualScanBytes := v.scanBytes
  durationMS := v.durationMS
  resultRows := if v.target = .succeeded then v.writer.rows else row.resultRows
  resultBytes := if v.target = .succeeded then v.writer.bytes else row.resultBytes

/-- `finish`. -/
def finishUpdate (job : Job) (v : Verdict) : Row → Option (Row × List Envelope) :=
  Record.transition v.target.status (finishEdit v) (finishEnvelope job v)

/-- The error of `Run` when it gets no slot. -/
def refusal (job : Job) (e : SlotError) : RunError :=
  if job.sync then .api (eUseAsync (bytes "no slot instantly available; submit async"))
  else if e = .queueFull then
    .api (eRateLimited (bytes "tenant execution queue is full; retry later"))
  else .slots e

/-- The `select` of `waitAndRun`; without a closed channel it blocks. -/
def selectWait (p : Option Pool) (g : Grant) (pickReady : Bool) : RunPC :=
  match p with
  | none => .wait g
  | some p =>
    match p.abortReason g.waiter with
    | none => if p.readyClosed g.waiter then .ready else .wait g
    | some reason => if p.readyClosed g.waiter && pickReady then .ready else .aborted reason

/-- A step of the goroutine of the execution. -/
def runStep (job : Job) (i : Input) : RunPC → Shared → RunPC × Shared
  | .start, s =>
    if s.suspended then
      (.refused (.api (ePermissionDenied
        (bytes "tenant is suspended; new executions are blocked"))), s)
    else (.acquire, s)
  | .acquire, s =>
    if job.sync ∧ syncMaxEstimatedScanBytes < job.estimate then
      (.refused (.api (eUseAsync (bytes "plan too large for sync mode; submit async"))), s)
    else
      match s.slots.acquire job.tenant job.execID job.user job.agent job.caps (!job.sync) with
      | (m, .ok g) => (.insert g, s.setSlots m)
      | (m, .error e) => (.refused (refusal job e), s.setSlots m)
  | .insert g, s =>
    let r := s.record.insert (insertedRow job g).1 (insertedRow job g).2 i.outcome
    (if r.2 then (if 0 < g.pos then .wait g else .register) else .insertFailed, s.setRecord r.1)
  | .insertFailed, s => (.done, s.setSlots (s.slots.release job.tenant job.execID))
  | .wait g, s => (selectWait (s.slots.tenants job.tenant) g i.pickReady, s)
  | .ready, s =>
    let r := s.record.update (readyUpdate job) i.outcome
    (if r.2 then .register else .readyFailed, s.setRecord r.1)
  | .readyFailed, s => (.done, s.setSlots (s.slots.release job.tenant job.execID))
  | .aborted reason, s => (.done, s.setRecord (s.record.update (abortedUpdate reason) i.outcome).1)
  | .register, s => (.checkSuspended, { s with registered := true, reason := [] })
  | .checkSuspended, s => (.findEngine, if s.suspended then s.setReason reasonSuspended else s)
  | .findEngine, s =>
    (if i.found then .openWriter
      else .finish (earlyFailure .engineUnavailable
        (bytes "engine " ++ job.engine ++ bytes " not registered")), s)
  | .openWriter, s =>
    match i.writerError with
    | some e => (.finish (earlyFailure .internal (bytes "result store: " ++ e)), s)
    | none => (.execute ⟨false, 0, 0⟩, s)
  | .execute w, s =>
    match i.engine with
    | .row rows bytes =>
      (.sink ⟨true, rows, bytes⟩,
        if w.started then s else s.setRecord (s.record.update Record.firstRow i.outcome).1)
    | .returns scanBytes durationMS err => (.returned w scanBytes durationMS err, s)
  | .sink w, s =>
    (.execute w,
      if job.maxResultRows < w.rows then s.setReason reasonResultRows
      else if job.maxResultBytes < w.bytes then s.setReason reasonResultBytes
      else s)
  | .returned w scanBytes durationMS err, s =>
    if err = none ∧ job.maxScanBytes < scanBytes then
      (.judge w scanBytes durationMS
        (some ⟨.internal, bytes "actual scan bytes exceeded ceiling", none⟩),
        s.setReason reasonScanCeiling)
    else (.judge w scanBytes durationMS err, s)
  | .judge w scanBytes durationMS err, s =>
    (.finish (verdict w scanBytes durationMS err s.reason i.sealError), s)
  | .finish v, s => (.unregister, s.setRecord (s.record.update (finishUpdate job v) i.outcome).1)
  | .unregister, s => (.release, { s with registered := false })
  | .release, s => (.done, s.setSlots (s.slots.release job.tenant job.execID))
  | .refused e, s => (.refused e, s)
  | .done, s => (.done, s)

/-! ## The other goroutines -/

/-- Where a `Cancel` is. -/
inductive CancelPC where
  | check
  | abort
  | update
  | signal
  | poll
  | done

/-- The callback of `Cancel`. -/
def cancelUpdate : Row → Option (Row × List Envelope) :=
  Record.transition .cancelled (fun row => { row with queuePosition := none }) (.cancelled none)

/-- A step of a `Cancel`; a read of the row may fail, and the deadline may pass. -/
def cancelStep (job : Job) (o : Outcome) (readFails deadline : Bool) :
    CancelPC → Shared → CancelPC × Shared
  | .check, s =>
    match s.record.status with
    | none => (.done, s)
    | some st => (if readFails || isTerminalStatus st then .done else .abort, s)
  | .abort, s =>
    let r := s.slots.abort job.tenant job.execID reasonCancel
    (if r.2 then .update else .signal, s.setSlots r.1)
  | .update, s => (.done, s.setRecord (s.record.update cancelUpdate o).1)
  | .signal, s => (.poll, if s.registered then s.setReason reasonCancel else s)
  | .poll, s =>
    match s.record.status with
    | none => (.done, s)
    | some st => (if readFails || isTerminalStatus st || deadline then .done else .signal, s)
  | .done, s => (.done, s)

/-- Where a `SuspendTenant` is; the flag says that it saw the run handle. -/
inductive SuspendPC where
  | flag
  | abortQueued (handle : Bool)
  | signal (handle : Bool)
  | done

/-- A step of a `SuspendTenant` for the tenant of the execution. -/
def suspendStep (job : Job) : SuspendPC → Shared → SuspendPC × Shared
  | .flag, s => (.abortQueued s.registered, { s with suspended := true })
  | .abortQueued handle, s =>
    (.signal handle, s.setSlots (s.slots.abortAllQueued job.tenant reasonSuspended).1)
  | .signal handle, s => (.done, if handle then s.setReason reasonSuspended else s)
  | .done, s => (.done, s)

/-- Where a `HandleDatasetDeleted` is, as to this execution. -/
inductive DeletePC where
  | list
  | read
  | abort
  | done

/-- A step of a `HandleDatasetDeleted`; `refers` says that the execution refers to the
dataset. -/
def deleteStep (job : Job) (readFails refers : Bool) : DeletePC → Shared → DeletePC × Shared
  | .list, s => (if job.execID ∈ s.slots.queuedIDs job.tenant then .read else .done, s)
  | .read, s =>
    match s.record.status with
    | none => (.done, s)
    | some _ => (if readFails || !refers then .done else .abort, s)
  | .abort, s => (.done, s.setSlots (s.slots.abort job.tenant job.execID reasonDatasetDeleted).1)
  | .done, s => (.done, s)

/-! ## Interleavings -/

/-- The execution a slot call is about. -/
def SlotManager.Call.about : SlotManager.Call → Option Uuid
  | .acquire execID _ _ _ _ => some execID
  | .release execID => some execID
  | .abort execID _ => some execID
  | .abortAllQueued _ => none

/-- The goroutines of an execution, and any number of each kind beside it. -/
structure World where
  main : RunPC
  cancels : Nat → CancelPC
  suspends : Nat → SuspendPC
  deletions : Nat → DeletePC
  shared : Shared

/-- Which goroutine takes the next step.  `timeout` is the runtime ceiling or the
watchdog; `other` is a call for another execution. -/
inductive Action where
  | main (i : Input)
  | cancel (k : Nat) (o : Outcome) (readFails deadline : Bool)
  | suspend (k : Nat)
  | resume
  | deleted (k : Nat) (readFails refers : Bool)
  | timeout
  | other (t : Uuid) (c : SlotManager.Call)

/-- Before the execution asks for a slot. -/
def World.init : World where
  main := .start
  cancels _ := .check
  suspends _ := .flag
  deletions _ := .list
  shared := ⟨.new, ⟨none, []⟩, false, [], false⟩

/-- One step of an interleaving. -/
def World.step (job : Job) (w : World) : Action → World
  | .main i => { w with main := (runStep job i w.main w.shared).1
                        shared := (runStep job i w.main w.shared).2 }
  | .cancel k o readFails deadline =>
    let r := cancelStep job o readFails deadline (w.cancels k) w.shared
    { w with cancels := Function.update w.cancels k r.1, shared := r.2 }
  | .suspend k =>
    let r := suspendStep job (w.suspends k) w.shared
    { w with suspends := Function.update w.suspends k r.1, shared := r.2 }
  | .resume => { w with shared.suspended := false }
  | .deleted k readFails refers =>
    let r := deleteStep job readFails refers (w.deletions k) w.shared
    { w with deletions := Function.update w.deletions k r.1, shared := r.2 }
  | .timeout =>
    if w.shared.registered then { w with shared := w.shared.setReason reasonRuntimeCeiling }
    else w
  | .other t c =>
    if c.about = some job.execID then w
    else { w with shared := w.shared.setSlots (w.shared.slots.call (t, c)) }

end Windrose.Query

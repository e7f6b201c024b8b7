/-
  Pipelines/Lifecycle.lean --- the runs of a tenant and the calls that move them.

  Source: services/pipeline-orchestrator/app/domain/services.py (RunService: create_run,
  drive_run, _finish_success, _finish_data_prep_success, _finish_failure, _dequeue_next,
  terminate, retry), app/store/sql.py (count_active, SqlQueueRepo) and
  app/domain/enums.py (RunStatus).

  A call is at one of its units of work or between two of them.  A unit of work that
  decides by what it reads has two steps, the read and the commit; the unit that writes
  the outcome of an execution decides nothing, and has one.
-/
import Windrose.Foundation.Upsert
import Windrose.Foundation.Uuid

set_option autoImplicit false

namespace Windrose.Pipelines

open Windrose.Foundation

/-- The status of a run. -/
inductive RunStatus where
  | pending
  | quotaQueued
  | submitted
  | running
  | succeeded
  | failed
  | cancelled
  deriving DecidableEq

/-- `TERMINAL_STATUSES`. -/
def RunStatus.terminal : RunStatus → Bool
  | .succeeded | .failed | .cancelled => true
  | .pending | .quotaQueued | .submitted | .running => false

/-- The statuses of `count_active`. -/
def RunStatus.active : RunStatus → Bool
  | .pending | .submitted | .running => true
  | .quotaQueued | .succeeded | .failed | .cancelled => false

/-- Where a call is. -/
inductive Call where
  /-- `create_run`, before it counts the active runs -/
  | create
  /-- it has counted, and will insert the run as queued or as submitted -/
  | inserting (queued : Bool)
  /-- `retry`, before it reads the run -/
  | retry (run : Uuid)
  /-- `drive_run`, before it reads the run -/
  | drive (run : Uuid)
  /-- the run was submitted, and will be running -/
  | starting (run : Uuid)
  | executing (run : Uuid)
  /-- the outcome is committed, and the MLflow run will be closed -/
  | closing (run : Uuid) (failed : Bool)
  /-- the execution is over, and `_dequeue_next` is to come -/
  | finished (run : Uuid)
  /-- `_dequeue_next` holds the queue row of a run -/
  | dequeuing (run : Uuid)
  /-- `terminate`, before it reads the run -/
  | terminate (run : Uuid)
  /-- the run was not over, and will be cancelled -/
  | cancelling (run : Uuid)
  deriving DecidableEq

/-- What a caller asks for. -/
inductive Request where
  | createRun
  | retry (run : Uuid)
  | driveRun (run : Uuid)
  | terminate (run : Uuid)
  deriving DecidableEq

def Request.call : Request → Call
  | .createRun => .create
  | .retry run => .retry run
  | .driveRun run => .drive run
  | .terminate run => .terminate run

/-- How an execution ends. -/
inductive Outcome where
  /-- of a training -/
  | success
  /-- of a data-prep pipeline -/
  | prepared
  | failure
  /-- the workflow was handed to Argo -/
  | submitted
  deriving DecidableEq

/-- A request, or the next unit of work of a call. -/
inductive Op where
  | request (r : Request)
  /-- a call of `create_run` raises -/
  | raise (index : Nat)
  /-- `create_run` counts the active runs and looks at the queue -/
  | count (index : Nat)
  /-- it commits, with a new id -/
  | insert (index : Nat) (run : Uuid)
  /-- `retry` reads the run -/
  | readFailed (index : Nat)
  /-- `drive_run` reads the run -/
  | readSubmitted (index : Nat)
  | start (index : Nat)
  | finish (index : Nat) (outcome : Outcome)
  /-- the MLflow run is closed -/
  | close (index : Nat)
  /-- closing the MLflow run raises -/
  | closeFails (index : Nat)
  /-- `_dequeue_next` reads; terminations hold the rows of `locked` -/
  | pick (index : Nat) (locked : List Uuid)
  | dequeue (index : Nat)
  /-- `terminate` reads the run -/
  | readRun (index : Nat)
  | cancel (index : Nat)

/-- The tables of a tenant, and its calls. -/
structure World where
  runs : Table Uuid RunStatus
  /-- `run_queue`, by `enqueued_at` -/
  queue : List Uuid
  /-- the terminal events -/
  events : List (Uuid × RunStatus)
  calls : List Call

/-- `max_concurrent_runs` and `max_queue_depth`. -/
structure Quota where
  maxConcurrentRuns : Nat
  maxQueueDepth : Nat

namespace World

/-- Nothing yet. -/
def empty : World := ⟨[], [], [], []⟩

/-- `count_active`. -/
def active (w : World) : Nat := w.runs.countP (·.2.active)

/-- A unit of work of `_dequeue_next` holds the queue row. -/
def held (w : World) (run : Uuid) : Bool := w.calls.any (· = .dequeuing run)

/-- The rows that `SELECT ... FOR UPDATE SKIP LOCKED` may find. -/
def unlocked (w : World) (locked : List Uuid) : List Uuid :=
  w.queue.filter fun run => !w.held run && !(decide (.cancelling run ∈ w.calls) && run ∈ locked)

/-- Writes a status. -/
def setStatus (w : World) (run : Uuid) (status : RunStatus) : World :=
  { w with runs := w.runs.upsert run status fun _ => status }

/-- Writes a terminal status with its event. -/
def conclude (w : World) (run : Uuid) (status : RunStatus) : World :=
  { w.setStatus run status with events := w.events ++ [(run, status)] }

/-- A call goes on. -/
def goOn (w : World) (index : Nat) (call : Call) : World :=
  { w with calls := w.calls.set index call }

/-- A call is over. -/
def done (w : World) (index : Nat) : World := { w with calls := w.calls.eraseIdx index }

variable (quota : Quota)

/-- The next unit of work of a call that is at `call`. -/
def advance (w : World) (index : Nat) (call : Call) : Op → World
  | .request _ => w
  | .raise _ =>
    match call with
    | .create | .inserting _ => w.done index
    | _ => w
  | .count _ =>
    match call with
    | .create =>
      if quota.maxConcurrentRuns ≤ w.active then
        if quota.maxQueueDepth ≤ w.queue.length then w.done index
        else w.goOn index (.inserting true)
      else w.goOn index (.inserting false)
    | _ => w
  | .insert _ run =>
    match call with
    | .inserting queued =>
      if (w.runs.find run).isSome then w
      else if queued then
        { (w.setStatus run .quotaQueued).done index with queue := w.queue ++ [run] }
      else (w.setStatus run .submitted).done index
    | _ => w
  | .readFailed _ =>
    match call with
    | .retry run => if w.runs.find run = some .failed then w.goOn index .create else w.done index
    | _ => w
  | .readSubmitted _ =>
    match call with
    | .drive run =>
      if w.runs.find run = some .submitted then w.goOn index (.starting run) else w.done index
    | _ => w
  | .start _ =>
    match call with
    | .starting run => (w.setStatus run .running).goOn index (.executing run)
    | _ => w
  | .finish _ outcome =>
    match call with
    | .executing run =>
      match outcome with
      | .success => (w.conclude run .succeeded).goOn index (.closing run false)
      | .prepared => (w.conclude run .succeeded).goOn index (.finished run)
      | .failure => (w.conclude run .failed).goOn index (.closing run true)
      | .submitted => w.goOn index (.finished run)
    | _ => w
  | .close _ =>
    match call with
    | .closing run _ => w.goOn index (.finished run)
    | _ => w
  | .closeFails _ =>
    match call with
    -- a success whose close raises is handled as a failure
    | .closing run false => (w.conclude run .failed).goOn index (.closing run true)
    -- a failure whose close raises leaves `drive_run` before `_dequeue_next`
    | .closing _ true => w.done index
    | _ => w
  | .pick _ locked =>
    match call with
    | .finished _ =>
      if quota.maxConcurrentRuns ≤ w.active then w.done index
      else
        match w.unlocked locked with
        | [] => w.done index
        | run :: _ => w.goOn index (.dequeuing run)
    | _ => w
  | .dequeue _ =>
    match call with
    | .dequeuing run =>
      { (w.setStatus run .submitted).done index with queue := w.queue.filter (· ≠ run) }
    | _ => w
  | .readRun _ =>
    match call with
    | .terminate run =>
      if (w.runs.find run).any (!·.terminal) then w.goOn index (.cancelling run)
      else w.done index
    | _ => w
  | .cancel _ =>
    match call with
    | .cancelling run =>
      -- the DELETE of the queue row waits for its lock
      if w.held run then w
      else { (w.conclude run .cancelled).done index with queue := w.queue.filter (· ≠ run) }
    | _ => w

/-- The call that an operation advances. -/
def indexOf : Op → Nat
  | .request _ => 0
  | .raise i | .count i | .insert i _ | .readFailed i | .readSubmitted i | .start i | .finish i _
  | .close i | .closeFails i | .pick i _ | .dequeue i | .readRun i | .cancel i => i

/-- One step. -/
def step (w : World) (op : Op) : World :=
  match op with
  | .request r => { w with calls := w.calls ++ [r.call] }
  | op =>
    match w.calls[indexOf op]? with
    | some call => w.advance quota (indexOf op) call op
    | none => w

end World

end Windrose.Pipelines

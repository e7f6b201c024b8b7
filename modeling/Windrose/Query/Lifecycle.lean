/-
  Query/Lifecycle.lean --- the row of an execution and its transitions.

  Source: services/query-service/internal/domain/types.go (statuses,
  IsTerminalStatus, legalTransitions, CanTransition, ExecError),
  services/query-service/internal/events/events.go (the execution events) and
  services/query-service/internal/store/mem.go, pg.go (InsertExecution,
  UpdateExecution).

  An update reads the row, decides, and writes the row with its events in one
  transaction.  It may fail without an effect, and it may also take effect while
  the caller sees an error (a commit whose answer is lost).  Of a row the fields
  are kept that the broker writes after the insert, less the two clock readings.
-/
import Windrose.Query.Domain

set_option autoImplicit false

namespace Windrose.Query

open Windrose.Foundation

/-- The execution statuses. -/
inductive Status where
  | created
  | planning
  | rejected
  | queued
  | running
  | streamingResults
  | succeeded
  | failed
  | cancelled
  | ceilingExceeded
  deriving DecidableEq

/-- `IsTerminalStatus`. -/
def isTerminalStatus : Status → Bool
  | .succeeded | .failed | .cancelled | .rejected | .ceilingExceeded => true
  | _ => false

/-- `legalTransitions`. -/
def legalTransitions : Status → List Status
  | .created => [.planning]
  | .planning => [.rejected, .queued, .running, .succeeded]
  | .queued => [.running, .cancelled, .failed]
  | .running => [.streamingResults, .succeeded, .failed, .cancelled, .ceilingExceeded]
  | .streamingResults => [.succeeded, .failed, .cancelled, .ceilingExceeded]
  | _ => []

/-- `CanTransition`. -/
def canTransition (source target : Status) : Bool := (legalTransitions source).contains target

/-- `ExecError`; the details are the ceiling that was breached. -/
structure ExecError where
  code : Code
  message : Bytes
  ceiling : Option Bytes
  deriving DecidableEq

/-- An execution event with its payload. -/
inductive Envelope where
  | started (engine callerClass : Bytes)
  | succeeded (actualScanBytes resultRows durationMS : Int)
  | failed (code : Code)
  | cancelled (costs : Option (Int × Int))
  | ceilingExceeded (ceiling : Bytes) (estimate actual : Int)
  deriving DecidableEq

/-- The terminal status that an event reports. -/
def Envelope.reports : Envelope → Option Status
  | .started .. => none
  | .succeeded .. => some .succeeded
  | .failed _ => some .failed
  | .cancelled _ => some .cancelled
  | .ceilingExceeded .. => some .ceilingExceeded

/-- The row of an execution. -/
structure Row where
  status : Status
  queuePosition : Option Nat
  error : Option ExecError
  actualScanBytes : Int
  durationMS : Int
  resultRows : Int
  resultBytes : Int
  deriving DecidableEq

/-- A row as it is inserted. -/
def Row.new (status : Status) (queuePosition : Option Nat) : Row :=
  ⟨status, queuePosition, none, 0, 0, 0, 0⟩

/-- What becomes of a transaction: it takes effect, it fails without one, or it takes
effect and its answer is lost. -/
inductive Outcome where
  | applied
  | failed
  | unknown
  deriving DecidableEq

/-- The row of one execution and the events of the outbox about it. -/
structure Record where
  row : Option Row
  outbox : List Envelope
  deriving DecidableEq

namespace Record

/-- `InsertExecution`; the flag says whether the caller sees success. -/
def insert (r : Record) (row : Row) (envs : List Envelope) : Outcome → Record × Bool
  | .applied => (⟨some row, r.outbox ++ envs⟩, true)
  | .failed => (r, false)
  | .unknown => (⟨some row, r.outbox ++ envs⟩, false)

/-- `UpdateExecution`: `none` is an error of the callback. -/
def update (r : Record) (apply : Row → Option (Row × List Envelope)) (o : Outcome) :
    Record × Bool :=
  match r.row with
  | none => (r, false)
  | some row =>
    match apply row with
    | none => (r, false)
    | some (row', envs) => r.insert row' envs o

/-- A callback that makes a legal transition and emits one event. -/
def transition (target : Status) (edit : Row → Row) (env : Envelope) (row : Row) :
    Option (Row × List Envelope) :=
  if canTransition row.status target then some ({ edit row with status := target }, [env])
  else none

/-- The callback of the first row of a result. -/
def firstRow (row : Row) : Option (Row × List Envelope) :=
  if canTransition row.status .streamingResults then
    some ({ row with status := .streamingResults }, [])
  else some (row, [])

/-- The status of the row. -/
def status (r : Record) : Option Status := r.row.map (·.status)

/-- The terminal statuses that the outbox reports. -/
def reported (r : Record) : List Status := r.outbox.filterMap Envelope.reports

/-- The terminal status of the row, if it has one. -/
def terminal (r : Record) : List Status := r.status.toList.filter isTerminalStatus

/-- The outbox reports the terminal status of the row, once, and no other. -/
def Consistent (r : Record) : Prop := r.reported = r.terminal

/-! ## What a transaction can do -/

/-- What a transaction does to the record: nothing, the insert of a row that is not
terminal, or a legal transition with the event that reports it. -/
inductive Change : Record → Record → Prop where
  | same {r : Record} : Change r r
  | create {r : Record} {row : Row} {envs : List Envelope} (hr : r.row = none)
      (hs : isTerminalStatus row.status = false) (he : envs.filterMap Envelope.reports = []) :
      Change r ⟨some row, r.outbox ++ envs⟩
  | move {r : Record} {row row' : Row} {envs : List Envelope} (hr : r.row = some row)
      (hs : canTransition row.status row'.status = true)
      (he : envs.filterMap Envelope.reports = [row'.status].filter isTerminalStatus) :
      Change r ⟨some row', r.outbox ++ envs⟩

theorem not_terminal_of_canTransition {source target : Status}
    (h : canTransition source target = true) : isTerminalStatus source = false := by
  cases source with
  | created | planning | queued | running | streamingResults => rfl
  | rejected | succeeded | failed | cancelled | ceilingExceeded => cases h

theorem Change.consistent {r r' : Record} (h : Change r r') (hr : r.Consistent) :
    r'.Consistent := by
  unfold Consistent reported terminal status at hr ⊢
  cases h with
  | same => exact hr
  | @create row envs hrow hs he =>
    rw [hrow] at hr
    simp only [Option.map_none, Option.toList_none, List.filter_nil] at hr
    simp [List.filterMap_append, hr, he, hs]
  | @move row row' envs hrow hs he =>
    have hn := not_terminal_of_canTransition hs
    rw [hrow] at hr
    simp only [Option.map_some, Option.toList_some, List.filter_cons, hn, Bool.false_eq_true,
      if_false, List.filter_nil] at hr
    rw [List.filterMap_append, hr, he]
    rfl

theorem Change.terminal_kept {r r' : Record} (h : Change r r') {st : Status}
    (hst : r.status = some st) (ht : isTerminalStatus st = true) : r'.status = some st := by
  unfold status at hst ⊢
  cases h with
  | same => exact hst
  | create hrow _ _ =>
    rw [hrow] at hst
    cases hst
  | move hrow hs _ =>
    rw [hrow] at hst
    cases hst
    rw [not_terminal_of_canTransition hs] at ht
    cases ht

theorem insert_change {r : Record} {row : Row} {envs : List Envelope} (o : Outcome)
    (h : Change r ⟨some row, r.outbox ++ envs⟩) : Change r (r.insert row envs o).1 := by
  cases o with
  | applied => exact h
  | failed => exact .same
  | unknown => exact h

theorem update_transition_change (r : Record) {target : Status} (edit : Row → Row)
    {env : Envelope} (o : Outcome)
    (he : [env].filterMap Envelope.reports = [target].filter isTerminalStatus) :
    Change r (r.update (transition target edit env) o).1 := by
  unfold update
  split
  · exact .same
  · rename_i row hrow
    split
    · exact .same
    · rename_i row' envs happly
      unfold transition at happly
      split at happly
      · rename_i hc
        cases happly
        exact insert_change o (.move hrow hc he)
      · cases happly

theorem update_firstRow_change (r : Record) (o : Outcome) : Change r (r.update firstRow o).1 := by
  unfold update
  split
  · exact .same
  · rename_i row hrow
    split
    · exact .same
    · rename_i row' envs happly
      unfold firstRow at happly
      split at happly
      · rename_i hc
        cases happly
        exact insert_change o (.move hrow hc rfl)
      · cases happly
        have hsame : Change r ⟨some row, r.outbox ++ []⟩ := by
          rw [List.append_nil, ← hrow]
          exact .same
        exact insert_change o hsame

end Record

end Windrose.Query

/-
  Cases/Domain.lean --- cases and their lifecycle.

  Source: services/case-service/internal/domain/types.go (Status, Severity, Case,
  SLAPolicy) and internal/domain/statemachine.go.

  A `Case` carries what the transitions, the SLA timers and the creation of cases read
  and write, and the constraint `cases_assignee_status_invariant` of the table as a
  field: a case without assignee is an unassigned one.  Its id is the key of its row.  An
  instant is a number of microseconds.
-/
import Windrose.Foundation.Uuid

set_option autoImplicit false

namespace Windrose.Cases

open Windrose.Foundation

/-- A point in time. -/
abbrev Instant : Type := Int

/-! ## Status and severity -/

/-- The status of a case. -/
inductive Status where
  | draft
  | inProgress
  | resolved
  | unassigned
  | closed
  deriving DecidableEq

def Status.text : Status → Bytes
  | .draft => bytes "draft"
  | .inProgress => bytes "in_progress"
  | .resolved => bytes "resolved"
  | .unassigned => bytes "unassigned"
  | .closed => bytes "closed"

/-- The severity of a case. -/
inductive Severity where
  | low
  | medium
  | high
  | critical
  deriving DecidableEq

/-- `BumpSeverity`. -/
def Severity.bump : Severity → Severity
  | .low => .medium
  | .medium => .high
  | .high | .critical => .critical

/-- What a breach does. -/
inductive BreachAction where
  | autoUnassign
  | escalate
  | notifyOnly
  deriving DecidableEq

/-- The policy of a workspace. -/
structure SLAPolicy where
  warnBefore : Int
  onBreach : BreachAction
  maxReassignCount : Nat
  deriving DecidableEq

/-- A disposition code. -/
structure Disposition where
  id : Uuid
  active : Bool
  requiresNote : Bool
  deriving DecidableEq

/-! ## Cases -/

/-- A row of `cases`. -/
structure Case where
  workspaceID : Uuid
  caseNumber : Nat
  status : Status
  severity : Severity
  assignedToID : Option Uuid
  assignedToAt : Option Instant
  datasetURN : Bytes
  rowPK : Bytes
  dedupKey : Option Bytes
  sourceQueryURNs : List Bytes
  dueDate : Instant
  dispositionID : Option Uuid
  resolutionNote : Bytes
  resolvedAt : Option Instant
  closedAt : Option Instant
  snapshotRef : Bytes
  recurrenceOf : Option Uuid
  reassignCount : Nat
  caseVersion : Nat
  createdAt : Instant
  /-- `cases_assignee_status_invariant` -/
  assignee_status : assignedToID = none ↔ status = .unassigned
  deriving DecidableEq

/-- How an operation on a case fails. -/
inductive CaseError where
  | notFound
  | staleVersion
  | invalidTransition (message : Bytes)
  | dispositionRequired
  | dispositionNote
  | validation (message : Bytes)
  deriving DecidableEq

namespace Case

/-- Draft or in progress. -/
def Active (c : Case) : Prop := c.status = .draft ∨ c.status = .inProgress

instance (c : Case) : Decidable c.Active := inferInstanceAs (Decidable (_ ∨ _))

theorem assigned_of_status {c : Case} (h : c.status ≠ .unassigned) : c.assignedToID ≠ none :=
  fun hnone => h (c.assignee_status.mp hnone)

theorem some_status {c : Case} (h : c.status ≠ .unassigned) (assignee : Uuid) :
    some assignee = none ↔ c.status = .unassigned :=
  ⟨nofun, fun hunassigned => absurd hunassigned h⟩

/-- `Assign`. -/
def assign (c : Case) (assignee : Uuid) (now : Instant) : Except CaseError Case :=
  match h : c.status with
  | .unassigned =>
    .ok { c with
      status := .draft
      assignedToID := some assignee
      assignedToAt := some now
      assignee_status := by simp }
  | .draft | .inProgress =>
    .ok { c with
      reassignCount :=
        if c.assignedToID.any (· ≠ assignee) then c.reassignCount + 1 else c.reassignCount
      assignedToID := some assignee
      assignedToAt := some now
      assignee_status := some_status (by rw [h]; decide) assignee }
  | .resolved | .closed =>
    .error (.invalidTransition (bytes "cannot assign a " ++ c.status.text ++ bytes " case"))

theorem unassigned_iff : (none : Option Uuid) = none ↔ Status.unassigned = .unassigned := by simp

/-- `Unassign`. -/
def unassign (c : Case) : Except CaseError Case :=
  match c.status with
  | .draft | .inProgress =>
    .ok { c with
      status := .unassigned
      assignedToID := none
      assignedToAt := none
      assignee_status := unassigned_iff }
  | .unassigned => .error (.invalidTransition (bytes "case is already unassigned"))
  | .resolved | .closed =>
    .error (.invalidTransition (bytes "cannot unassign a " ++ c.status.text ++ bytes " case"))

theorem assignee_status_of_ne {c : Case} {status : Status} (hold : c.status ≠ .unassigned)
    (hnew : status ≠ .unassigned) : c.assignedToID = none ↔ status = .unassigned :=
  ⟨fun h => absurd h (assigned_of_status hold), fun h => absurd h hnew⟩

/-- `Start`. -/
def start (c : Case) : Except CaseError Case :=
  if h : c.status = .draft then
    .ok { c with
      status := .inProgress
      assignee_status := assignee_status_of_ne (by rw [h]; decide) (by decide) }
  else
    .error (.invalidTransition (bytes "start requires a draft case, got " ++ c.status.text))

/-- `Resolve`. -/
def resolve (c : Case) (disp : Option Disposition) (note : Bytes) (now : Instant) :
    Except CaseError Case :=
  if h : c.status = .inProgress then
    match disp with
    | none => .error .dispositionRequired
    | some disp =>
      if disp.active = false then .error .dispositionRequired
      else if disp.requiresNote ∧ note = [] then .error .dispositionNote
      else
        .ok { c with
          status := .resolved
          dispositionID := some disp.id
          resolutionNote := note
          resolvedAt := some now
          assignee_status := assignee_status_of_ne (by rw [h]; decide) (by decide) }
  else
    .error (.invalidTransition
      (bytes "resolve requires an in_progress case, got " ++ c.status.text))

/-- `ReopenWindow`. -/
def reopenWindow : Int := 30 * 24 * 3600 * 1000000

/-- `Reopen`. -/
def reopen (c : Case) (now : Instant) : Except CaseError Case :=
  if h : c.status = .resolved then
    if c.resolvedAt.any (reopenWindow < now - ·) then
      .error (.invalidTransition
        (bytes "reopen window (30 days) has passed; case may only be closed"))
    else
      .ok { c with
        status := .inProgress
        dispositionID := none
        resolutionNote := []
        resolvedAt := none
        assignee_status := assignee_status_of_ne (by rw [h]; decide) (by decide) }
  else
    .error (.invalidTransition (bytes "reopen requires a resolved case, got " ++ c.status.text))

/-- `Close`. -/
def close (c : Case) (snapshotRef : Bytes) (now : Instant) : Except CaseError Case :=
  if h : c.status = .resolved then
    .ok { c with
      status := .closed
      snapshotRef
      closedAt := some now
      assignee_status := assignee_status_of_ne (by rw [h]; decide) (by decide) }
  else
    .error (.invalidTransition (bytes "close requires a resolved case, got " ++ c.status.text))

/-! ## What a transition leaves -/

section Transitions

variable {c c' : Case} {now : Instant}

theorem assign_ok {assignee : Uuid} (h : c.assign assignee now = .ok c') :
    c'.Active ∧ c'.dueDate = c.dueDate := by
  unfold assign at h
  split at h
  · cases h
    exact ⟨.inl rfl, rfl⟩
  · next hdraft =>
    cases h
    exact ⟨.inl hdraft, rfl⟩
  · next hprogress =>
    cases h
    exact ⟨.inr hprogress, rfl⟩
  · cases h
  · cases h

theorem unassign_ok (h : c.unassign = .ok c') : c.Active ∧ ¬ c'.Active := by
  unfold unassign at h
  split at h
  · next hdraft =>
    cases h
    exact ⟨.inl hdraft, nofun⟩
  · next hprogress =>
    cases h
    exact ⟨.inr hprogress, nofun⟩
  · cases h
  · cases h
  · cases h

theorem unassign_of_active (h : c.Active) : ∃ c', c.unassign = .ok c' := by
  unfold unassign
  rcases h with h | h
  · rw [h]
    exact ⟨_, rfl⟩
  · rw [h]
    exact ⟨_, rfl⟩

theorem start_ok (h : c.start = .ok c') : c.Active ∧ c'.Active ∧ c'.dueDate = c.dueDate := by
  unfold start at h
  split at h
  · next hdraft =>
    cases h
    exact ⟨.inl hdraft, .inr rfl, rfl⟩
  · cases h

theorem resolve_ok {disp : Option Disposition} {note : Bytes}
    (h : c.resolve disp note now = .ok c') : ¬ c'.Active := by
  unfold resolve at h
  split at h
  · cases disp with
    | none => cases h
    | some disp =>
      dsimp only at h
      split at h
      · cases h
      · split at h
        · cases h
        · cases h
          exact nofun
  · cases h

theorem reopen_ok (h : c.reopen now = .ok c') :
    c.status = .resolved ∧ c'.Active ∧ c'.dueDate = c.dueDate := by
  unfold reopen at h
  split at h
  · next hresolved =>
    split at h
    · cases h
    · cases h
      exact ⟨hresolved, .inr rfl, rfl⟩
  · cases h

theorem close_ok {ref : Bytes} (h : c.close ref now = .ok c') : ¬ c'.Active := by
  unfold close at h
  split at h
  · cases h
    exact nofun
  · cases h

end Transitions

end Case

end Windrose.Cases

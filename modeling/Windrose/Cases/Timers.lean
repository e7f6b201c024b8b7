/-
  Cases/Timers.lean --- the SLA timers and the operations that set and fire them.

  Source: services/case-service/internal/store/pg.go (applyTimerPlanTx), store/pg_cases.go
  (MutateCase, the timers of CreateCases, UnassignUserCases), store/pg_sla.go
  (FireWarnTimer, FireDueTimer), internal/api/handlers_transitions.go, handlers_bulk.go
  and handlers_cases.go (handlePatchCase, handleCreateCases).

  Each function here is one transaction; the case is locked by it, so that it reads what
  was committed last.
-/
import Windrose.Foundation.Upsert
import Windrose.Cases.Domain

set_option autoImplicit false

namespace Windrose.Cases

open Windrose.Foundation

/-! ## Timers -/

/-- The kind of a timer. -/
inductive Kind where
  | warn
  | due
  deriving DecidableEq

/-- The status of a timer. -/
inductive TimerStatus where
  | pending
  | fired
  | cancelled
  deriving DecidableEq

/-- A row of `sla_timers`. -/
structure Timer where
  fireAt : Instant
  caseVersion : Nat
  status : TimerStatus
  deriving DecidableEq

/-- What a mutation does to the timers. -/
structure TimerPlan where
  cancel : Bool
  set : List (Kind × Instant)

/-- The plan of a mutation that leaves the timers alone. -/
def TimerPlan.none : TimerPlan := ⟨false, []⟩

/-- The plan of a mutation that ends the timers. -/
def TimerPlan.cancelled : TimerPlan := ⟨true, []⟩

/-- The plan of an assigned case. -/
def TimerPlan.sla (dueDate : Instant) (warnBefore : Int) : TimerPlan :=
  ⟨false, [(.warn, dueDate - warnBefore), (.due, dueDate)]⟩

/-- The cases and their timers. -/
structure Store where
  cases : Table Uuid Case
  timers : Table (Uuid × Kind) Timer

/-- `SET status='cancelled' WHERE case_id=$1 AND status='pending'`, for some kinds. -/
def cancelPending (id : Uuid) (kinds : List Kind) (timers : Table (Uuid × Kind) Timer) :
    Table (Uuid × Kind) Timer :=
  timers.update fun key t =>
    if key.1 = id ∧ key.2 ∈ kinds ∧ t.status = .pending then { t with status := .cancelled } else t

/-- `applyTimerPlanTx`. -/
def applyTimerPlan (timers : Table (Uuid × Kind) Timer) (id : Uuid) (version : Nat)
    (plan : TimerPlan) : Table (Uuid × Kind) Timer :=
  let timers := if plan.cancel then cancelPending id [.warn, .due] timers else timers
  plan.set.foldl (fun timers (kind, fireAt) =>
    timers.upsert (id, kind) ⟨fireAt, version, .pending⟩ fun _ =>
      ⟨fireAt, version, .pending⟩) timers

/-- The timers of a case. -/
def Store.timersOf (s : Store) (id : Uuid) (kind : Kind) : Option Timer := s.timers.find (id, kind)

/-! ## The mutations -/

/-- `MutateCase`. -/
def Store.mutateCase (s : Store) (id : Uuid) (expectVersion : Option Nat)
    (apply : Case → Except CaseError (Case × TimerPlan)) : Except CaseError Store :=
  match s.cases.find id with
  | none => .error .notFound
  | some c =>
    if expectVersion.any (· ≠ c.caseVersion) then .error .staleVersion
    else
      match apply c with
      | .error e => .error e
      | .ok (c, plan) =>
        let c := { c with caseVersion := c.caseVersion + 1 }
        .ok {
          cases := s.cases.upsert id c fun _ => c
          timers := applyTimerPlan s.timers id c.caseVersion plan }

/-- `handleAssign`, and one item of a bulk assignment. -/
def assignCase (assignee : Uuid) (now : Instant) (warnBefore : Int) (c : Case) :
    Except CaseError (Case × TimerPlan) :=
  (c.assign assignee now).map fun c => (c, .sla c.dueDate warnBefore)

/-- `handleUnassign`, one item of a bulk one, and one case of `UnassignUserCases`. -/
def unassignCase (c : Case) : Except CaseError (Case × TimerPlan) :=
  c.unassign.map fun c => (c, .cancelled)

/-- `handleStart`. -/
def startCase (c : Case) : Except CaseError (Case × TimerPlan) := c.start.map fun c => (c, .none)

/-- `resolveMutation`. -/
def resolveCase (disp : Option Disposition) (note : Bytes) (now : Instant) (c : Case) :
    Except CaseError (Case × TimerPlan) :=
  (c.resolve disp note now).map fun c => (c, .cancelled)

/-- `handleReopen`. -/
def reopenCase (now : Instant) (c : Case) : Except CaseError (Case × TimerPlan) :=
  (c.reopen now).map fun c => (c, .none)

/-- `handleClose`. -/
def closeCase (ref : Bytes) (now : Instant) (c : Case) : Except CaseError (Case × TimerPlan) :=
  (c.close ref now).map fun c => (c, .cancelled)

/-- `handlePatchCase`, for a request with a due date. -/
def patchDueDate (dueDate : Instant) (allowOverdue : Bool) (now : Instant) (warnBefore : Int)
    (c : Case) : Except CaseError (Case × TimerPlan) :=
  if dueDate < now ∧ allowOverdue = false then
    .error (.validation (bytes "due_date must be in the future (BR-12)"))
  else
    .ok ({ c with dueDate }, if c.assignedToID = none then .none else .sla dueDate warnBefore)

/-! ## Creation -/

/-- A case as `handleCreateCases` and the triggers build it: a draft of its assignee, or
an unassigned one. -/
structure NewCase extends Case where
  begun : status = .draft ∨ status = .unassigned
  deriving DecidableEq

/-- The insert of one new case by `CreateCases`, under a new id. -/
def Store.insertCase (s : Store) (id : Uuid) (c : NewCase) (warnBefore : Int) : Store :=
  if (s.cases.find id).isNone then
    { cases := s.cases.upsert id c.toCase fun c => c
      timers :=
        if c.assignedToID = none then s.timers
        else applyTimerPlan s.timers id c.caseVersion (.sla c.dueDate warnBefore) }
  else s

/-! ## The sweep -/

/-- `terminalForSLA`. -/
def terminalForSLA (status : Status) : Bool :=
  status = .resolved ∨ status = .closed ∨ status = .unassigned

variable {c : Case}

theorem terminalForSLA_iff : terminalForSLA c.status = true ↔ ¬ c.Active := by
  unfold Case.Active
  cases c.status <;> decide

/-- `FireWarnTimer`. -/
def Store.fireWarnTimer (s : Store) (id : Uuid) : Store :=
  match s.timersOf id .warn, s.cases.find id with
  | some t, some c =>
    if t.status ≠ .pending then s
    else
      let status : TimerStatus := if terminalForSLA c.status then .cancelled else .fired
      { s with timers := s.timers.upsert (id, .warn) t fun t => { t with status } }
  | _, _ => s

/-- The case after its breach. -/
def Case.breached (c : Case) (policy : SLAPolicy) : Except CaseError Case :=
  if policy.onBreach = .autoUnassign ∧ c.reassignCount < policy.maxReassignCount then
    c.unassign.map fun c => { c with reassignCount := c.reassignCount + 1 }
  else if policy.onBreach = .escalate ∨
      (policy.onBreach = .autoUnassign ∧ policy.maxReassignCount ≤ c.reassignCount) then
    .ok { c with severity := c.severity.bump }
  else .ok c

/-- `FireDueTimer`, with the due date whose breach is applied. -/
def Store.fireDueTimer (s : Store) (id : Uuid) (policy : SLAPolicy) : Store × Option Instant :=
  match s.timersOf id .due, s.cases.find id with
  | some t, some c =>
    if t.status ≠ .pending then (s, none)
    else
      let cancelled := cancelPending id [.warn, .due] s.timers
      if terminalForSLA c.status then ({ s with timers := cancelled }, none)
      else
        match c.breached policy with
        | .error _ => (s, none)
        | .ok c' =>
          let c' := { c' with caseVersion := c'.caseVersion + 1 }
          (⟨s.cases.upsert id c' fun _ => c', cancelled⟩, some c.dueDate)
  | _, _ => (s, none)

/-! ## The timers that a case should have -/

/-- No timer is pending. -/
def Quiet (timers : Kind → Option Timer) : Prop := ∀ kind, ∀ t ∈ timers kind, t.status ≠ .pending

/-- The due timer is pending, for this due date. -/
def Armed (timers : Kind → Option Timer) (dueDate : Instant) : Prop :=
  ∃ t, timers .due = some t ∧ t.status = .pending ∧ t.fireAt = dueDate

/-- A breach is still to come, when the assignment has breached these due dates. -/
def Owes (c : Case) (breached : List Instant) : Prop := c.Active ∧ c.dueDate ∉ breached

instance (c : Case) (breached : List Instant) : Decidable (Owes c breached) :=
  inferInstanceAs (Decidable (_ ∧ _))

/-- The timers that a case is owed. -/
def Timed (timers : Kind → Option Timer) (breached : List Instant) : Option Case → Prop
  | none => Quiet timers
  | some c => (Owes c breached → Armed timers c.dueDate) ∧ (¬ Owes c breached → Quiet timers)

section Timed

variable {timers : Kind → Option Timer} {breached : List Instant} {c : Case}

theorem timed_of_quiet (h : Quiet timers) : Timed timers breached (some c) ↔ ¬ Owes c breached := by
  refine ⟨fun htimed howes => ?_, fun hnot => ⟨fun howes => absurd howes hnot, fun _ => h⟩⟩
  obtain ⟨t, hfind, hpending, -⟩ := htimed.1 howes
  exact h .due t hfind hpending

theorem timed_of_armed (h : Armed timers c.dueDate) :
    Timed timers breached (some c) ↔ Owes c breached := by
  refine ⟨fun htimed => ?_, fun howes => ⟨fun _ => h, fun hnot => absurd howes hnot⟩⟩
  by_contra hnot
  obtain ⟨t, hfind, hpending, -⟩ := h
  exact htimed.2 hnot .due t hfind hpending

theorem owes_of_pending (h : Timed timers breached (some c)) {kind : Kind} {t : Timer}
    (hfind : timers kind = some t) (hpending : t.status = .pending) : Owes c breached := by
  by_contra hnot
  exact h.2 hnot kind t hfind hpending

theorem quiet_of_not_active (h : Timed timers breached (some c)) (hc : ¬ c.Active) :
    Quiet timers := h.2 fun howes => hc howes.1

end Timed

/-! ## What the functions do to the timers -/

section Functions

variable {s s' : Store} {id other : Uuid} {version : Nat}

theorem find_cancelPending (timers : Table (Uuid × Kind) Timer) (key : Uuid × Kind)
    (kinds : List Kind) : (cancelPending id kinds timers).find key = (timers.find key).map fun t =>
      if key.1 = id ∧ key.2 ∈ kinds ∧ t.status = .pending then { t with status := .cancelled }
      else t := Table.find_update _ _ _

theorem quiet_cancelPending (timers : Table (Uuid × Kind) Timer) :
    Quiet fun kind => (cancelPending id [.warn, .due] timers).find (id, kind) := by
  intro kind t ht
  dsimp only at ht
  rw [find_cancelPending] at ht
  obtain ⟨old, -, rfl⟩ := Option.map_eq_some_iff.mp ht
  have hkind : kind ∈ [Kind.warn, Kind.due] := by cases kind <;> decide
  split
  · exact nofun
  · next hnot => exact fun h => hnot ⟨rfl, hkind, h⟩

theorem find_cancelPending_of_ne (timers : Table (Uuid × Kind) Timer) (h : other ≠ id)
    (kinds : List Kind) (kind : Kind) :
    (cancelPending id kinds timers).find (other, kind) = timers.find (other, kind) := by
  rw [find_cancelPending]
  refine (Option.map_congr fun t _ => ?_).trans Option.map_id_apply
  exact if_neg fun hall => h hall.1

theorem find_applyTimerPlan_of_ne (timers : Table (Uuid × Kind) Timer) (h : other ≠ id)
    (plan : TimerPlan) (kind : Kind) :
    (applyTimerPlan timers id version plan).find (other, kind) = timers.find (other, kind) := by
  have hset : ∀ (set : List (Kind × Instant)) (timers : Table (Uuid × Kind) Timer),
      (set.foldl (fun timers (kind, fireAt) => timers.upsert (id, kind) ⟨fireAt, version, .pending⟩
        fun _ => ⟨fireAt, version, .pending⟩) timers).find (other, kind) =
        timers.find (other, kind) := by
    intro set
    induction set with
    | nil => exact fun _ => rfl
    | cons entry set ih =>
      intro timers
      rw [List.foldl_cons, ih]
      exact Table.find_upsert_of_ne fun heq => h (congrArg Prod.fst heq)
  unfold applyTimerPlan
  rw [hset]
  split
  · exact find_cancelPending_of_ne timers h _ kind
  · rfl

theorem quiet_applyTimerPlan (timers : Table (Uuid × Kind) Timer) :
    Quiet fun kind => (applyTimerPlan timers id version .cancelled).find (id, kind) :=
  quiet_cancelPending timers

theorem armed_applyTimerPlan (timers : Table (Uuid × Kind) Timer) (dueDate : Instant)
    (warnBefore : Int) :
    Armed (fun kind => (applyTimerPlan timers id version (.sla dueDate warnBefore)).find (id, kind))
      dueDate := by
  exact ⟨⟨dueDate, version, .pending⟩, Table.find_upsert_const, rfl, rfl⟩

theorem mutateCase_of {expect : Option Nat} {apply : Case → Except CaseError (Case × TimerPlan)}
    {c' : Case} {plan : TimerPlan} (hfind : s.cases.find id = some c)
    (hexpect : expect.any (· ≠ c.caseVersion) = false) (happly : apply c = .ok (c', plan)) :
    ∃ s', s.mutateCase id expect apply = .ok s' := by
  unfold Store.mutateCase
  rw [hfind]
  dsimp only
  rw [if_neg (by rw [hexpect]; exact Bool.false_ne_true), happly]
  exact ⟨_, rfl⟩

theorem mutateCase_ok {expect : Option Nat} {apply : Case → Except CaseError (Case × TimerPlan)}
    (h : s.mutateCase id expect apply = .ok s') :
    ∃ c c' plan, s.cases.find id = some c ∧ expect.any (· ≠ c.caseVersion) = false ∧
      apply c = .ok (c', plan) ∧
      s'.cases.find id = some { c' with caseVersion := c'.caseVersion + 1 } ∧
      (∀ other ≠ id, s'.cases.find other = s.cases.find other) ∧
      s'.timers = applyTimerPlan s.timers id (c'.caseVersion + 1) plan := by
  unfold Store.mutateCase at h
  split at h
  · cases h
  · next c hfind =>
    split at h
    · cases h
    · next hversion =>
      split at h
      · cases h
      · next c' plan happly =>
        cases h
        exact ⟨c, c', plan, hfind, by simpa using hversion, happly, Table.find_upsert_const,
          fun other hne => Table.find_upsert_of_ne hne, rfl⟩

theorem breached_ok (h : c.Active) (policy : SLAPolicy) :
    ∃ c', c.breached policy = .ok c' ∧ (¬ c'.Active ∨ c'.dueDate = c.dueDate) := by
  unfold Case.breached
  split
  · obtain ⟨c', hunassign⟩ := Case.unassign_of_active h
    rw [hunassign]
    exact ⟨_, rfl, .inl (Case.unassign_ok hunassign).2⟩
  · split
    · exact ⟨_, rfl, .inr rfl⟩
    · exact ⟨_, rfl, .inr rfl⟩

theorem fireDueTimer_idle (policy : SLAPolicy)
    (h : ∀ c ∈ s.cases.find id, ∀ t ∈ s.timersOf id .due, t.status ≠ .pending) :
    s.fireDueTimer id policy = (s, none) := by
  unfold Store.fireDueTimer
  split
  · next t c ht hc => exact if_pos (h c hc t ht)
  · rfl

theorem fireDueTimer_pending {t : Timer} (policy : SLAPolicy)
    (hc : s.cases.find id = some c) (ht : s.timersOf id .due = some t)
    (hpending : t.status = .pending)
    (hactive : c.Active) :
    ∃ c' : Case, (¬ c'.Active ∨ c'.dueDate = c.dueDate) ∧ s.fireDueTimer id policy =
      (⟨s.cases.upsert id c' fun _ => c', cancelPending id [.warn, .due] s.timers⟩,
        some c.dueDate) := by
  obtain ⟨c', hbreached, hleft⟩ := breached_ok hactive policy
  refine ⟨{ c' with caseVersion := c'.caseVersion + 1 }, hleft, ?_⟩
  unfold Store.fireDueTimer
  rw [ht, hc]
  dsimp only
  rw [if_neg (not_not.mpr hpending), if_neg fun hterminal =>
    terminalForSLA_iff.mp hterminal hactive,
    hbreached]

theorem timersOf_fireWarnTimer_of_ne (h : other ≠ id) :
    (s.fireWarnTimer id).timersOf other = s.timersOf other := by
  funext kind
  unfold Store.fireWarnTimer
  split
  · dsimp only
    split
    · rfl
    · exact Table.find_upsert_of_ne fun heq => h (congrArg Prod.fst heq)
  · rfl

theorem cases_fireWarnTimer : (s.fireWarnTimer id).cases = s.cases := by
  unfold Store.fireWarnTimer
  split
  · dsimp only
    split
    · rfl
    · rfl
  · rfl

theorem timersOf_fireWarnTimer : (s.fireWarnTimer id).timersOf id .due = s.timersOf id .due ∧
    (Quiet (s.timersOf id) → Quiet ((s.fireWarnTimer id).timersOf id)) := by
  unfold Store.fireWarnTimer
  split
  · next t c ht hc =>
    dsimp only
    split
    · exact ⟨rfl, fun hquiet => hquiet⟩
    · next hpending =>
      refine ⟨Table.find_upsert_of_ne fun heq => ?_, fun hquiet => ?_⟩
      · cases congrArg Prod.snd heq
      · exact absurd (hquiet .warn t ht) hpending
  · exact ⟨rfl, fun hquiet => hquiet⟩

end Functions

end Windrose.Cases

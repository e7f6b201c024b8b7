/-
  Cases/TimerRuns.lean --- when the SLA timers are exact.

  Source: services/case-service/internal/store/pg_sla.go (DueTimers, FireWarnTimer,
  FireDueTimer: "Never fires on resolved/closed"), internal/sla/worker.go (Sweep),
  store/pg_cases.go (UnassignUserCases) and internal/api (the handlers).

  A run mixes the operations on cases with the two halves of a sweep and of
  `UnassignUserCases`: a list is read, and its entries are handled in later
  transactions, by any number of workers.  `timers_exact_iff` says that the timers are
  exact along a run if and only if each step meets its condition.
-/
import Mathlib.Data.List.Sort
import Windrose.Foundation.Runs
import Windrose.Cases.Timers

set_option autoImplicit false

namespace Windrose.Cases

open Windrose.Foundation

/-! ## Runs -/

/-- What was done to somebody's case. -/
inductive Applied where
  /-- the breach of a due date, at a time -/
  | breach (dueDate now : Instant)
  /-- an unassignment on behalf of a user, and whose case it was -/
  | unassigned (user : Uuid) (assignee : Option Uuid)
  deriving DecidableEq

/-- A breach comes at or after the due date; the cases of a user are the user's. -/
def Applied.Right : Applied → Prop
  | .breach dueDate now => dueDate ≤ now
  | .unassigned user assignee => assignee = some user

/-- The tables, the workers' lists and the ghosts. -/
structure World where
  now : Instant
  store : Store
  /-- timers that workers have listed and not yet fired -/
  listed : List (Uuid × Kind)
  /-- cases that `UnassignUserCases` has listed for a user and not yet unassigned -/
  leaving : List (Uuid × Uuid)
  /-- the due dates that the current assignment of a case has breached -/
  breached : Uuid → List Instant
  log : List Applied

/-- A transaction, or time that passes. -/
inductive Op where
  /-- time passes -/
  | tick (elapsed : Nat)
  | createCases (rows : List (Uuid × NewCase)) (warnBefore : Int)
  /-- also one item of a bulk assignment -/
  | assign (id : Uuid) (expect : Option Nat) (assignee : Uuid) (warnBefore : Int)
  | unassign (id : Uuid) (expect : Option Nat)
  | patchDueDate (id : Uuid) (expect : Option Nat) (dueDate : Instant) (allowOverdue : Bool)
      (warnBefore : Int)
  | start (id : Uuid) (expect : Option Nat)
  | resolve (id : Uuid) (expect : Option Nat) (disp : Option Disposition) (note : Bytes)
  | reopen (id : Uuid) (expect : Option Nat)
  | close (id : Uuid) (expect : Option Nat) (ref : Bytes)
  /-- the first half of `UnassignUserCases` -/
  | listUserCases (user : Uuid)
  | unassignUserCase (index : Nat)
  /-- the first half of a sweep -/
  | dueTimers (limit : Nat)
  | fire (index : Nat) (policy : SLAPolicy)

namespace World

/-- Nothing yet. -/
def empty (now : Instant) : World := ⟨now, ⟨[], []⟩, [], [], fun _ => [], []⟩

/-- `MutateCase`; a mutation that fails changes nothing. -/
def mutate (w : World) (id : Uuid) (expect : Option Nat)
    (apply : Case → Except CaseError (Case × TimerPlan)) : World :=
  match w.store.mutateCase id expect apply with
  | .ok store => { w with store }
  | .error _ => w

/-- One new case of `CreateCases`; it has breached nothing. -/
def insertCase (w : World) (id : Uuid) (c : NewCase) (warnBefore : Int) : World :=
  if (w.store.cases.find id).isNone then
    { w with
      store := w.store.insertCase id c warnBefore
      breached := Function.update w.breached id [] }
  else w

/-- A new assignment has breached nothing. -/
def assign (w : World) (id : Uuid) (expect : Option Nat) (assignee : Uuid) (warnBefore : Int) :
    World :=
  match w.store.mutateCase id expect (assignCase assignee w.now warnBefore) with
  | .ok store => { w with store, breached := Function.update w.breached id [] }
  | .error _ => w

/-- One case of `UnassignUserCases`. -/
def unassignFor (w : World) (user id : Uuid) : World :=
  match w.store.mutateCase id none unassignCase with
  | .ok store =>
    { w with
      store
      log := w.log ++ [.unassigned user ((w.store.cases.find id).bind (·.assignedToID))] }
  | .error _ => w

/-- One timer of a sweep. -/
def fire (w : World) (id : Uuid) (policy : SLAPolicy) : Kind → World
  | .warn => { w with store := w.store.fireWarnTimer id }
  | .due =>
    match w.store.fireDueTimer id policy with
    | (store, none) => { w with store }
    | (store, some dueDate) =>
      { w with
        store
        breached := Function.update w.breached id (dueDate :: w.breached id)
        log := w.log ++ [.breach dueDate w.now] }

/-- `DueTimers`. -/
def dueTimers (w : World) (limit : Nat) : List (Uuid × Kind) :=
  (((w.store.timers.filter fun row => row.2.status = .pending ∧ row.2.fireAt ≤ w.now).insertionSort
    (·.2.fireAt ≤ ·.2.fireAt)).take limit).map (·.1)

/-- The cases of a user in draft or in progress. -/
def userCases (w : World) (user : Uuid) : List Uuid :=
  (w.store.cases.filter fun row => row.2.assignedToID = some user ∧ row.2.Active).map (·.1)

/-- One step. -/
def step (w : World) : Op → World
  | .tick elapsed => { w with now := w.now + elapsed }
  | .createCases rows warnBefore => rows.foldl (fun w row => w.insertCase row.1 row.2 warnBefore) w
  | .assign id expect assignee warnBefore => w.assign id expect assignee warnBefore
  | .unassign id expect => w.mutate id expect unassignCase
  | .patchDueDate id expect dueDate allowOverdue warnBefore =>
    w.mutate id expect (Cases.patchDueDate dueDate allowOverdue w.now warnBefore)
  | .start id expect => w.mutate id expect startCase
  | .resolve id expect disp note => w.mutate id expect (resolveCase disp note w.now)
  | .reopen id expect => w.mutate id expect (reopenCase w.now)
  | .close id expect ref => w.mutate id expect (closeCase ref w.now)
  | .listUserCases user =>
    { w with leaving := w.leaving ++ (w.userCases user).map fun id => (user, id) }
  | .unassignUserCase index =>
    match w.leaving[index]? with
    | some (user, id) => { w with leaving := w.leaving.eraseIdx index }.unassignFor user id
    | none => w
  | .dueTimers limit => { w with listed := w.listed ++ w.dueTimers limit }
  | .fire index policy =>
    match w.listed[index]? with
    | some (id, kind) => { w with listed := w.listed.eraseIdx index }.fire id policy kind
    | none => w

/-- What is promised of every state. -/
structure Exact (w : World) : Prop where
  timed : ∀ id, Timed (w.store.timersOf id) (w.breached id) (w.store.cases.find id)
  once : ∀ id, (w.breached id).Nodup
  right : ∀ a ∈ w.log, a.Right

theorem exact_empty (now : Instant) : Exact (empty now) where
  timed := nofun
  once := fun _ => List.nodup_nil
  right := nofun

/-! ## The condition -/

/-- A version check that passes. -/
def Expected (expect : Option Nat) (c : Case) : Prop := expect.any (· ≠ c.caseVersion) = false

/-- A due date is only moved on a case that will owe its breach; a case is only reopened when
its due date has been breached; a case is unassigned for the user it is assigned to; and a
due timer fires at or after the current due date. -/
def Fits (w : World) : Op → Prop
  | .patchDueDate id expect dueDate allowOverdue _ =>
    ∀ c ∈ w.store.cases.find id, Expected expect c → ¬ (dueDate < w.now ∧ allowOverdue = false) →
      c.assignedToID ≠ none → c.Active ∧ dueDate ∉ w.breached id
  | .reopen id expect =>
    ∀ c ∈ w.store.cases.find id, Expected expect c → (c.reopen w.now).isOk = true →
      c.dueDate ∈ w.breached id
  | .unassignUserCase index =>
    ∀ entry ∈ w.leaving[index]?, ∀ c ∈ w.store.cases.find entry.2, c.Active →
      c.assignedToID = some entry.1
  | .fire index _ =>
    ∀ entry ∈ w.listed[index]?, entry.2 = .due → ∀ c ∈ w.store.cases.find entry.1,
      ∀ t ∈ w.store.timersOf entry.1 .due, t.status = .pending → c.dueDate ≤ w.now
  | .tick _ | .createCases _ _ | .assign _ _ _ _ | .unassign _ _ | .start _ _ | .resolve _ _ _ _
  | .close _ _ _ | .listUserCases _ | .dueTimers _ => True

/-! ## One case at a time -/

section Local

variable {w : World} {id : Uuid}

theorem exact_update {next : World} (h : Exact w) (id : Uuid) (entries : List Applied)
    (hcases : ∀ other ≠ id, next.store.cases.find other = w.store.cases.find other)
    (htimers : ∀ other ≠ id, next.store.timersOf other = w.store.timersOf other)
    (hbreached : ∀ other ≠ id, next.breached other = w.breached other)
    (hlog : next.log = w.log ++ entries) :
    Exact next ↔ Timed (next.store.timersOf id) (next.breached id) (next.store.cases.find id) ∧
      (next.breached id).Nodup ∧ ∀ a ∈ entries, a.Right := by
  constructor
  · intro hnext
    exact ⟨hnext.timed id, hnext.once id, fun a ha =>
      hnext.right a (hlog ▸ List.mem_append_right _ ha)⟩
  · rintro ⟨htimed, hnodup, hentries⟩
    refine ⟨fun other => ?_, fun other => ?_, fun a ha => ?_⟩
    · by_cases hne : other = id
      · rwa [hne]
      · rw [hcases other hne, htimers other hne, hbreached other hne]
        exact h.timed other
    · by_cases hne : other = id
      · rwa [hne]
      · rw [hbreached other hne]
        exact h.once other
    · rw [hlog] at ha
      rcases List.mem_append.mp ha with ha | ha
      · exact h.right a ha
      · exact hentries a ha

/-- The timers after a plan. -/
def planned (s : Store) (id : Uuid) (version : Nat) (plan : TimerPlan) (kind : Kind) :
    Option Timer := (applyTimerPlan s.timers id version plan).find (id, kind)

theorem planned_none (s : Store) (version : Nat) : planned s id version .none = s.timersOf id := rfl

theorem quiet_planned (s : Store) (version : Nat) : Quiet (planned s id version .cancelled) :=
  quiet_applyTimerPlan s.timers

theorem armed_planned (s : Store) (version : Nat) (dueDate : Instant) (warnBefore : Int) :
    Armed (planned s id version (.sla dueDate warnBefore)) dueDate :=
  armed_applyTimerPlan s.timers dueDate warnBefore

variable {expect : Option Nat}

/-- A mutation keeps the world exact exactly when its plan fits the case that it makes. -/
theorem exact_mutate (h : Exact w) {apply : Case → Except CaseError (Case × TimerPlan)} :
    Exact (w.mutate id expect apply) ↔ ∀ c ∈ w.store.cases.find id, Expected expect c →
      ∀ c' plan, apply c = .ok (c', plan) →
        Timed (planned w.store id (c'.caseVersion + 1) plan) (w.breached id) (some c') := by
  unfold mutate
  cases hmutate : w.store.mutateCase id expect apply with
  | error e =>
    refine ⟨fun _ c hfind hexpect c' plan happly => ?_, fun _ => h⟩
    obtain ⟨s', hok⟩ := mutateCase_of (Option.mem_def.mp hfind) hexpect happly
    rw [hmutate] at hok
    cases hok
  | ok s' =>
    obtain ⟨c, c', plan, hfind, hexpect, happly, hnew, hcases, htimers⟩ := mutateCase_ok hmutate
    dsimp only
    refine Iff.trans (exact_update h id [] hcases (fun other hne => ?_) (fun _ _ => rfl)
      (List.append_nil _).symm) ?_
    · funext kind
      rw [Store.timersOf, htimers]
      exact find_applyTimerPlan_of_ne _ hne _ _
    · have hplan : Store.timersOf s' id = planned w.store id (c'.caseVersion + 1) plan := by
        funext kind
        rw [Store.timersOf, htimers]
        rfl
      change Timed (Store.timersOf s' id) _ (s'.cases.find id) ∧ _ ↔ _
      rw [hnew, hplan]
      constructor
      · rintro ⟨htimed, -, -⟩ d hd _ d' plan' happly'
        obtain rfl : c = d := Option.some.inj (hfind.symm.trans hd)
        rw [happly] at happly'
        cases happly'
        exact htimed
      · intro hall
        exact ⟨hall c hfind hexpect c' plan happly, h.once id, nofun⟩

theorem map_ok {α β ε : Type} {f : α → β} {x : Except ε α} {b : β} (h : x.map f = .ok b) :
    ∃ a, x = .ok a ∧ f a = b := by
  cases x with
  | error e => cases h
  | ok a =>
    cases h
    exact ⟨a, rfl, rfl⟩

theorem exact_ending (h : Exact w) {transition : Case → Except CaseError Case}
    (hending : ∀ c c', transition c = .ok c' → ¬ c'.Active) :
    Exact (w.mutate id expect fun c => (transition c).map fun c => (c, .cancelled)) := by
  rw [exact_mutate h]
  intro c _ _ c' plan happly
  obtain ⟨c'', htransition, heq⟩ := map_ok happly
  cases heq
  rw [timed_of_quiet (quiet_planned _ _)]
  exact fun howes => hending c _ htransition howes.1

theorem exact_start (h : Exact w) : Exact (w.mutate id expect startCase) := by
  rw [exact_mutate h]
  intro c hfind _ c' plan happly
  obtain ⟨c'', hstart, heq⟩ := map_ok happly
  cases heq
  obtain ⟨hold, hnew, hdue⟩ := Case.start_ok hstart
  have htimed := h.timed id
  rw [Option.mem_def.mp hfind] at htimed
  have howes : Owes c' (w.breached id) ↔ Owes c (w.breached id) := by
    rw [Owes, Owes, hdue]
    exact and_congr_left' (iff_of_true hnew hold)
  exact ⟨fun ho => hdue ▸ htimed.1 (howes.mp ho), fun hn => htimed.2 fun ho => hn (howes.mpr ho)⟩

theorem exact_reopen_iff (h : Exact w) :
    Exact (w.mutate id expect (reopenCase w.now)) ↔ w.Fits (.reopen id expect) := by
  rw [exact_mutate h, Fits]
  refine forall_congr' fun c => forall_congr' fun hfind => forall_congr' fun _ => ?_
  have htimed := h.timed id
  rw [Option.mem_def.mp hfind] at htimed
  constructor
  · intro hall hok
    cases hreopen : c.reopen w.now with
    | error e =>
      rw [hreopen] at hok
      cases hok
    | ok c' =>
      obtain ⟨hresolved, hactive, hdue⟩ := Case.reopen_ok hreopen
      have hquiet : Quiet (w.store.timersOf id) :=
        quiet_of_not_active htimed (by rw [Case.Active, hresolved]; decide)
      have hnot := (timed_of_quiet hquiet).mp (hall c' .none (by rw [reopenCase, hreopen]; rfl))
      by_contra hmem
      exact hnot ⟨hactive, hdue ▸ hmem⟩
  · intro hbreached c' plan happly
    obtain ⟨c'', hreopen, heq⟩ := map_ok happly
    cases heq
    obtain ⟨hresolved, -, hdue⟩ := Case.reopen_ok hreopen
    have hquiet : Quiet (w.store.timersOf id) :=
      quiet_of_not_active htimed (by rw [Case.Active, hresolved]; decide)
    rw [planned_none, timed_of_quiet hquiet]
    exact fun howes => howes.2 (hdue ▸ hbreached (by rw [hreopen]; rfl))

theorem exact_patch_iff (h : Exact w) {dueDate : Instant} {allowOverdue : Bool} {warnBefore : Int} :
    Exact (w.mutate id expect (Cases.patchDueDate dueDate allowOverdue w.now warnBefore)) ↔
      w.Fits (.patchDueDate id expect dueDate allowOverdue warnBefore) := by
  rw [exact_mutate h, Fits]
  refine forall_congr' fun c => forall_congr' fun hfind => forall_congr' fun _ => ?_
  have htimed := h.timed id
  rw [Option.mem_def.mp hfind] at htimed
  unfold Cases.patchDueDate
  by_cases hpast : dueDate < w.now ∧ allowOverdue = false
  · rw [if_pos hpast]
    exact ⟨fun _ hnot => absurd hpast hnot, fun _ _ _ heq => (nomatch heq)⟩
  · rw [if_neg hpast]
    by_cases hassigned : c.assignedToID = none
    · rw [if_pos hassigned]
      refine ⟨fun _ _ hne => absurd hassigned hne, fun _ c' plan heq => ?_⟩
      cases heq
      -- an unassigned case has no timers, whatever its due date
      have hidle : ¬ c.Active := by
        rw [Case.Active, c.assignee_status.mp hassigned]
        decide
      rw [planned_none, timed_of_quiet (quiet_of_not_active htimed hidle)]
      exact fun howes => hidle howes.1
    · rw [if_neg hassigned]
      constructor
      · intro hall _ _
        exact (timed_of_armed (armed_planned _ _ _ _)).mp (hall _ _ rfl)
      · intro hfits c' plan heq
        cases heq
        exact (timed_of_armed (armed_planned _ _ _ _)).mpr (hfits hpast hassigned)

theorem exact_assign (h : Exact w) {assignee : Uuid} {warnBefore : Int} :
    Exact (w.assign id expect assignee warnBefore) := by
  unfold assign
  split
  · next s' hmutate =>
    obtain ⟨c, c', plan, hfind, hexpect, happly, hnew, hcases, htimers⟩ := mutateCase_ok hmutate
    obtain ⟨c'', hassign, heq⟩ := map_ok happly
    cases heq
    refine Iff.mpr (exact_update h id [] hcases (fun other hne => ?_)
      (fun other hne => Function.update_of_ne hne _ _) (List.append_nil _).symm)
      ⟨?_, ?_, nofun⟩
    · funext kind
      rw [Store.timersOf, htimers]
      exact find_applyTimerPlan_of_ne _ hne _ _
    · have hplan : Store.timersOf s' id =
          planned w.store id (c'.caseVersion + 1) (.sla c'.dueDate warnBefore) := by
        funext kind
        rw [Store.timersOf, htimers]
        rfl
      dsimp only
      rw [hnew, hplan, Function.update_self]
      refine (timed_of_armed (armed_planned _ _ _ _)).mpr ⟨(Case.assign_ok hassign).1, ?_⟩
      exact List.not_mem_nil
    · dsimp only
      rw [Function.update_self]
      exact List.nodup_nil
  · exact h

theorem exact_unassignFor_iff (h : Exact w) {user : Uuid} : Exact (w.unassignFor user id) ↔
    ∀ c ∈ w.store.cases.find id, c.Active → c.assignedToID = some user := by
  unfold unassignFor
  cases hmutate : w.store.mutateCase id none unassignCase with
  | error e =>
    refine ⟨fun _ c hfind hactive => ?_, fun _ => h⟩
    obtain ⟨c', hunassign⟩ := Case.unassign_of_active hactive
    obtain ⟨s', hok⟩ : ∃ s', w.store.mutateCase id none unassignCase = .ok s' :=
      mutateCase_of (Option.mem_def.mp hfind) rfl (by rw [unassignCase, hunassign]; rfl)
    rw [hmutate] at hok
    cases hok
  | ok s' =>
    obtain ⟨c, c', plan, hfind, hexpect, happly, hnew, hcases, htimers⟩ := mutateCase_ok hmutate
    obtain ⟨c'', hunassign, heq⟩ := map_ok happly
    cases heq
    obtain ⟨hactive, hidle⟩ := Case.unassign_ok hunassign
    dsimp only
    refine Iff.trans (exact_update h id _ hcases (fun other hne => ?_) (fun _ _ => rfl) rfl) ?_
    · funext kind
      rw [Store.timersOf, htimers]
      exact find_applyTimerPlan_of_ne _ hne _ _
    · have hplan : Store.timersOf s' id = planned w.store id (c'.caseVersion + 1) .cancelled := by
        funext kind
        rw [Store.timersOf, htimers]
        rfl
      dsimp only
      rw [hnew, hplan, hfind, List.forall_mem_singleton]
      have htimed : Timed (planned w.store id (c'.caseVersion + 1) .cancelled) (w.breached id)
          (some { c' with caseVersion := c'.caseVersion + 1 }) :=
        (timed_of_quiet (quiet_planned _ _)).mpr fun howes => hidle howes.1
      constructor
      · rintro ⟨-, -, hright⟩ d hd -
        cases hd
        exact hright
      · exact fun hall => ⟨htimed, h.once id, hall c rfl hactive⟩

theorem exact_fireWarn (h : Exact w) (policy : SLAPolicy) : Exact (w.fire id policy .warn) := by
  refine Iff.mpr (exact_update h id [] (fun _ _ => ?_) (fun other hne => ?_) (fun _ _ => rfl)
    (List.append_nil _).symm) ⟨?_, h.once id, nofun⟩
  · exact congrArg (Table.find · _) cases_fireWarnTimer
  · exact timersOf_fireWarnTimer_of_ne hne
  · have htimed := h.timed id
    obtain ⟨hdue, hquiet⟩ := @timersOf_fireWarnTimer w.store id
    change Timed ((w.store.fireWarnTimer id).timersOf id) (w.breached id)
      ((w.store.fireWarnTimer id).cases.find id)
    rw [cases_fireWarnTimer]
    cases hfind : w.store.cases.find id with
    | none =>
      rw [hfind] at htimed
      exact hquiet htimed
    | some c =>
      rw [hfind] at htimed
      refine ⟨fun howes => ?_, fun hnot => hquiet (htimed.2 hnot)⟩
      obtain ⟨t, ht, hpending, hfire⟩ := htimed.1 howes
      exact ⟨t, hdue.trans ht, hpending, hfire⟩

theorem exact_fireDue_iff (h : Exact w) (policy : SLAPolicy) : Exact (w.fire id policy .due) ↔
    ∀ c ∈ w.store.cases.find id, ∀ t ∈ w.store.timersOf id .due, t.status = .pending →
      c.dueDate ≤ w.now := by
  by_cases hidle : ∀ c ∈ w.store.cases.find id, ∀ t ∈ w.store.timersOf id .due, t.status ≠ .pending
  · have hsame : w.fire id policy .due = w := by
      rw [fire, fireDueTimer_idle policy hidle]
    rw [hsame]
    exact iff_of_true h fun c hc t ht hpending => absurd hpending (hidle c hc t ht)
  · push Not at hidle
    obtain ⟨c, hc, t, ht, hpending⟩ := hidle
    have htimed := h.timed id
    rw [Option.mem_def.mp hc] at htimed
    have howes : Owes c (w.breached id) := owes_of_pending htimed ht hpending
    obtain ⟨c', hleft, hfire⟩ := fireDueTimer_pending policy hc ht hpending howes.1
    have hnext : w.fire id policy .due =
        { w with
          store := ⟨w.store.cases.upsert id c' fun _ => c', cancelPending id [.warn, .due]
            w.store.timers⟩
          breached := Function.update w.breached id (c.dueDate :: w.breached id)
          log := w.log ++ [.breach c.dueDate w.now] } := by
      rw [fire, hfire]
    rw [hnext]
    refine Iff.trans (exact_update h id [.breach c.dueDate w.now]
      (fun other hne => Table.find_upsert_of_ne hne)
      (fun other hne => funext fun kind => find_cancelPending_of_ne _ hne _ kind)
      (fun other hne => Function.update_of_ne hne _ _) rfl) ?_
    dsimp only
    rw [Function.update_self, Table.find_upsert_const, List.forall_mem_singleton]
    have hquiet := @quiet_cancelPending id w.store.timers
    have hafter : Timed
        (fun kind => (cancelPending id [.warn, .due] w.store.timers).find (id, kind))
        (c.dueDate :: w.breached id) (some c') := by
      refine (timed_of_quiet hquiet).mpr fun hnew => ?_
      rcases hleft with hended | hsame
      · exact hended hnew.1
      · exact hnew.2 (hsame ▸ List.mem_cons_self)
    constructor
    · rintro ⟨-, -, hright⟩ d hd _ _ _
      obtain rfl : c = d := Option.some.inj (hc.symm.trans hd)
      exact hright
    · exact fun hall => ⟨hafter, List.nodup_cons.mpr ⟨howes.2, h.once id⟩, hall c hc t ht hpending⟩

theorem exact_insertCase (h : Exact w) (c : NewCase) (warnBefore : Int) :
    Exact (w.insertCase id c warnBefore) := by
  unfold insertCase
  split
  · next hnew =>
    have hquiet := h.timed id
    rw [Option.isNone_iff_eq_none.mp hnew] at hquiet
    unfold Store.insertCase
    rw [if_pos hnew]
    refine Iff.mpr (exact_update h id [] (fun other hne => Table.find_upsert_of_ne hne)
      (fun other hne => funext fun kind => ?_) (fun other hne => Function.update_of_ne hne _ _)
      (List.append_nil _).symm) ⟨?_, ?_, List.forall_mem_nil _⟩
    · unfold Store.timersOf
      dsimp only
      split
      · rfl
      · exact find_applyTimerPlan_of_ne _ hne _ kind
    · unfold Store.timersOf
      dsimp only
      rw [Function.update_self, Table.find_upsert, Option.isNone_iff_eq_none.mp hnew,
        Option.elim_none]
      by_cases hassigned : c.assignedToID = none
      · have hidle : ¬ c.toCase.Active := by
          rw [Case.Active, c.assignee_status.mp hassigned]
          decide
        rw [if_pos hassigned]
        exact (timed_of_quiet hquiet).mpr fun howes => hidle howes.1
      · have hactive : c.toCase.Active :=
          .inl (c.begun.resolve_right fun hun => hassigned (c.assignee_status.mpr hun))
        simp only [if_neg hassigned]
        exact (timed_of_armed (armed_applyTimerPlan _ _ _)).mpr ⟨hactive, List.not_mem_nil⟩
    · dsimp only
      rw [Function.update_self]
      exact List.nodup_nil
  · exact h

theorem exact_createCases (h : Exact w) (rows : List (Uuid × NewCase)) (warnBefore : Int) :
    Exact (rows.foldl (fun w row => w.insertCase row.1 row.2 warnBefore) w) := by
  induction rows generalizing w with
  | nil => exact h
  | cons row rows ih => exact ih (exact_insertCase h row.2 warnBefore)

end Local

/-! ## Every run -/

theorem exact_congr {w next : World} (h : Exact w) (hstore : next.store = w.store)
    (hbreached : next.breached = w.breached) (hlog : next.log = w.log) : Exact next :=
  ⟨fun id => hstore.symm ▸ hbreached.symm ▸ h.timed id, fun id => hbreached.symm ▸ h.once id,
    hlog.symm ▸ h.right⟩

theorem exact_step_iff {w : World} (h : Exact w) (op : Op) : Exact (w.step op) ↔ w.Fits op := by
  cases op with
  | tick elapsed => exact iff_of_true (exact_congr h rfl rfl rfl) trivial
  | createCases rows warnBefore => exact iff_of_true (exact_createCases h rows warnBefore) trivial
  | assign id expect assignee warnBefore => exact iff_of_true (exact_assign h) trivial
  | unassign id expect =>
    exact iff_of_true (exact_ending h fun _ _ hok => (Case.unassign_ok hok).2) trivial
  | patchDueDate id expect dueDate allowOverdue warnBefore => exact exact_patch_iff h
  | start id expect => exact iff_of_true (exact_start h) trivial
  | resolve id expect disp note =>
    exact iff_of_true (exact_ending h fun _ _ hok => Case.resolve_ok hok) trivial
  | reopen id expect => exact exact_reopen_iff h
  | close id expect ref =>
    exact iff_of_true (exact_ending h fun _ _ hok => Case.close_ok hok) trivial
  | listUserCases user => exact iff_of_true (exact_congr h rfl rfl rfl) trivial
  | unassignUserCase index =>
    rw [step, Fits]
    cases w.leaving[index]? with
    | none => exact iff_of_true h fun _ hentry => (nomatch hentry)
    | some entry =>
      have hlisted : Exact { w with leaving := w.leaving.eraseIdx index } :=
        exact_congr h rfl rfl rfl
      refine (exact_unassignFor_iff hlisted).trans ⟨fun hall entry' hentry => ?_, fun hall => ?_⟩
      · cases hentry
        exact hall
      · exact hall entry rfl
  | dueTimers limit => exact iff_of_true (exact_congr h rfl rfl rfl) trivial
  | fire index policy =>
    rw [step, Fits]
    cases w.listed[index]? with
    | none => exact iff_of_true h fun _ hentry => (nomatch hentry)
    | some entry =>
      obtain ⟨id, kind⟩ := entry
      have hlisted : Exact { w with listed := w.listed.eraseIdx index } := exact_congr h rfl rfl rfl
      cases kind with
      | warn =>
        refine iff_of_true (exact_fireWarn hlisted policy) fun entry' hentry hdue => ?_
        cases hentry
        cases hdue
      | due =>
        refine (exact_fireDue_iff hlisted policy).trans
          ⟨fun hall entry' hentry _ => ?_, fun hall => ?_⟩
        · cases hentry
          exact hall
        · exact hall (id, .due) rfl rfl

/-- The timers are exact along a run if and only if each of its steps meets its condition. -/
theorem timers_exact_iff (now : Instant) (ops : List Op) :
    Always step Exact (empty now) ops ↔ Each step Fits (empty now) ops :=
  always_iff_each (P := Exact) (C := Fits) (fun _ op h => exact_step_iff h op) (exact_empty now) ops

/-! ## Two cases -/

/-- A draft that is due at time 100. -/
def draft : NewCase where
  workspaceID := Uuid.ofByte 1
  caseNumber := 1
  status := .draft
  severity := .medium
  assignedToID := some (Uuid.ofByte 2)
  assignedToAt := none
  datasetURN := bytes "urn:ds"
  rowPK := bytes "row-1"
  dedupKey := none
  sourceQueryURNs := []
  dueDate := 100
  dispositionID := none
  resolutionNote := []
  resolvedAt := none
  closedAt := none
  snapshotRef := []
  recurrenceOf := none
  reassignCount := 0
  caseVersion := 1
  createdAt := 0
  assignee_status := by simp
  begun := .inl rfl

/-- A case that is warned about and breached. -/
def overdue : List Op :=
  [.createCases [(Uuid.ofByte 9, draft)] 10, .tick 90, .dueTimers 5, .fire 0 ⟨10, .notifyOnly, 3⟩,
    .tick 10, .dueTimers 5, .fire 0 ⟨10, .notifyOnly, 3⟩]

theorem overdue_fits : Each step Fits (empty 0) overdue := by
  simp only [overdue, each_cons]
  refine ⟨trivial, trivial, trivial, ?_, trivial, trivial, ?_, each_nil _⟩
  · intro entry hentry hdue
    cases hentry
    cases hdue
  · intro entry hentry _ c hc t _ _
    cases hentry
    obtain rfl := Option.some.inj hc
    decide

theorem timers_exact_overdue : Always step Exact (empty 0) overdue ∧
    (run step (empty 0) overdue).log = [.breach 100 100] ∧
    ((run step (empty 0) overdue).store.timersOf (Uuid.ofByte 9) .warn).any (·.status = .fired) :=
  ⟨(timers_exact_iff 0 overdue).mpr overdue_fits, by decide, by decide⟩

/-- A case that is reopened before its due date. -/
def reopened : List Op :=
  [.createCases [(Uuid.ofByte 9, draft)] 10, .start (Uuid.ofByte 9) none,
    .resolve (Uuid.ofByte 9) none (some ⟨Uuid.ofByte 3, true, false⟩) [],
    .reopen (Uuid.ofByte 9) none]

/-- A case that is reopened before its due date has no timer. -/
theorem reopened_has_no_timer : ¬ ∀ now ops, Always step Exact (empty now) ops := by
  intro h
  have htimed := (h 0 reopened reopened List.prefix_rfl).timed (Uuid.ofByte 9)
  have hactive : ((run step (empty 0) reopened).store.cases.find (Uuid.ofByte 9)).any
      (Owes · ((run step (empty 0) reopened).breached (Uuid.ofByte 9))) = true := by
    decide
  obtain ⟨c, hfind, howes⟩ := Option.any_eq_true .. |>.mp hactive
  have howes := of_decide_eq_true howes
  rw [hfind] at htimed
  obtain ⟨t, ht, hpending, -⟩ := htimed.1 howes
  have hcancelled : ((run step (empty 0) reopened).store.timersOf (Uuid.ofByte 9) .due).all
      (·.status = .cancelled) = true := by decide
  rw [ht] at hcancelled
  exact absurd (hpending.symm.trans (of_decide_eq_true hcancelled)) (by decide)

end World

end Windrose.Cases

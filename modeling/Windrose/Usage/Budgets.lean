/-
  Usage/Budgets.lean --- budgets, their windows and their events.

  Source: services/usage-service/internal/budget/window.go (WindowBounds,
  CrossedThresholds), internal/store/budgets.go (UpdateBudget, DeleteBudget,
  evaluateBudget, resetStateTx, consumptionTx), internal/domain/types.go and
  migrations/000001_init.up.sql.

  A `Ledger` is what these transactions read and write of one budget: its row, the
  raw usage, its rows of `budget_states` by window and its events in the outbox.
  PostgreSQL keeps quantities, prices and limits as decimals; the service reads them as
  doubles and computes with these (`consumptionTx`, `crossedThresholds`).
-/
import Windrose.Foundation.Binary64
import Windrose.Foundation.Calendar
import Windrose.Usage.Rollups

set_option autoImplicit false

namespace Windrose.Usage

open Windrose.Foundation

/-! ## Windows -/

/-- The window of a budget. -/
inductive Window where
  | calendarDay
  | rolling7d
  | calendarMonth
  deriving DecidableEq

/-- The bounds of a window. -/
structure Bounds where
  windowStart : Instant
  rangeStart : Instant
  rangeEnd : Instant
  deriving DecidableEq

/-- `time.Date` of the day of an instant. -/
def midnight (t : Instant) : Instant := t - t % day

/-- `WindowBounds`. -/
def windowBounds (window : Window) (now : Instant) : Bounds :=
  match window with
  | .calendarDay => ⟨midnight now, midnight now, midnight now + day⟩
  | .rolling7d => ⟨addDate (midnight now) 0 0 (-6), now - 7 * day, now⟩
  | .calendarMonth =>
    let mStart := midnight now - ((reading now).day - 1) * day
    ⟨mStart, mStart, addDate mStart 0 1 0⟩

theorem reading_day (t : Instant) : (reading t).day = (dayOf (t / day)).2 := by
  have hdays : t / second / 86400 = t / day := Int.ediv_ediv_of_nonneg (by decide)
  change (monthDay (isLeap (absDate (t / second / 86400)).1)
    (absDate (t / second / 86400)).2.toNat).2 = _
  rw [hdays]
  rfl

theorem midnight_eq (t : Instant) : midnight t = t / day * day := by
  have h := Int.mul_ediv_add_emod t day
  rw [midnight]
  linarith

theorem midnight_mono {s t : Instant} (h : s ≤ t) : midnight s ≤ midnight t := by
  rw [midnight_eq, midnight_eq]
  exact Int.mul_le_mul_of_nonneg_right (Int.ediv_le_ediv (by decide) h) (by decide)

theorem windowStart_mono {window : Window} (hwindow : window ≠ .rolling7d) {s t : Instant}
    (h : s ≤ t) : (windowBounds window s).windowStart ≤ (windowBounds window t).windowStart := by
  cases window with
  | calendarDay => exact midnight_mono h
  | rolling7d => exact absurd rfl hwindow
  | calendarMonth =>
    have hstart (t : Instant) : (windowBounds .calendarMonth t).windowStart =
        monthStart (t / day) * day := by
      have heq : (windowBounds .calendarMonth t).windowStart =
          midnight t - ((reading t).day - 1) * day := rfl
      rw [heq, midnight_eq, reading_day, monthStart]
      ring
    rw [hstart, hstart]
    exact Int.mul_le_mul_of_nonneg_right (monthStart_mono (Int.ediv_le_ediv (by decide) h))
      (by decide)

theorem windowBounds_congr {window : Window} (hwindow : window ≠ .rolling7d) {s t : Instant}
    (h : (windowBounds window s).windowStart = (windowBounds window t).windowStart) :
    windowBounds window s = windowBounds window t := by
  cases window with
  | calendarDay =>
    have heq : midnight s = midnight t := h
    rw [windowBounds, windowBounds, heq]
  | rolling7d => exact absurd rfl hwindow
  | calendarMonth =>
    have heq : midnight s - ((reading s).day - 1) * day =
      midnight t - ((reading t).day - 1) * day := h
    rw [windowBounds, windowBounds, heq]

/-! ## Thresholds -/

/-- `Thresholds`. -/
def thresholds : List Nat := [80, 95, 100]

/-- `consumed / limit * 100`, in doubles. -/
def percent (consumed limit : ℚ) : ℚ := nearestDouble (nearestDouble (consumed / limit) * 100)

/-- A hundred units at 0.57 do not make 57. -/
example : percent (nearestDouble (100 * nearestDouble (57 / 100))) 57 < 100 := by decide +kernel

/-- `CrossedThresholds`: the thresholds newly crossed and the last one. -/
def crossedThresholds (last : Nat) (consumed limit : ℚ) : List Nat × Nat :=
  if limit ≤ 0 then ([], last)
  else
    let crossed := thresholds.filter fun t => last < t ∧ (t : ℚ) ≤ percent consumed limit
    (crossed, crossed.getLast?.getD last)

section Crossed

variable {last : Nat} {consumed limit : ℚ}

theorem crossed_sublist : (crossedThresholds last consumed limit).1.Sublist thresholds := by
  unfold crossedThresholds
  split
  · exact List.nil_sublist _
  · exact List.filter_sublist

theorem crossed_nodup : (crossedThresholds last consumed limit).1.Nodup :=
  crossed_sublist.nodup (by decide)

theorem mem_crossed {t : Nat} (hpos : 0 < limit) : t ∈ (crossedThresholds last consumed limit).1 ↔
      t ∈ thresholds ∧ last < t ∧ (t : ℚ) ≤ percent consumed limit := by
  rw [crossedThresholds, if_neg (not_le.mpr hpos)]
  simp

theorem last_lt_crossed {t : Nat} (h : t ∈ (crossedThresholds last consumed limit).1) :
    last < t := by
  unfold crossedThresholds at h
  split at h
  · cases h
  · have hfilter := (List.mem_filter.mp h).2
    exact (of_decide_eq_true hfilter).1

theorem newLast_eq : (crossedThresholds last consumed limit).2 =
    (crossedThresholds last consumed limit).1.getLast?.getD last := by
  unfold crossedThresholds
  split <;> rfl

theorem le_newLast : last ≤ (crossedThresholds last consumed limit).2 := by
  rw [newLast_eq]
  cases hlast : (crossedThresholds last consumed limit).1.getLast? with
  | none => exact le_rfl
  | some t => exact (last_lt_crossed (List.mem_of_getLast? hlast)).le

theorem crossed_le_newLast {t : Nat} (h : t ∈ (crossedThresholds last consumed limit).1) :
    t ≤ (crossedThresholds last consumed limit).2 := by
  rw [newLast_eq]
  obtain ⟨init, final, hsplit⟩ := (List.eq_nil_or_concat' _).resolve_left (List.ne_nil_of_mem h)
  have hsorted : (crossedThresholds last consumed limit).1.Pairwise (· ≤ ·) :=
    List.Pairwise.sublist crossed_sublist (by decide)
  rw [hsplit] at h hsorted ⊢
  rw [List.getLast?_concat, Option.getD_some]
  rcases List.mem_append.mp h with h | h
  · exact (List.pairwise_append.mp hsorted).2.2 t h final (List.mem_singleton_self _)
  · exact (List.mem_singleton.mp h).le

theorem hundred_le_newLast : 100 ≤ (crossedThresholds last consumed limit).2 ↔
    100 ≤ last ∨ 100 ∈ (crossedThresholds last consumed limit).1 := by
  refine ⟨fun h => ?_, fun h => ?_⟩
  · rw [newLast_eq] at h
    cases hlast : (crossedThresholds last consumed limit).1.getLast? with
    | none =>
      rw [hlast] at h
      exact .inl h
    | some t =>
      rw [hlast] at h
      have hmem := List.mem_of_getLast? hlast
      have hle : ∀ t ∈ thresholds, t ≤ 100 := by decide
      have heq : t = 100 := le_antisymm (hle t (crossed_sublist.subset hmem)) h
      exact .inr (heq ▸ hmem)
  · rcases h with h | h
    · exact h.trans le_newLast
    · exact crossed_le_newLast h

theorem hundred_mem_crossed (hpos : 0 < limit) (hlast : last < 100) (h : limit ≤ consumed) :
    100 ∈ (crossedThresholds last consumed limit).1 := by
  have hratio : 1 ≤ nearestDouble (consumed / limit) := by
    rw [← nearestDouble_percent.1]
    exact nearestDouble_mono zero_le_one ((one_le_div hpos).mpr h)
  have hpercent : 100 ≤ percent consumed limit := by
    rw [← nearestDouble_percent.2]
    exact nearestDouble_mono (by norm_num) (by linarith)
  exact (mem_crossed hpos).mpr ⟨by decide, hlast, by exact_mod_cast hpercent⟩

end Crossed

/-! ## Budgets and events -/

/-- What an exhausted budget does. -/
inductive Action where
  | alertOnly
  | hardStop
  deriving DecidableEq

/-- What a budget is about; no operation changes it. -/
structure BudgetSpec where
  tenantID : Uuid
  workspaceID : Option Bytes
  userID : Option Bytes
  agentID : Option Bytes
  meterKey : Bytes
  window : Window
  deriving DecidableEq

/-- A row of the budgets. -/
structure Budget extends BudgetSpec where
  /-- `limit_value NUMERIC(20,6)`, in millionths -/
  limitMillionths : Int
  actionAt100 : Action
  /-- the status is 'deleted' -/
  deleted : Bool
  /-- `CHECK (limit_value > 0)` -/
  limit_pos : 0 < limitMillionths
  deriving DecidableEq

/-- A NUMERIC(20,6) as a number. -/
def amount (millionths : Int) : ℚ := millionths / 1000000

def Budget.limitValue (b : Budget) : ℚ := amount b.limitMillionths

/-- The limit as it is scanned. -/
def Budget.limit (b : Budget) : ℚ := nearestDouble b.limitValue

theorem Budget.one_le_limitValue (b : Budget) : amount 1 ≤ b.limitValue := by
  refine div_le_div_of_nonneg_right ?_ (by norm_num)
  exact_mod_cast b.limit_pos

theorem Budget.zero_lt_limit (b : Budget) : 0 < b.limit :=
  lt_of_lt_of_le (by decide +kernel : 0 < nearestDouble (amount 1))
    (nearestDouble_mono (by decide +kernel) b.one_le_limitValue)

/-- A row of `budget_states`. -/
structure BudgetState where
  consumed : ℚ
  lastThreshold : Nat
  exhaustedAt : Option Instant
  deriving DecidableEq

/-- The payload of a crossed threshold. -/
structure Crossing where
  threshold : Nat
  consumed : ℚ
  limit : ℚ
  windowStart : Instant
  deriving DecidableEq

/-- Why a budget is reset. -/
inductive Reason where
  | windowRollover
  | limitRaised
  | budgetDeleted
  deriving DecidableEq

/-- An event of the outbox. -/
inductive Event where
  | threshold (crossing : Crossing)
  | exhausted (crossing : Crossing) (action : Action)
  | reset (windowStart : Instant) (reason : Reason)
  | updated (budget : Budget) (limit : ℚ)
  | deleted (budget : Budget)
  deriving DecidableEq

/-- A budget, its usage, states and events. -/
structure Ledger where
  budget : Budget
  raw : List MeterRecord
  /-- the rows of `budget_states`, by `window_start` -/
  states : Table Instant BudgetState
  outbox : List Event

/-! ## Consumption -/

/-- `$5::text IS NULL OR workspace_id=$5`. -/
def inScope (scope value : Option Bytes) : Bool := scope.isNone || value == scope

/-- The rows of a window that a budget is about, of any meter. -/
def BudgetSpec.covers (b : BudgetSpec) (bounds : Bounds) (r : MeterRecord) : Bool :=
  r.tenantID == b.tenantID && bounds.rangeStart ≤ r.time && r.time < bounds.rangeEnd &&
    inScope b.workspaceID r.workspaceID && inScope b.userID r.userID && inScope b.agentID r.agentID

def usdTotal : Bytes := bytes "usd_total"

/-- The sum of a meter in the rows of a window. -/
def BudgetSpec.total (b : BudgetSpec) (raw : List MeterRecord) (bounds : Bounds) (meter : Bytes) :
    ℚ :=
  amount (Table.sumOf (·.meterKey) (·.quantity) (raw.filter (b.covers bounds)) meter)

/-- The meters of a window, as GROUP BY returns them. -/
def BudgetSpec.meters (b : BudgetSpec) (raw : List MeterRecord) (bounds : Bounds) : List Bytes :=
  Table.groups (·.meterKey) (raw.filter (b.covers bounds))

/-- `consumptionTx`: the sum of the meter, or of all meters at their default prices, in
doubles. -/
def BudgetSpec.consumptionTx (prices : Bytes → ℚ) (b : BudgetSpec) (raw : List MeterRecord)
    (bounds : Bounds) : ℚ :=
  if b.meterKey ≠ usdTotal then nearestDouble (b.total raw bounds b.meterKey)
  else
    (b.meters raw bounds).foldl (fun usd meter => nearestDouble (usd +
      nearestDouble (nearestDouble (b.total raw bounds meter) * nearestDouble (prices meter)))) 0

/-- What has been consumed. -/
def BudgetSpec.consumption (prices : Bytes → ℚ) (b : BudgetSpec) (raw : List MeterRecord)
    (bounds : Bounds) : ℚ :=
  if b.meterKey ≠ usdTotal then b.total raw bounds b.meterKey
  else ((b.meters raw bounds).map fun meter => b.total raw bounds meter * prices meter).sum

theorem limit_le_consumptionTx {prices : Bytes → ℚ} {b : Budget} {raw : List MeterRecord}
    {bounds : Bounds} (hmeter : b.meterKey ≠ usdTotal)
    (h : b.limitValue ≤ b.consumption prices raw bounds) :
    b.limit ≤ b.consumptionTx prices raw bounds := by
  rw [BudgetSpec.consumption, if_pos hmeter] at h
  rw [BudgetSpec.consumptionTx, if_pos hmeter]
  exact nearestDouble_mono ((by decide +kernel : 0 ≤ amount 1).trans b.one_le_limitValue) h

/-- A double as NUMERIC(20,6), in millionths: its shortest decimal, rounded half away from
zero. -/
def numeric (x : Double) : Int :=
  let d := shortest x.mag
  let shift := d.exp + 6
  let millionths := (d.digits * 10 ^ shift.toNat + 10 ^ (-shift).toNat / 2) / 10 ^ (-shift).toNat
  if x.neg then -millionths else millionths

/-! ## The transactions -/

/-- `last_threshold` of a window, 0 when it has no row. -/
def lastThreshold (states : Table Instant BudgetState) (start : Instant) : Nat :=
  (states.find start).elim 0 (·.lastThreshold)

/-- The event of a crossed threshold. -/
def Budget.event (b : Budget) (consumed : ℚ) (start : Instant) (t : Nat) : Event :=
  if 100 ≤ t then .exhausted ⟨t, consumed, b.limit, start⟩ b.actionAt100
  else .threshold ⟨t, consumed, b.limit, start⟩

namespace Ledger

/-- The row is new and the budget has one of an earlier window. -/
def rollsOver (l : Ledger) (start : Instant) : Bool :=
  (l.states.find start).isNone && l.states.any (·.1 < start)

/-- `resetStateTx`. -/
def resetState (l : Ledger) (start : Instant) (reason : Reason) : Ledger :=
  { l with
    states := l.states.upsert start ⟨0, 0, none⟩ fun _ => ⟨0, 0, none⟩
    outbox := l.outbox ++ [.reset start reason] }

variable (prices : Bytes → ℚ)

/-- What an evaluation with a copy `b` of the budget crosses, and the new last threshold. -/
def crossing (l : Ledger) (b : Budget) (now : Instant) : List Nat × Nat :=
  let bounds := windowBounds b.window now
  crossedThresholds (lastThreshold l.states bounds.windowStart)
    (b.consumptionTx prices l.raw bounds) b.limit

/-- `evaluateBudget`, with a copy of the budget and its reading of the clock; `commit` is
the time of the transaction. -/
def evaluateBudget (l : Ledger) (b : Budget) (now commit : Instant) : Ledger :=
  let bounds := windowBounds b.window now
  let start := bounds.windowStart
  let states := l.states.upsert start ⟨0, 0, none⟩ id
  let rollover : List Event := if l.rollsOver start then [.reset start .windowRollover] else []
  let consumed := b.consumptionTx prices l.raw bounds
  let (crossed, newLast) := l.crossing prices b now
  let exhaustedAt := if crossed.any (100 ≤ ·) then some commit else none
  { l with
    states := states.upsert start ⟨consumed, newLast, exhaustedAt⟩ fun old =>
      ⟨consumed, max old.lastThreshold newLast, old.exhaustedAt <|> exhaustedAt⟩
    outbox := l.outbox ++ rollover ++ crossed.map (b.event consumed start) }

/-- `UpdateBudget`; a limit that its column does not take fails. -/
def updateBudget (l : Ledger) (newLimit : Option Double) (newAction : Option Action)
    (now : Instant) :
    Option Ledger :=
  let before := l.budget
  let stored := (newLimit.map numeric).getD before.limitMillionths
  if hpos : 0 < stored then
    if stored < 10 ^ 20 then
      let b : Budget := { before with
        limitMillionths := stored
        actionAt100 := newAction.getD before.actionAt100
        limit_pos := hpos }
      let l := { l with budget := b }
      let bounds := windowBounds b.window now
      let limit := (newLimit.map Double.value).getD before.limit
      -- a limit raised above the consumption resets the window
      let l :=
        if before.limit < limit ∧ b.consumptionTx prices l.raw bounds < limit then
          l.resetState bounds.windowStart .limitRaised
        else l
      some { l with outbox := l.outbox ++ [.updated b limit] }
    else none
  else none

/-- `DeleteBudget`. -/
def deleteBudget (l : Ledger) (now : Instant) : Ledger :=
  let start := (windowBounds l.budget.window now).windowStart
  let b := l.budget
  let l := { l with budget := { b with deleted := true } }
  let l := if 100 ≤ lastThreshold l.states start then l.resetState start .budgetDeleted else l
  { l with outbox := l.outbox ++ [.deleted b] }

/-! ## What they do to the states -/

section States

variable {prices : Bytes → ℚ} {states : Table Instant BudgetState} {start other : Instant}
  {new : BudgetState} {onConflict : BudgetState → BudgetState}

theorem lastThreshold_upsert : lastThreshold (states.upsert start new onConflict) start =
    ((states.find start).elim new onConflict).lastThreshold := by
  rw [lastThreshold, Table.find_upsert]
  rfl

theorem lastThreshold_upsert_of_ne (h : other ≠ start) :
    lastThreshold (states.upsert start new onConflict) other = lastThreshold states other := by
  rw [lastThreshold, Table.find_upsert_of_ne h]
  rfl

@[simp] theorem resetState_states (l : Ledger) (start : Instant) (reason : Reason) :
    (l.resetState start reason).states =
      l.states.upsert start ⟨0, 0, none⟩ fun _ => ⟨0, 0, none⟩ := rfl

theorem lastThreshold_reset (l : Ledger) (reason : Reason) :
    lastThreshold (l.resetState start reason).states start = 0 := by
  rw [resetState_states, lastThreshold_upsert]
  cases l.states.find start <;> rfl

section Evaluate

variable {l : Ledger} {b : Budget} {now commit : Instant}

theorem outbox_evaluateBudget : (l.evaluateBudget prices b now commit).outbox = l.outbox ++
    ((if l.rollsOver (windowBounds b.window now).windowStart then
      [.reset (windowBounds b.window now).windowStart .windowRollover] else []) ++
    (l.crossing prices b now).1.map (b.event
      (b.consumptionTx prices l.raw (windowBounds b.window now))
      (windowBounds b.window now).windowStart)) := by
  rw [← List.append_assoc]
  rfl

theorem lastThreshold_evaluateBudget : lastThreshold (l.evaluateBudget prices b now commit).states
      (windowBounds b.window now).windowStart = (l.crossing prices b now).2 := by
  have hle : lastThreshold l.states (windowBounds b.window now).windowStart ≤
    (l.crossing prices b now).2 := le_newLast
  unfold lastThreshold at hle
  unfold evaluateBudget
  dsimp only
  rw [lastThreshold_upsert, Table.find_upsert, Option.elim_some]
  cases hrow : l.states.find (windowBounds b.window now).windowStart with
  | none => exact Nat.zero_max _
  | some old =>
    rw [hrow] at hle
    exact max_eq_right hle

theorem lastThreshold_evaluateBudget_of_ne (h : other ≠ (windowBounds b.window now).windowStart) :
    lastThreshold (l.evaluateBudget prices b now commit).states other =
      lastThreshold l.states other := by
  unfold evaluateBudget
  dsimp only
  rw [lastThreshold_upsert_of_ne h, lastThreshold_upsert_of_ne h]

theorem mem_states_evaluateBudget {row : Instant × BudgetState}
    (h : row ∈ (l.evaluateBudget prices b now commit).states) :
    row.1 = (windowBounds b.window now).windowStart ∨ ∃ state, (row.1, state) ∈ l.states := by
  obtain ⟨key, state⟩ := row
  rcases Table.mem_upsert h with h | ⟨rfl, -⟩
  · rcases Table.mem_upsert h with h | ⟨rfl, -⟩
    · exact .inr ⟨_, h⟩
    · exact .inl rfl
  · exact .inl rfl

end Evaluate

/-- An update resets the window of a budget whose limit is raised above the consumption,
and leaves the states alone otherwise. -/
theorem updateBudget_cases {l l' : Ledger} {newLimit : Option Double} {newAction : Option Action}
    {now : Instant} (h : l.updateBudget prices newLimit newAction now = some l') :
    ∃ (b : Budget) (limit : ℚ), b.toBudgetSpec = l.budget.toBudgetSpec ∧
      b.deleted = l.budget.deleted ∧
      ((∃ reset, reset = l.resetState (windowBounds b.window now).windowStart .limitRaised ∧
          l' = { reset with budget := b, outbox := reset.outbox ++ [.updated b limit] }) ∨
        (l' = { l with budget := b, outbox := l.outbox ++ [.updated b limit] } ∧
          (b.limitValue = l.budget.limitValue ∨ ∃ x ∈ newLimit, b.limitValue = amount (numeric x) ∧
            (x.value ≤ l.budget.limit ∨
              x.value ≤ l.budget.consumptionTx prices l.raw (windowBounds b.window now))))) := by
  unfold updateBudget at h
  dsimp only at h
  split at h
  · next hpos =>
    split at h
    · cases h
      refine ⟨{ l.budget with
        limitMillionths := (newLimit.map numeric).getD l.budget.limitMillionths
        actionAt100 := newAction.getD l.budget.actionAt100
        limit_pos := hpos }, (newLimit.map Double.value).getD l.budget.limit, rfl, rfl, ?_⟩
      split
      · exact .inl ⟨_, rfl, rfl⟩
      · next hkeep =>
        refine .inr ⟨rfl, ?_⟩
        cases newLimit with
        | none => exact .inl rfl
        | some x =>
          refine .inr ⟨x, rfl, rfl, ?_⟩
          rcases not_and_or.mp hkeep with hlimit | hconsumed
          · exact .inl (not_lt.mp hlimit)
          · exact .inr (not_lt.mp hconsumed)
    · cases h
  · cases h

theorem deleteBudget_cases (l : Ledger) (now : Instant) : ∃ reset, (reset = l ∨
        reset = l.resetState (windowBounds l.budget.window now).windowStart .budgetDeleted) ∧
      l.deleteBudget now =
        { reset with
          budget := { l.budget with deleted := true }
          outbox := reset.outbox ++ [.deleted l.budget] } := by
  unfold deleteBudget
  dsimp only
  split
  · exact ⟨_, .inr rfl, rfl⟩
  · exact ⟨_, .inl rfl, rfl⟩

end States

end Ledger

/-! ## What the events say -/

/-- The thresholds that were emitted for a window since its last reset, after one more
event. -/
def Event.crossings (start : Instant) (since : List Nat) : Event → List Nat
  | .threshold c | .exhausted c _ => if c.windowStart = start then since ++ [c.threshold] else since
  | .reset windowStart _ => if windowStart = start then [] else since
  | .updated _ _ | .deleted _ => since

def crossedSince (start : Instant) (outbox : List Event) : List Nat :=
  outbox.foldl (Event.crossings start) []

/-- The latest exhausted event is after the latest reset. -/
def Event.blocks (before : Bool) : Event → Bool
  | .exhausted _ _ => true
  | .reset _ _ => false
  | .threshold _ | .updated _ _ | .deleted _ => before

def blocked (outbox : List Event) : Bool := outbox.foldl Event.blocks false

/-- The events after the deletion. -/
def afterDeletion : List Event → List Event
  | [] => []
  | .deleted _ :: es => es
  | .threshold _ :: es | .exhausted _ _ :: es | .reset _ _ :: es | .updated _ _ :: es =>
    afterDeletion es

section Events

variable {start other : Instant} {outbox : List Event} {b : Budget} {consumed : ℚ}

theorem crossings_event (since : List Nat) (t : Nat) :
    (b.event consumed start t).crossings other since =
      if start = other then since ++ [t] else since := by
  unfold Budget.event
  split <;> rfl

theorem foldl_crossings_event (since crossed : List Nat) :
    (crossed.map (b.event consumed start)).foldl (Event.crossings other) since =
      if start = other then since ++ crossed else since := by
  induction crossed generalizing since with
  | nil => simp
  | cons t crossed ih =>
    rw [List.map_cons, List.foldl_cons, ih]
    rw [crossings_event]
    split <;> simp

theorem blocks_event (before : Bool) (t : Nat) :
    (b.event consumed start t).blocks before = (before || decide (100 ≤ t)) := by
  unfold Budget.event
  split
  · next h => simp [Event.blocks, h]
  · next h => simp [Event.blocks, h]

theorem foldl_blocks_event (before : Bool) (crossed : List Nat) :
    (crossed.map (b.event consumed start)).foldl Event.blocks before =
      (before || crossed.any (100 ≤ ·)) := by
  induction crossed generalizing before with
  | nil => simp
  | cons t crossed ih =>
    rw [List.map_cons, List.foldl_cons, ih, blocks_event, List.any_cons, Bool.or_assoc]

theorem afterDeletion_append (h : ∀ b, Event.deleted b ∉ outbox) (es : List Event) :
    afterDeletion (outbox ++ es) = afterDeletion es := by
  induction outbox with
  | nil => rfl
  | cons e outbox ih =>
    have hrest := ih fun b hb => h b (List.mem_cons_of_mem _ hb)
    cases e with
    | deleted b => exact absurd List.mem_cons_self (h b)
    | threshold | exhausted | reset | updated => exact hrest

theorem afterDeletion_eq_nil (h : ∀ b, Event.deleted b ∉ outbox) : afterDeletion outbox = [] := by
  have heq := afterDeletion_append h []
  rwa [List.append_nil] at heq

theorem event_ne_deleted (t : Nat) (b' : Budget) : b.event consumed start t ≠ .deleted b' := by
  unfold Budget.event
  split <;> exact nofun

end Events

end Windrose.Usage

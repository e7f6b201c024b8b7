/-
  Usage/BudgetRuns.lean --- when the events of a budget follow its usage.

  Source: services/usage-service/internal/store/budgets.go (EvaluateAfterIngest,
  EvaluateAll, activeBudgets: "threshold events fire exactly once per (budget, window,
  threshold)") over internal/store/raw.go.

  The evaluators read the list of active budgets first and evaluate each copy in a later
  transaction, so that an update or a deletion may come in between.
-/
import Windrose.Foundation.Runs
import Windrose.Usage.Budgets

set_option autoImplicit false

namespace Windrose.Usage

open Windrose.Foundation

/-! ## Runs -/

/-- One budget, with the evaluations that are under way. -/
structure BudgetWorld where
  now : Instant
  ledger : Ledger
  /-- copies of the budget that have been read and not yet evaluated, with the time of the read -/
  pending : List (Instant × Budget)

/-- A transaction, or time that passes. -/
inductive BudgetOp where
  /-- time passes -/
  | tick (elapsed : Nat)
  | insertRaw (recs : List MeterRecord)
  /-- the list is read, by the sweep or after an ingest of these meters -/
  | activeBudgets (meterKeys : Option (List Bytes))
  /-- a copy is evaluated, at a time that was read after the list -/
  | evaluateBudget (index : Nat) (now : Instant)
  | updateBudget (newLimit : Option Double) (newAction : Option Action)
  | deleteBudget

/-- The meters of an ingest concern the budget. -/
def BudgetSpec.concerned (b : BudgetSpec) : Option (List Bytes) → Bool
  | none => true
  | some meterKeys => b.meterKey = usdTotal ∨ b.meterKey ∈ meterKeys

namespace BudgetWorld

/-- A budget as it is created, over the usage there is. -/
def created (b : Budget) (now : Instant) (raw : List MeterRecord) : BudgetWorld :=
  ⟨now, ⟨b, raw, [], []⟩, []⟩

variable (prices : Bytes → ℚ)

/-- One step. -/
def step (w : BudgetWorld) : BudgetOp → BudgetWorld
  | .tick elapsed => { w with now := w.now + elapsed }
  | .insertRaw recs =>
    match Store.insertRaw ⟨w.ledger.raw, fun _ => []⟩ recs with
    | some (store, _) => { w with ledger := { w.ledger with raw := store.raw } }
    | none => w
  | .activeBudgets meterKeys =>
    if w.ledger.budget.deleted = false ∧ w.ledger.budget.concerned meterKeys then
      { w with pending := w.pending ++ [(w.now, w.ledger.budget)] }
    else w
  | .evaluateBudget index now =>
    match w.pending[index]? with
    | some (read, b) =>
      if read ≤ now ∧ now ≤ w.now then
        { w with
          ledger := w.ledger.evaluateBudget prices b now w.now
          pending := w.pending.eraseIdx index }
      else w
    | none => w
  | .updateBudget newLimit newAction =>
    match w.ledger.updateBudget prices newLimit newAction w.now with
    | some ledger => { w with ledger }
    | none => w
  | .deleteBudget => { w with ledger := w.ledger.deleteBudget w.now }

/-- The start of the current window. -/
def start (w : BudgetWorld) : Instant := (windowBounds w.ledger.budget.window w.now).windowStart

/-- The last threshold of the current window. -/
def last (w : BudgetWorld) : Nat := lastThreshold w.ledger.states w.start

/-- The consumption of the current window. -/
def consumption (w : BudgetWorld) : ℚ :=
  w.ledger.budget.consumption prices w.ledger.raw (windowBounds w.ledger.budget.window w.now)

/-- The consumption of the current window, as an evaluation reads it. -/
def consumed (w : BudgetWorld) : ℚ :=
  w.ledger.budget.consumptionTx prices w.ledger.raw (windowBounds w.ledger.budget.window w.now)

/-- The budget is marked exhausted. -/
def Marked (w : BudgetWorld) : Prop := 100 ≤ w.last ∧ blocked w.ledger.outbox = true

/-- A final evaluation by the sweep. -/
def sweep (w : BudgetWorld) : BudgetWorld :=
  run (step prices) w [.activeBudgets none, .evaluateBudget w.pending.length w.now]

/-! ## The condition -/

/-- An evaluation of a deleted budget crosses nothing and begins no window; one of the
current window exhausts no budget that is within its current limit; and one of an earlier
window does not reset an exhausted budget. -/
def FitsCopy (w : BudgetWorld) (b : Budget) (now : Instant) : Prop :=
  let start := (windowBounds b.window now).windowStart
  let crossed := (w.ledger.crossing prices b now).1
  if w.ledger.budget.deleted then crossed = [] ∧ w.ledger.rollsOver start = false
  else if start = w.start then
    100 ∈ crossed → w.ledger.budget.limitValue ≤ w.consumption prices
  else w.ledger.rollsOver start = true → w.last < 100 ∨ 100 ∈ crossed

/-- Rows do not take an exhausted window back below the limit, nor does a limit that is not
raised in doubles; copies that are evaluated do no harm; and a deleted budget is neither
updated nor deleted again. -/
def Fits (w : BudgetWorld) : BudgetOp → Prop
  | .tick _ | .activeBudgets _ => True
  | .insertRaw recs => w.ledger.budget.deleted = false → 100 ≤ w.last →
      w.ledger.budget.limitValue ≤ (w.step prices (.insertRaw recs)).consumption prices
  | .evaluateBudget index now =>
    ∀ copy ∈ w.pending[index]?, copy.1 ≤ now → now ≤ w.now → w.FitsCopy prices copy.2 now
  | .updateBudget newLimit _ => w.ledger.budget.deleted = false ∧
      (100 ≤ w.last → ∀ x ∈ newLimit,
        x.value ≤ w.ledger.budget.limit ∨ x.value ≤ w.consumed prices →
          amount (numeric x) ≤ w.consumption prices)
  | .deleteBudget => w.ledger.budget.deleted = false

/-- A final evaluation fits, and a sum of prices that reaches the limit reaches it in
doubles. -/
def FitsSweep (w : BudgetWorld) : Prop :=
  w.FitsCopy prices w.ledger.budget w.now ∧
    (w.ledger.budget.meterKey = usdTotal → w.ledger.budget.limitValue ≤ w.consumption prices →
      w.ledger.budget.limit ≤ w.consumed prices)

/-- What is promised of every state. -/
structure Exact (w : BudgetWorld) : Prop where
  once : ∀ start, (crossedSince start w.ledger.outbox).Nodup
  marked : w.pending = [] → w.ledger.budget.deleted = false → w.FitsSweep prices →
    ((w.sweep prices).Marked ↔
      (w.sweep prices).ledger.budget.limitValue ≤ (w.sweep prices).consumption prices)
  silent : afterDeletion w.ledger.outbox = []

instance (w : BudgetWorld) : Decidable w.Marked := inferInstanceAs (Decidable (_ ∧ _))

instance (w : BudgetWorld) (b : Budget) (now : Instant) : Decidable (w.FitsCopy prices b now) :=
  inferInstanceAs (Decidable (if w.ledger.budget.deleted = true then _ = _ ∧ _ = _
    else if (windowBounds b.window now).windowStart = w.start then _ ∈ _ → _ ≤ _
    else _ = _ → _ < _ ∨ _ ∈ _))

instance (w : BudgetWorld) (op : BudgetOp) : Decidable (w.Fits prices op) :=
  match op with
  | .tick _ | .activeBudgets _ => isTrue trivial
  | .insertRaw _ => inferInstanceAs (Decidable (_ → _ → _))
  | .evaluateBudget index _ => inferInstanceAs (Decidable (∀ _ ∈ w.pending[index]?, _ → _ → _))
  | .updateBudget newLimit _ =>
    inferInstanceAs (Decidable (_ = _ ∧ (_ → ∀ x ∈ newLimit, x.value ≤ _ ∨ x.value ≤ _ → _)))
  | .deleteBudget => inferInstanceAs (Decidable (_ = _))

instance (w : BudgetWorld) : Decidable (w.FitsSweep prices) :=
  inferInstanceAs (Decidable (_ ∧ (_ → _ → _)))

/-! ## A threshold is emitted once -/

/-- What is emitted for a window is below its last threshold. -/
def Once (l : Ledger) : Prop :=
  ∀ start, (crossedSince start l.outbox).Nodup ∧
    ∀ t ∈ crossedSince start l.outbox, t ≤ lastThreshold l.states start

section Once

variable {prices} {l : Ledger}

theorem once_reset (h : Once l) (start : Instant) (reason : Reason) :
    Once (l.resetState start reason) := by
  intro other
  have hevents : crossedSince other (l.resetState start reason).outbox =
      if start = other then [] else crossedSince other l.outbox := by
    rw [Ledger.resetState, crossedSince, List.foldl_append]
    rfl
  rw [hevents]
  by_cases hstart : start = other
  · rw [if_pos hstart]
    exact ⟨List.nodup_nil, nofun⟩
  · rw [if_neg hstart, Ledger.resetState_states,
      Ledger.lastThreshold_upsert_of_ne (Ne.symm hstart)]
    exact h other

theorem once_evaluateBudget (h : Once l) (b : Budget) (now commit : Instant) :
    Once (l.evaluateBudget prices b now commit) := by
  intro other
  obtain ⟨hnodup, hle⟩ := h other
  rw [Ledger.outbox_evaluateBudget, crossedSince, List.foldl_append, List.foldl_append,
    foldl_crossings_event]
  have hprior : ∀ since : List Nat,
      (if l.rollsOver (windowBounds b.window now).windowStart then
        [Event.reset (windowBounds b.window now).windowStart .windowRollover] else []).foldl
        (Event.crossings other) since <:+ since := by
    intro since
    split
    · change (if _ = other then [] else since) <:+ since
      split
      · exact List.nil_suffix
      · exact List.suffix_rfl
    · exact List.suffix_rfl
  have hsub := (hprior (l.outbox.foldl (Event.crossings other) [])).sublist
  by_cases hstart : (windowBounds b.window now).windowStart = other
  · rw [if_pos hstart]
    have hlast : lastThreshold (l.evaluateBudget prices b now commit).states
        (windowBounds b.window now).windowStart = (l.crossing prices b now).2 :=
      Ledger.lastThreshold_evaluateBudget
    rw [hstart] at hlast
    rw [hlast]
    constructor
    · refine List.nodup_append.mpr ⟨hnodup.sublist hsub, crossed_nodup, ?_⟩
      rintro s hs t ht rfl
      have hold := hle s (hsub.subset hs)
      have hnew := last_lt_crossed ht
      rw [hstart] at hnew
      omega
    · intro t ht
      rcases List.mem_append.mp ht with ht | ht
      · have hold := hle t (hsub.subset ht)
        rw [← hstart] at hold
        exact hold.trans le_newLast
      · exact crossed_le_newLast ht
  · rw [if_neg hstart, Ledger.lastThreshold_evaluateBudget_of_ne (Ne.symm hstart)]
    exact ⟨hnodup.sublist hsub, fun t ht => hle t (hsub.subset ht)⟩

theorem once_quiet (h : Once l) {l' : Ledger} (hstates : l'.states = l.states) {es : List Event}
    (houtbox : l'.outbox = l.outbox ++ es) (hes : ∀ start since e, e ∈ es →
      Event.crossings start since e = since) : Once l' := by
  intro start
  have hsame : ∀ (es : List Event) (since : List Nat),
      (∀ start since e, e ∈ es → Event.crossings start since e = since) →
        es.foldl (Event.crossings start) since = since := by
    intro es since hes
    induction es with
    | nil => rfl
    | cons e es ih =>
      rw [List.foldl_cons, hes _ _ e List.mem_cons_self]
      exact ih fun start since e he => hes start since e (List.mem_cons_of_mem _ he)
  rw [houtbox, crossedSince, List.foldl_append, hsame es _ hes, hstates]
  exact h start

theorem once_step {w : BudgetWorld} (h : Once w.ledger) (op : BudgetOp) :
    Once (w.step prices op).ledger := by
  cases op with
  | tick elapsed => exact h
  | insertRaw recs =>
    rw [step]
    split
    · exact h
    · exact h
  | activeBudgets meterKeys =>
    rw [step]
    split
    · exact h
    · exact h
  | evaluateBudget index now =>
    rw [step]
    split
    · split
      · exact once_evaluateBudget h _ _ _
      · exact h
    · exact h
  | updateBudget newLimit newAction =>
    rw [step]
    split
    · next ledger hledger =>
      obtain ⟨b, limit, -, -, ⟨reset, rfl, rfl⟩ | ⟨rfl, -⟩⟩ := Ledger.updateBudget_cases hledger
      · refine once_quiet (once_reset h _ _) rfl rfl fun start since e he => ?_
        rw [List.mem_singleton.mp he]
        rfl
      · refine once_quiet h rfl rfl fun start since e he => ?_
        rw [List.mem_singleton.mp he]
        rfl
    · exact h
  | deleteBudget =>
    obtain ⟨reset, hreset, heq⟩ := Ledger.deleteBudget_cases w.ledger w.now
    rw [step, heq]
    have honce : Once reset := by
      rcases hreset with rfl | rfl
      · exact h
      · exact once_reset h _ _
    refine once_quiet honce rfl rfl fun start since e he => ?_
    rw [List.mem_singleton.mp he]
    rfl

theorem once_always (b : Budget) (now : Instant) (raw : List MeterRecord) (ops : List BudgetOp) :
    Always (step prices) (fun w => Once w.ledger) (created b now raw) ops := by
  intro done _
  have hcreated : Once (created b now raw).ledger := fun _ => ⟨List.nodup_nil, nofun⟩
  exact run_invariant (P := fun w : BudgetWorld => Once w.ledger) (fun _ op h => once_step h op)
    hcreated done

end Once

/-! ## The invariant -/

/-- The invariant. -/
structure Good (w : BudgetWorld) : Prop where
  calendar : w.ledger.budget.window ≠ .rolling7d
  begun : ∀ start state, (start, state) ∈ w.ledger.states → start ≤ w.start
  copies : ∀ copy ∈ w.pending, copy.2.toBudgetSpec = w.ledger.budget.toBudgetSpec
  sound : w.ledger.budget.deleted = false → 100 ≤ w.last →
    w.ledger.budget.limitValue ≤ w.consumption prices
  blocked : w.ledger.budget.deleted = false → 100 ≤ w.last → blocked w.ledger.outbox = true
  undeleted : w.ledger.budget.deleted = false → ∀ b, .deleted b ∉ w.ledger.outbox
  silent : afterDeletion w.ledger.outbox = []

variable {b : Budget} {now start : Instant} {l : Ledger}

section Good

variable {prices} {w : BudgetWorld}

theorem last_created (b : Budget) (now : Instant) (raw : List MeterRecord) :
    (created b now raw).last = 0 := rfl

theorem good_created (hwindow : b.window ≠ .rolling7d) (now : Instant)
    (raw : List MeterRecord) : Good prices (created b now raw) where
  calendar := hwindow
  begun := nofun
  copies := nofun
  sound := fun _ h => absurd (last_created b now raw ▸ h) (by decide)
  blocked := fun _ h => absurd (last_created b now raw ▸ h) (by decide)
  undeleted := nofun
  silent := rfl

theorem lastThreshold_of_new {states : Table Instant BudgetState}
    (h : ∀ other state, (other, state) ∈ states → other < start) :
      lastThreshold states start = 0 := by
  rw [lastThreshold]
  cases hrow : states.find start with
  | none => rfl
  | some state => exact absurd (h start state (Table.mem_of_find hrow)) (lt_irrefl start)

theorem good_tick (h : Good prices w) (elapsed : Nat) :
    Good prices { w with now := w.now + elapsed } := by
  have hle : w.start ≤ start { w with now := w.now + elapsed } :=
    windowStart_mono h.calendar (Int.le_add_of_nonneg_right (Int.natCast_nonneg elapsed))
  refine ⟨h.calendar, fun s state hs => (h.begun s state hs).trans hle, h.copies, ?_, ?_,
    h.undeleted, h.silent⟩
  · intro hactive hlast
    rcases hle.lt_or_eq with hlt | heq
    · rw [last, lastThreshold_of_new fun s state hs => (h.begun s state hs).trans_lt hlt] at hlast
      omega
    · have hbounds := windowBounds_congr h.calendar heq
      rw [last, ← heq] at hlast
      rw [consumption, ← hbounds]
      exact h.sound hactive hlast
  · intro hactive hlast
    rcases hle.lt_or_eq with hlt | heq
    · rw [last, lastThreshold_of_new fun s state hs => (h.begun s state hs).trans_lt hlt] at hlast
      omega
    · rw [last, ← heq] at hlast
      exact h.blocked hactive hlast

theorem good_insertRaw (h : Good prices w) {recs : List MeterRecord}
    (hfits : w.Fits prices (.insertRaw recs)) : Good prices (w.step prices (.insertRaw recs)) := by
  have hcases : ∃ raw, w.step prices (.insertRaw recs) =
      { w with ledger := { w.ledger with raw } } := by
    rw [step]
    split
    · exact ⟨_, rfl⟩
    · exact ⟨w.ledger.raw, rfl⟩
  rw [Fits] at hfits
  obtain ⟨raw, heq⟩ := hcases
  rw [heq] at hfits ⊢
  exact ⟨h.calendar, h.begun, h.copies, hfits, h.blocked, h.undeleted, h.silent⟩

theorem silent_append {outbox es : List Event} (houtbox : ∀ b, Event.deleted b ∉ outbox)
    (hes : ∀ b, Event.deleted b ∉ es) : afterDeletion (outbox ++ es) = [] := by
  rw [afterDeletion_append houtbox]
  exact afterDeletion_eq_nil hes

/-! ### An evaluation -/

/-- The events of an evaluation. -/
def evaluationEvents (prices : Bytes → ℚ) (l : Ledger) (b : Budget) (now : Instant) : List Event :=
  (if l.rollsOver (windowBounds b.window now).windowStart then
    [.reset (windowBounds b.window now).windowStart .windowRollover] else []) ++
  (l.crossing prices b now).1.map (b.event
    (b.consumptionTx prices l.raw (windowBounds b.window now))
    (windowBounds b.window now).windowStart)

theorem deleted_not_mem_evaluation (b' : Budget) :
    .deleted b' ∉ evaluationEvents prices l b now := by
  intro hmem
  rcases List.mem_append.mp hmem with hmem | hmem
  · split at hmem
    · cases List.mem_singleton.mp hmem
    · cases hmem
  · obtain ⟨t, -, heq⟩ := List.mem_map.mp hmem
    exact event_ne_deleted t b' heq

theorem blocked_evaluation {commit : Instant} :
    blocked (l.evaluateBudget prices b now commit).outbox =
      ((if l.rollsOver (windowBounds b.window now).windowStart then false else blocked l.outbox) ||
        (l.crossing prices b now).1.any (100 ≤ ·)) := by
  rw [Ledger.outbox_evaluateBudget, blocked, List.foldl_append, List.foldl_append,
    foldl_blocks_event]
  congr 1
  split
  · rfl
  · rfl

theorem blocked_of_crossed {commit : Instant} (h : 100 ∈ (l.crossing prices b now).1) :
    blocked (l.evaluateBudget prices b now commit).outbox = true := by
  rw [blocked_evaluation, List.any_eq_true.mpr ⟨100, h, rfl⟩, Bool.or_true]

theorem lastThreshold_of_rollsOver (h : l.rollsOver start = true) :
    lastThreshold l.states start = 0 := by
  have hnone := Option.isNone_iff_eq_none.mp (Bool.and_eq_true_iff.mp h).1
  rw [lastThreshold, hnone]
  rfl

variable {b : Budget} {now : Instant}

theorem begun_evaluation (h : Good prices w) (hspec : b.toBudgetSpec = w.ledger.budget.toBudgetSpec)
    (hnow : now ≤ w.now) (start : Instant) (state : BudgetState)
    (hmem : (start, state) ∈ (w.ledger.evaluateBudget prices b now w.now).states) :
    start ≤ w.start := by
  rcases Ledger.mem_states_evaluateBudget hmem with rfl | ⟨old, hold⟩
  · have hwindow : b.window = w.ledger.budget.window := congrArg BudgetSpec.window hspec
    rw [hwindow]
    exact windowStart_mono h.calendar hnow
  · exact h.begun _ old hold

theorem sound_evaluation (h : Good prices w)
    (hfits : w.FitsCopy prices b now) (hactive : w.ledger.budget.deleted = false)
    (hlast : 100 ≤ lastThreshold (w.ledger.evaluateBudget prices b now w.now).states w.start) :
    w.ledger.budget.limitValue ≤ w.consumption prices ∧
      blocked (w.ledger.evaluateBudget prices b now w.now).outbox = true := by
  unfold FitsCopy at hfits
  rw [if_neg (by rw [hactive]; exact Bool.false_ne_true)] at hfits
  by_cases hstart : (windowBounds b.window now).windowStart = w.start
  · rw [if_pos hstart] at hfits
    rw [← hstart, Ledger.lastThreshold_evaluateBudget, Ledger.crossing, hundred_le_newLast] at hlast
    rcases hlast with hbefore | hcrossed
    · rw [hstart] at hbefore
      refine ⟨h.sound hactive hbefore, ?_⟩
      have hkeep : w.ledger.rollsOver (windowBounds b.window now).windowStart ≠ true := by
        intro hroll
        have hzero := lastThreshold_of_rollsOver hroll
        rw [hstart] at hzero
        omega
      rw [blocked_evaluation, if_neg hkeep, h.blocked hactive hbefore, Bool.true_or]
    · exact ⟨hfits hcrossed, blocked_of_crossed hcrossed⟩
  · rw [if_neg hstart] at hfits
    rw [Ledger.lastThreshold_evaluateBudget_of_ne (Ne.symm hstart)] at hlast
    refine ⟨h.sound hactive hlast, ?_⟩
    by_cases hroll : w.ledger.rollsOver (windowBounds b.window now).windowStart = true
    · rcases hfits hroll with hlow | hcrossed
      · exact absurd hlast (not_le.mpr hlow)
      · exact blocked_of_crossed hcrossed
    · rw [blocked_evaluation, if_neg hroll, h.blocked hactive hlast, Bool.true_or]

theorem silent_evaluation (h : Good prices w) (hfits : w.FitsCopy prices b now) :
    afterDeletion (w.ledger.evaluateBudget prices b now w.now).outbox = [] := by
  rw [Ledger.outbox_evaluateBudget]
  cases hdeleted : w.ledger.budget.deleted with
  | false => exact silent_append (h.undeleted hdeleted) deleted_not_mem_evaluation
  | true =>
    unfold FitsCopy at hfits
    rw [if_pos hdeleted] at hfits
    obtain ⟨hcrossed, hroll⟩ := hfits
    rw [hcrossed, hroll]
    rw [if_neg Bool.false_ne_true, List.map_nil, List.append_nil, List.append_nil]
    exact h.silent

theorem good_evaluateBudget (h : Good prices w) {index : Nat}
    (hfits : w.Fits prices (.evaluateBudget index now)) :
    Good prices (w.step prices (.evaluateBudget index now)) := by
  rw [step]
  split
  · next read b hcopy =>
    split
    · next htime =>
      have hmem : (read, b) ∈ w.pending := List.mem_of_getElem? hcopy
      have hspec := h.copies _ hmem
      have hfits : w.FitsCopy prices b now := hfits _ hcopy htime.1 htime.2
      refine ⟨h.calendar, begun_evaluation h hspec htime.2, ?_, ?_, ?_, ?_,
        silent_evaluation h hfits⟩
      · exact fun copy hc => h.copies copy (List.mem_of_mem_eraseIdx hc)
      · exact fun hactive hlast => (sound_evaluation h hfits hactive hlast).1
      · exact fun hactive hlast => (sound_evaluation h hfits hactive hlast).2
      · intro hactive b' hmem
        rw [Ledger.outbox_evaluateBudget] at hmem
        rcases List.mem_append.mp hmem with hmem | hmem
        · exact h.undeleted hactive b' hmem
        · exact deleted_not_mem_evaluation b' hmem
    · exact h
  · exact h

/-! ### An update and a deletion -/

theorem begun_reset (h : Good prices w) (hstart : start ≤ w.start) (reason : Reason)
    (other : Instant) (state : BudgetState)
    (hmem : (other, state) ∈ (w.ledger.resetState start reason).states) : other ≤ w.start := by
  rcases Table.mem_upsert hmem with hmem | ⟨rfl, -⟩
  · exact h.begun _ _ hmem
  · exact hstart

theorem deleted_not_mem_reset (h : ∀ b, .deleted b ∉ l.outbox) (start : Instant)
    (reason : Reason) (b : Budget) : .deleted b ∉ (l.resetState start reason).outbox := by
  intro hmem
  rcases List.mem_append.mp hmem with hmem | hmem
  · exact h b hmem
  · cases List.mem_singleton.mp hmem

theorem updated_only (b b' : Budget) (limit : ℚ) : Event.deleted b' ∉ [Event.updated b limit] :=
  fun hmem => (nomatch List.mem_singleton.mp hmem)

theorem good_updateBudget (h : Good prices w) {newLimit : Option Double} {newAction : Option Action}
    (hfits : w.Fits prices (.updateBudget newLimit newAction)) :
    Good prices (w.step prices (.updateBudget newLimit newAction)) := by
  obtain ⟨hactive, hfits⟩ := hfits
  have hnone := h.undeleted hactive
  rw [step]
  split
  · next ledger hledger =>
    obtain ⟨b, limit, hspec, hdeleted, ⟨reset, rfl, rfl⟩ | ⟨rfl, hlimit⟩⟩ :=
      Ledger.updateBudget_cases hledger
    all_goals
      have hwindow : b.window = w.ledger.budget.window := congrArg BudgetSpec.window hspec
      have hstart : (windowBounds b.window w.now).windowStart = w.start := by rw [hwindow, start]
    · -- the reset leaves no threshold in the current window
      have hlast : lastThreshold (w.ledger.resetState
          (windowBounds b.window w.now).windowStart .limitRaised).states
          (windowBounds b.window w.now).windowStart = 0 := Ledger.lastThreshold_reset _ _
      have hreset := deleted_not_mem_reset hnone (windowBounds b.window w.now).windowStart
        .limitRaised
      refine ⟨hwindow ▸ h.calendar, fun s state hs => ?_,
        fun copy hc => (h.copies copy hc).trans hspec.symm, fun _ hle => ?_, fun _ hle => ?_,
        fun _ b' hmem => ?_, silent_append hreset (updated_only b · limit)⟩
      · exact (begun_reset h hstart.le .limitRaised s state hs).trans_eq hstart.symm
      · exact absurd (hle.trans_eq hlast) (by decide)
      · exact absurd (hle.trans_eq hlast) (by decide)
      · exact (List.mem_append.mp hmem).elim (hreset b') (updated_only b b' limit)
    · refine ⟨hwindow ▸ h.calendar, fun s state hs => (h.begun s state hs).trans_eq hstart.symm,
        fun copy hc => (h.copies copy hc).trans hspec.symm, fun _ hle => ?_,
        fun _ hle => ?_, fun _ b' hmem => ?_, silent_append hnone (updated_only b · limit)⟩
      · have hle : 100 ≤ w.last := by rwa [last, ← hstart]
        have hsame : w.consumption prices =
            b.consumption prices w.ledger.raw (windowBounds b.window w.now) := by
          rw [consumption, hspec]
        rcases hlimit with hkept | ⟨x, hx, hstored, hraised⟩
        · exact (hkept.le.trans (h.sound hactive hle)).trans_eq hsame
        · rw [hwindow] at hraised
          exact (hstored.le.trans (hfits hle x hx hraised)).trans_eq hsame
      · have hle : 100 ≤ w.last := by rwa [last, ← hstart]
        have hsame : blocked (w.ledger.outbox ++ [.updated b limit]) = blocked w.ledger.outbox := by
          rw [blocked, List.foldl_append]
          rfl
        exact hsame.trans (h.blocked hactive hle)
      · exact (List.mem_append.mp hmem).elim (hnone b') (updated_only b b' limit)
  · exact h

theorem good_deleteBudget (h : Good prices w) (hfits : w.Fits prices .deleteBudget) :
    Good prices (w.step prices .deleteBudget) := by
  have hnone := h.undeleted hfits
  obtain ⟨reset, hreset, heq⟩ := Ledger.deleteBudget_cases w.ledger w.now
  have hquiet : ∀ b, .deleted b ∉ reset.outbox := by
    rcases hreset with rfl | rfl
    · exact hnone
    · exact deleted_not_mem_reset hnone _ _
  rw [step, heq]
  refine ⟨h.calendar, fun s state hs => ?_, h.copies, nofun,
    nofun, nofun,
    (afterDeletion_append hquiet _).trans rfl⟩
  rcases hreset with rfl | rfl
  · exact h.begun s state hs
  · exact begun_reset h le_rfl .budgetDeleted s state hs

theorem good_step (h : Good prices w) {op : BudgetOp} (hfits : w.Fits prices op) :
    Good prices (w.step prices op) := by
  cases op with
  | tick elapsed => exact good_tick h elapsed
  | insertRaw recs => exact good_insertRaw h hfits
  | activeBudgets meterKeys =>
    rw [step]
    split
    · refine ⟨h.calendar, h.begun, fun copy hc => ?_, h.sound, h.blocked, h.undeleted, h.silent⟩
      rcases List.mem_append.mp hc with hc | hc
      · exact h.copies copy hc
      · rw [List.mem_singleton.mp hc]
    · exact h
  | evaluateBudget index now => exact good_evaluateBudget h hfits
  | updateBudget newLimit newAction => exact good_updateBudget h hfits
  | deleteBudget => exact good_deleteBudget h hfits

/-! ## Exactness -/

theorem sweep_eq (hactive : w.ledger.budget.deleted = false) : w.sweep prices =
    { w with ledger := w.ledger.evaluateBudget prices w.ledger.budget w.now w.now } := by
  have hread : w.step prices (.activeBudgets none) =
      { w with pending := w.pending ++ [(w.now, w.ledger.budget)] } := if_pos ⟨hactive, rfl⟩
  rw [sweep, run_cons, run_cons, run_nil, hread, step]
  simp only [List.getElem?_concat_length]
  rw [if_pos ⟨le_rfl, le_rfl⟩, List.eraseIdx_append_of_length_le le_rfl]
  simp

theorem marked_sweep (h : Good prices w) (hactive : w.ledger.budget.deleted = false)
    (hfits : w.FitsSweep prices) : (w.sweep prices).Marked ↔
      (w.sweep prices).ledger.budget.limitValue ≤ (w.sweep prices).consumption prices := by
  obtain ⟨hcopy, hsum⟩ := hfits
  rw [sweep_eq hactive]
  refine ⟨fun hmarked => (sound_evaluation h hcopy hactive hmarked.1).1, fun hover => ?_⟩
  have hdoubles : w.ledger.budget.limit ≤ w.consumed prices := by
    by_cases hmeter : w.ledger.budget.meterKey = usdTotal
    · exact hsum hmeter hover
    · exact limit_le_consumptionTx hmeter hover
  have hpos : 0 < w.ledger.budget.limit := w.ledger.budget.zero_lt_limit
  have hlast : 100 ≤ lastThreshold (w.ledger.evaluateBudget prices w.ledger.budget w.now
      w.now).states w.start := by
    rw [start, Ledger.lastThreshold_evaluateBudget, Ledger.crossing, hundred_le_newLast]
    rcases Nat.lt_or_ge w.last 100 with hlow | hhigh
    · exact .inr (hundred_mem_crossed hpos hlow hdoubles)
    · exact .inl hhigh
  exact ⟨hlast, (sound_evaluation h hcopy hactive hlast).2⟩

end Good

variable {prices} in
/-- Along a run whose evaluations of stale copies do no harm, and whose doubles keep the order
of limit and consumption, the events are exact. -/
theorem budget_exact {b : Budget} {now : Instant} {raw : List MeterRecord} {ops : List BudgetOp}
    (hwindow : b.window ≠ .rolling7d)
    (h : Each (step prices) (Fits prices) (created b now raw) ops) :
    Always (step prices) (Exact prices) (created b now raw) ops := by
  intro done hdone
  have hgood : Good prices (run (step prices) (created b now raw) done) :=
    always_of_each (P := Good prices) (C := Fits prices) (fun _ _ hs hc => good_step hs hc)
      (good_created hwindow now raw) h done hdone
  have honce := @once_always prices b now raw ops done hdone
  exact ⟨fun start => (honce start).1, fun _ => marked_sweep hgood, hgood.silent⟩

/-! ## A daily budget of a tenant -/

/-- A budget of 100 scans a day. -/
def daily : Budget where
  tenantID := Uuid.ofByte 10
  workspaceID := none
  userID := none
  agentID := none
  meterKey := bytes "query_scan"
  window := .calendarDay
  limitMillionths := 100 * 1000000
  actionAt100 := .hardStop
  deleted := false
  limit_pos := by decide

/-- Scans at noon of 1 January 2026. -/
def scans (count : Int) (event : UInt8) : MeterRecord where
  time := firstOf 2026 1 + 12 * hour
  tenantID := Uuid.ofByte 10
  meterKey := bytes "query_scan"
  quantity := count * 1000000
  workspaceID := none
  userID := some (bytes "u-1")
  agentID := none
  model := none
  cloud := bytes "aws"
  eventID := Uuid.ofByte event

def noon : Instant := firstOf 2026 1 + 12 * hour

/-- The evaluation after an ingest is finished before the limit is raised, and the budget is
deleted at the end. -/
theorem budget_exact_in_turn : Always (step fun _ => 0) (Exact fun _ => 0) (created daily noon [])
    [.insertRaw [scans 150 1], .activeBudgets (some [bytes "query_scan"]), .evaluateBudget 0 noon,
      .updateBudget (Double.read false ⟨2, 2⟩) none, .tick 1000000, .insertRaw [scans 100 2],
      .activeBudgets none, .evaluateBudget 0 (noon + 1000000), .deleteBudget] :=
  budget_exact (by decide) (by decide +kernel)

/-- The limit is raised between the read and the evaluation. -/
def raisedBetween : List BudgetOp :=
  [.insertRaw [scans 150 1], .activeBudgets none, .updateBudget (Double.read false ⟨2, 2⟩) none,
    .evaluateBudget 0 noon]

/-- The stale copy exhausts a budget of 200 at 150. -/
theorem stale_copy_exhausts : ¬ ∀ (prices : Bytes → ℚ) (b : Budget) (now : Instant)
    (raw : List MeterRecord) (ops : List BudgetOp), b.window ≠ .rolling7d →
      Always (step prices) (Exact prices) (created b now raw) ops := by
  intro h
  have hexact := h (fun _ => 0) daily noon [] raisedBetween (by decide) raisedBetween
    List.prefix_rfl
  have hmarked : ((run (step fun _ => 0) (created daily noon []) raisedBetween).sweep
      fun _ => 0).Marked := by decide +kernel
  have hover := (hexact.marked (by decide +kernel) (by decide +kernel)
      (by decide +kernel)).mp hmarked
  exact absurd hover (by decide +kernel)

end BudgetWorld

end Windrose.Usage

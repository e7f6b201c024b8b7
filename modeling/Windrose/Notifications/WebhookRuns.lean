/-
  Notifications/WebhookRuns.lean --- when webhook deliveries keep their promises.

  Source: services/notification-service/internal/pipeline/webhook.go,
  internal/worker/worker.go (retryWebhooks).

  A loop writes what it makes of a row that it read before, whatever the row is by then: a
  flush that was started inside the loop may have sent it.  `World.Fits` says of a step that
  it finds the rows as they were read.
-/
import Windrose.Foundation.Runs
import Windrose.Notifications.Webhooks

set_option autoImplicit false

namespace Windrose.Notifications

open Windrose.Foundation

namespace World

/-! ## What is promised -/

/-- The requests that were sent for a delivery. -/
def sends (w : World) (id : Nat) : Nat := w.requests.countP (·.id = id)

/-- A request to an endpoint that may be sent one. -/
def Request.Allowed (q : Request) : Prop :=
  q.endpoint.active = true ∧ q.endpoint.circuitState ≠ .disabled ∧
    (q.endpoint.circuitState = .opened → openFor q.endpoint q.time probeInterval = true)

/-- What is promised of a state. -/
structure Sound (w : World) : Prop where
  /-- None is sent while the circuit is open and its probe is not due, nor after the endpoint
  was disabled or deactivated. -/
  requests : ∀ q ∈ w.requests, Request.Allowed q
  /-- An endpoint whose circuit has not closed for `DisableAfter` is disabled. -/
  disabled : w.overdue = false
  accepted : w.accepted.Nodup
  sent : ∀ id, w.sends id ≤ retrySchedule.length + 1
  /-- What was delivered or failed is not queued. -/
  settled : ∀ id ∈ w.settled, ∃ d, w.deliveries.find id = some d ∧ d.status ≠ .queued

/-- The row is as the loop has read it. -/
def Current (w : World) (c : Copy) : Prop :=
  ∃ d, w.deliveries.find c.id = some d ∧ d.status = .queued ∧ d.attempts = c.attempts

/-- The row that a sweep has come to: the endpoint is disabled by it, or the row is current
and the endpoint is active. -/
structure FitsSweep (w : World) (now : Nat) (c : Copy) : Prop where
  row : openFor w.endpoint now disableAfter = false →
    w.Current c ∧ w.endpoint.active = true ∧ w.endpoint.circuitState ≠ .disabled
  /-- No probe failed since the circuit first opened, or the last one is long ago too. -/
  probes : w.firstOpened.any (· + disableAfter ≤ now) = true →
    ∀ o, w.endpoint.circuitOpenedAt = some o → o + disableAfter ≤ now

/-- The row that the innermost loop has come to. -/
def FitsNext (w : World) : Prop :=
  match w.flushes, w.sweep with
  | (c :: _) :: _, _ => w.Current c
  | [], some (now, c :: _) => w.FitsSweep now c
  | _, _ => True

/-- The condition on one step. -/
def Fits (w : World) : Op → Prop
  | .next _ _ _ => w.FitsNext
  | _ => True

/-! ## The invariant -/

/-- The requests, the row and the logs of a delivery go together. -/
def Consistent (w : World) (id : Nat) : Prop :=
  match w.deliveries.find id with
  | none => w.sends id = 0 ∧ id ∉ w.accepted ∧ id ∉ w.settled
  | some d => w.sends id ≤ retrySchedule.length + 1 ∧ (d.status = .queued →
      w.sends id = d.attempts ∧ d.attempts ≤ retrySchedule.length ∧ id ∉ w.accepted ∧
        id ∉ w.settled)

/-- The circuit of the row, and since when it has not been closed. -/
def CircuitKept (ep : Endpoint) (firstOpened : Option Nat) : Prop :=
  (ep.circuitState = .closed ∧ firstOpened = none) ∨
    (ep.circuitState = .opened ∧ ep.circuitOpenedAt.isSome = true) ∨ ep.circuitState = .disabled

/-- The endpoint may get requests. -/
def Live (ep : Endpoint) : Prop := ep.active = true ∧ ep.circuitState ≠ .disabled

/-- The invariant. -/
structure Good (w : World) : Prop where
  requests : ∀ q ∈ w.requests, Request.Allowed q
  disabled : w.overdue = false
  accepted : w.accepted.Nodup
  rows : ∀ id, w.Consistent id
  circuit : CircuitKept w.endpoint w.firstOpened
  /-- The calls of a flush have the row itself in their copy. -/
  flushing : w.flushes ≠ [] → w.ep = w.endpoint ∧ Live w.endpoint
  sweeping : ∀ now cs, w.sweep = some (now, cs) → now ≤ w.clock

theorem Good.sound {w : World} (h : Good w) : Sound w where
  requests := h.requests
  disabled := h.disabled
  accepted := h.accepted
  sent id := by
    have hrow := h.rows id
    rw [Consistent] at hrow
    split at hrow
    · rw [hrow.1]
      exact Nat.zero_le _
    · exact hrow.1
  settled id hid := by
    have hrow := h.rows id
    rw [Consistent] at hrow
    split at hrow
    · exact absurd hid hrow.2.2
    · next d hd => exact ⟨d, hd, fun hq => (hrow.2 hq).2.2.2 hid⟩

/-! ## Writing a row -/

variable {w : World} {id : Nat} {status : Status} {attempts : Nat} {next : Option Nat}

theorem find_updateDeliveryStatus (w : World) (id : Nat) (status : Status) (attempts : Nat)
    (next : Option Nat) (id' : Nat) :
    (w.updateDeliveryStatus id status attempts next).deliveries.find id' =
      if id' = id then (w.deliveries.find id').map fun _ => ⟨status, attempts, next⟩
      else w.deliveries.find id' := by
  refine (Table.find_update (fun k d => if k = id then ⟨status, attempts, next⟩ else d)
    w.deliveries id').trans ?_
  split
  · rfl
  · exact Option.map_id'

theorem consistent_of_find {w' : World} {id' : Nat} (h : w.Consistent id')
    (hfind : w'.deliveries.find id' = w.deliveries.find id') (hsends : w'.sends id' = w.sends id')
    (haccepted : id' ∈ w'.accepted ↔ id' ∈ w.accepted)
    (hsettled : id' ∈ w'.settled ↔ id' ∈ w.settled) : w'.Consistent id' := by
  rw [Consistent] at h ⊢
  rw [hfind, hsends, haccepted, hsettled]
  exact h

variable {d : Delivery} {now attempt latency : Nat} {answer : Answer} {c : Copy}

theorem consistent_of_queued (hfind : w.deliveries.find id = some d)
    (hsends : w.sends id = d.attempts) (hmax : d.attempts ≤ retrySchedule.length)
    (haccepted : id ∉ w.accepted) (hsettled : id ∉ w.settled) : w.Consistent id := by
  rw [Consistent, hfind]
  exact ⟨hsends ▸ Nat.le_succ_of_le hmax, fun _ => ⟨hsends, hmax, haccepted, hsettled⟩⟩

theorem consistent_of_settled (hfind : w.deliveries.find id = some d)
    (hstatus : d.status ≠ .queued) (hmax : w.sends id ≤ retrySchedule.length + 1) :
    w.Consistent id := by
  rw [Consistent, hfind]
  exact ⟨hmax, fun hq => absurd hq hstatus⟩

theorem Consistent.queued (h : w.Consistent id)
    (hd : w.deliveries.find id = some d) (hq : d.status = .queued) :
    w.sends id = d.attempts ∧ d.attempts ≤ retrySchedule.length ∧ id ∉ w.accepted ∧
      id ∉ w.settled := by
  rw [Consistent, hd] at h
  exact h.2 hq

theorem consistent_update_of_ne {id' : Nat} (hne : id' ≠ id) (h : w.Consistent id') :
    (w.updateDeliveryStatus id status attempts next).Consistent id' := by
  refine consistent_of_find h ?_ rfl .rfl ?_
  · rw [find_updateDeliveryStatus, if_neg hne]
  · rw [updateDeliveryStatus]
    split
    · exact .rfl
    · rw [List.mem_cons]
      exact or_iff_right hne

theorem sends_cons (q : Request) (id : Nat) :
    { w with requests := q :: w.requests }.sends id = w.sends id + if q.id = id then 1 else 0 := by
  rw [sends, List.countP_cons]
  simp [sends]

theorem good_requeue (hw : Good w) (hd : w.deliveries.find id = some d)
    (hq : d.status = .queued) : Good (w.updateDeliveryStatus id .queued d.attempts next) where
  requests := hw.requests
  disabled := hw.disabled
  accepted := hw.accepted
  rows id' := by
    by_cases hid : id' = id
    · subst hid
      obtain ⟨hsends, hmax, haccepted, hsettled⟩ := (hw.rows id').queued hd hq
      refine consistent_of_queued (d := ⟨.queued, d.attempts, next⟩)
        ?_ hsends hmax haccepted hsettled
      rw [find_updateDeliveryStatus, if_pos rfl, hd]
      rfl
    · exact consistent_update_of_ne hid (hw.rows id')
  circuit := hw.circuit
  flushing := hw.flushing
  sweeping := hw.sweeping

/-! ## One attempt -/

/-- The copy is the row, or the row with a probe that is due. -/
def Carried (w : World) : Prop :=
  w.ep = w.endpoint ∨ w.endpoint.circuitState = .opened ∧
    openFor w.endpoint w.clock probeInterval = true ∧
    w.ep = { w.endpoint with circuitState := .halfOpen }

theorem Carried.active (h : w.Carried) : w.ep.active = w.endpoint.active := by
  rcases h with h | ⟨-, -, h⟩ <;> rw [h]

theorem Carried.state (h : w.Carried) (hcircuit : CircuitKept w.endpoint w.firstOpened)
    (hlive : Live w.endpoint) (hnot : w.ep.circuitState ≠ .opened) :
    (w.ep.circuitState = .closed ∧ w.endpoint.circuitState = .closed ∧ w.firstOpened = none) ∨
      w.ep.circuitState = .halfOpen ∧ openFor w.endpoint w.clock probeInterval = true := by
  rcases h with h | ⟨-, hdue, h⟩
  · rw [h] at hnot ⊢
    rcases hcircuit with ⟨hclosed, hnone⟩ | ⟨hopen, -⟩ | hdisabled
    · exact .inl ⟨hclosed, hclosed, hnone⟩
    · exact absurd hopen hnot
    · exact absurd hdisabled hlive.2
  · exact .inr ⟨by rw [h], hdue⟩

theorem allowed_of_carried (h : w.Carried) (hlive : Live w.endpoint)
    (hnot : w.ep.circuitState ≠ .opened) : Request.Allowed ⟨id, w.clock, w.endpoint⟩ := by
  refine ⟨hlive.1, hlive.2, fun hopen => ?_⟩
  rcases h with h | ⟨-, hdue, -⟩
  · exact absurd (h ▸ hopen) hnot
  · exact hdue

theorem nextRetryAt_eq_some {next : Nat} (h : nextRetryAt now attempt = some next) :
    attempt ≤ retrySchedule.length := by
  rw [nextRetryAt] at h
  split at h
  · cases h
  · obtain ⟨_, hget, -⟩ := Option.map_eq_some_iff.mp h
    obtain ⟨hlt, -⟩ := List.getElem?_eq_some_iff.mp hget
    omega

theorem sends_sent (w : World) (id latency id' : Nat) :
    (w.sent id latency).sends id' = w.sends id' + if id = id' then 1 else 0 :=
  sends_cons ⟨id, w.clock, w.endpoint⟩ id'

theorem consistent_delivered (hw : Good w)
    (hd : w.deliveries.find id = some d) (hq : d.status = .queued) (id' : Nat) :
    ({ w.sent id latency with accepted := id :: w.accepted }.updateDeliveryStatus
      id .delivered attempt none).Consistent id' := by
  by_cases hid : id' = id
  · subst hid
    obtain ⟨hsends, hmax, -, -⟩ := (hw.rows id').queued hd hq
    refine consistent_of_settled (d := ⟨.delivered, attempt, none⟩) ?_ nofun ?_
    · rw [find_updateDeliveryStatus, if_pos rfl]
      exact congrArg (Option.map fun _ => _) hd
    · refine (sends_sent w id' latency id').trans_le ?_
      rw [if_pos rfl, hsends]
      exact Nat.succ_le_succ hmax
  · refine consistent_update_of_ne hid (consistent_of_find (hw.rows id') rfl ?_ ?_ .rfl)
    · refine (sends_sent w id latency id').trans ?_
      rw [if_neg (Ne.symm hid)]
      rfl
    · exact List.mem_cons.trans (or_iff_right hid)

theorem consistent_failed (hw : Good w)
    (hd : w.deliveries.find id = some d) (hq : d.status = .queued) (id' : Nat) :
    ((w.sent id latency).onWebhookFailure id (d.attempts + 1)).Consistent id' := by
  obtain ⟨hsends, hmax, haccepted, hsettled⟩ := (hw.rows id).queued hd hq
  show ((w.sent id latency).updateDeliveryStatus id _ _ _).Consistent id'
  have hcount : ∀ status next, ((w.sent id latency).updateDeliveryStatus id status (d.attempts + 1)
      next).sends id = d.attempts + 1 := by
    intro status next
    refine (sends_sent w id latency id).trans ?_
    rw [if_pos rfl, hsends]
  have hfind : ∀ status next, ((w.sent id latency).updateDeliveryStatus id status (d.attempts + 1)
      next).deliveries.find id = some ⟨status, d.attempts + 1, next⟩ := by
    intro status next
    rw [find_updateDeliveryStatus, if_pos rfl]
    exact congrArg (Option.map fun _ => _) hd
  by_cases hid : id' = id
  · subst hid
    cases hnext : nextRetryAt (w.sent id' latency).clock (d.attempts + 1) with
    | some next =>
      exact consistent_of_queued (hfind .queued (some next)) (hcount .queued (some next))
        (nextRetryAt_eq_some hnext) haccepted hsettled
    | none =>
      refine consistent_of_settled (hfind .failed none) nofun ?_
      exact (hcount .failed none).trans_le (Nat.succ_le_succ hmax)
  · have hother : (w.sent id latency).Consistent id' := by
      refine consistent_of_find (hw.rows id') rfl ?_ .rfl .rfl
      rw [sends_sent, if_neg (Ne.symm hid)]
      rfl
    exact consistent_update_of_ne hid hother

theorem failureCounted_kept {ep : Endpoint} (now : Nat) {firstOpened : Option Nat}
    (h : (ep.circuitState = .closed ∧ firstOpened = none) ∨ ep.circuitState = .halfOpen) :
    CircuitKept (failureCounted (probeFailed ep now) now)
        (if opens (probeFailed ep now) then some now else firstOpened) ∧
      (failureCounted (probeFailed ep now) now).circuitState ≠ .disabled ∧
      (failureCounted (probeFailed ep now) now).active = ep.active := by
  rcases h with ⟨hclosed, hnone⟩ | hhalf
  · have hprobe : probeFailed ep now = ep := if_neg (by rw [hclosed]; exact fun h => nomatch h)
    have hdisabled : ep.circuitState ≠ .disabled := by
      rw [hclosed]
      exact nofun
    rw [hprobe, failureCounted]
    by_cases hopens : opens ep = true
    · rw [if_pos hopens, if_pos hopens]
      exact ⟨.inr (.inl ⟨rfl, rfl⟩), nofun, rfl⟩
    · rw [if_neg hopens, if_neg hopens]
      exact ⟨.inl ⟨hclosed, hnone⟩, hdisabled, rfl⟩
  · have hprobe : probeFailed ep now =
        { ep with circuitState := .opened, circuitOpenedAt := some now } := if_pos hhalf
    have hopens : opens (probeFailed ep now) = false := by rw [hprobe, opens]; rfl
    rw [failureCounted, hopens, hprobe]
    exact ⟨.inr (.inl ⟨rfl, rfl⟩), nofun, rfl⟩

theorem good_refused (hw : Good w) (hcarried : w.Carried)
    (hlive : Live w.endpoint) (hd : w.deliveries.find id = some d) (hq : d.status = .queued)
    (hnot : w.ep.circuitState ≠ .opened) :
    Good ((w.sent id latency).onWebhookFailure id (d.attempts + 1)) := by
  have hstate : (w.ep.circuitState = .closed ∧ w.firstOpened = none) ∨
      w.ep.circuitState = .halfOpen :=
    (hcarried.state hw.circuit hlive hnot).imp (fun h => ⟨h.1, h.2.2⟩) And.left
  obtain ⟨hkept, hdisabled, hactive⟩ := failureCounted_kept (w.sent id latency).clock hstate
  exact {
    requests := fun q hq => by
      rcases List.mem_cons.mp hq with rfl | hq
      · exact allowed_of_carried hcarried hlive hnot
      · exact hw.requests q hq
    disabled := hw.disabled
    accepted := hw.accepted
    rows := consistent_failed hw hd hq
    circuit := hkept
    flushing := fun _ => ⟨rfl, hactive.trans (hcarried.active.trans hlive.1), hdisabled⟩
    sweeping := fun now cs h => (hw.sweeping now cs h).trans (Nat.le_add_right _ _) }

theorem good_accepted (hw : Good w) (hcarried : w.Carried)
    (hlive : Live w.endpoint) (hd : w.deliveries.find id = some d) (hq : d.status = .queued)
    (hnot : w.ep.circuitState ≠ .opened) :
    Good (({ w.sent id latency with accepted := id :: w.accepted }.updateDeliveryStatus
      id .delivered attempt none).onWebhookSuccess id) := by
  have hbase : Good ({ w.sent id latency with accepted := id :: w.accepted }.updateDeliveryStatus
      id .delivered attempt none) := {
    requests := fun q hq => by
      rcases List.mem_cons.mp hq with rfl | hq
      · exact allowed_of_carried hcarried hlive hnot
      · exact hw.requests q hq
    disabled := hw.disabled
    accepted := List.nodup_cons.mpr ⟨((hw.rows id).queued hd hq).2.2.1, hw.accepted⟩
    rows := consistent_delivered hw hd hq
    circuit := hw.circuit
    flushing := hw.flushing
    sweeping := fun now cs h => (hw.sweeping now cs h).trans (Nat.le_add_right _ _) }
  rw [onWebhookSuccess]
  split
  · exact hbase
  · exact {
      requests := hbase.requests
      disabled := hbase.disabled
      accepted := hbase.accepted
      rows := hbase.rows
      circuit := .inl ⟨rfl, rfl⟩
      flushing := fun _ => ⟨rfl, hcarried.active.trans hlive.1, nofun⟩
      sweeping := hbase.sweeping }

theorem good_attempt (hw : Good w)
    (hcarried : w.Carried) (hlive : Live w.endpoint) (hd : w.deliveries.find id = some d)
    (hq : d.status = .queued) : Good (w.attemptWebhook id (d.attempts + 1) answer latency) := by
  rw [attemptWebhook.eq_def]
  split
  · exact good_requeue hw hd hq
  · next hnot =>
    cases answer with
    | limited => exact good_requeue hw hd hq
    | accepted => exact good_accepted hw hcarried hlive hd hq hnot
    | refused => exact good_refused hw hcarried hlive hd hq hnot

/-! ## One step -/

theorem good_after (hw : Good w) (wait : Nat) : Good (w.after wait) where
  requests := hw.requests
  disabled := hw.disabled
  accepted := hw.accepted
  rows := hw.rows
  circuit := hw.circuit
  flushing := hw.flushing
  sweeping now cs h := (hw.sweeping now cs h).trans (Nat.le_add_right _ _)

theorem good_deliverWebhooks (hw : Good w)
    (hidle : w.flushes = []) : Good (w.deliverWebhooks id answer latency) := by
  rw [deliverWebhooks]
  split
  · next hlive =>
    split
    · exact hw
    · next hnone =>
      have hfind : (w.deliveries.upsert id ⟨.queued, 0, some w.clock⟩ fun d => d).find id =
          some ⟨.queued, 0, some w.clock⟩ := by
        rw [Table.find_upsert, hnone]
        rfl
      have hrow := hw.rows id
      rw [Consistent, hnone] at hrow
      refine good_attempt (d := ⟨.queued, 0, some w.clock⟩) ?_ (.inl rfl) hlive hfind rfl
      exact {
        requests := hw.requests
        disabled := hw.disabled
        accepted := hw.accepted
        rows := fun id' => by
          by_cases hid : id' = id
          · subst hid
            exact consistent_of_queued hfind hrow.1 (Nat.zero_le _) hrow.2.1 hrow.2.2
          · exact consistent_of_find (hw.rows id') (Table.find_upsert_of_ne hid) rfl .rfl .rfl
        circuit := hw.circuit
        flushing := fun h => absurd hidle h
        sweeping := hw.sweeping }
  · exact hw

theorem good_retryWebhook (hw : Good w)
    (hidle : w.flushes = []) (hnow : now ≤ w.clock) (hfits : w.FitsSweep now c) :
    Good (w.retryWebhook now c answer latency) := by
  rw [retryWebhook]
  split
  · exact { hw with
      rows := hw.rows
      circuit := .inr (.inr rfl)
      flushing := fun h => absurd hidle h }
  · next hexpired =>
    obtain ⟨⟨d, hd, hq, hattempts⟩, hactive, hdisabled⟩ := hfits.row (Bool.not_eq_true _ ▸ hexpired)
    rw [← hattempts]
    refine good_attempt (w := { w with ep := _ }) { hw with
      rows := hw.rows
      flushing := fun h => absurd hidle h } ?_ ⟨hactive, hdisabled⟩ hd hq
    split
    · next hdue =>
      have hlater : openFor w.endpoint w.clock probeInterval = true := by
        rw [openFor, Bool.and_eq_true] at hdue ⊢
        refine ⟨hdue.1, ?_⟩
        obtain ⟨o, ho, hle⟩ := (Option.any_eq_true _ _).mp hdue.2
        exact (Option.any_eq_true _ _).mpr ⟨o, ho,
          decide_eq_true ((of_decide_eq_true hle).trans hnow)⟩
      rw [openFor, Bool.and_eq_true] at hdue
      exact .inr ⟨of_decide_eq_true hdue.1, hlater, rfl⟩
    · exact .inl rfl

theorem passesOver_eq_false (hw : Good w) (hfits : w.FitsSweep now c) :
    w.passesOver now (w.retryWebhook now c answer latency) = false := by
  rw [passesOver]
  cases hlong : w.firstOpened.any (· + disableAfter ≤ now) with
  | false => rfl
  | true =>
    rcases hw.circuit with ⟨-, hnone⟩ | ⟨hopen, hsome⟩ | hdisabled
    · rw [hnone] at hlong
      cases hlong
    · obtain ⟨o, ho⟩ := Option.isSome_iff_exists.mp hsome
      have hexpired : openFor w.endpoint now disableAfter = true := by
        rw [openFor, hopen, ho, Option.any_some, Bool.and_eq_true]
        exact ⟨rfl, decide_eq_true (hfits.probes hlong o ho)⟩
      rw [retryWebhook, if_pos hexpired]
      exact Bool.and_false _
    · rw [hdisabled]
      rfl

theorem next_flush {cs : List Copy} {rest : List (List Copy)}
    (h : w.flushes = (c :: cs) :: rest) : w.next answer latency =
      { w with flushes := cs :: rest }.attemptWebhook c.id (c.attempts + 1) answer latency := by
  rw [World.next.eq_def, h]

theorem next_sweep {cs : List Copy} (hidle : w.flushes = []) (h : w.sweep = some (now, c :: cs)) :
    let w' := { w with sweep := some (now, cs) }
    w.next answer latency = { w'.retryWebhook now c answer latency with
      overdue := w.overdue || w'.passesOver now (w'.retryWebhook now c answer latency) } := by
  rw [World.next.eq_def]
  split <;> simp_all

theorem good_next (hw : Good w) (hfits : w.FitsNext) : Good (w.next answer latency) := by
  cases hflushes : w.flushes with
  | cons todo rest =>
    have hbusy : w.flushes ≠ [] := by
      rw [hflushes]
      exact List.cons_ne_nil _ _
    cases todo with
    | cons c cs =>
      obtain ⟨hsame, hlive⟩ := hw.flushing hbusy
      rw [FitsNext, hflushes] at hfits
      obtain ⟨d, hd, hq, hattempts⟩ := hfits
      rw [next_flush hflushes, ← hattempts]
      exact good_attempt (w := { w with flushes := cs :: rest })
        { hw with rows := hw.rows, flushing := fun _ => ⟨hsame, hlive⟩ } (.inl hsame) hlive hd hq
    | nil =>
      rw [World.next.eq_def, hflushes]
      exact { hw with rows := hw.rows, flushing := fun _ => hw.flushing hbusy }
  | nil =>
    cases hsweep : w.sweep with
    | none =>
      rw [World.next.eq_def, hflushes, hsweep]
      exact hw
    | some sweep =>
      obtain ⟨now, todo⟩ := sweep
      cases todo with
      | nil =>
        rw [World.next.eq_def, hflushes, hsweep]
        exact { hw with
          rows := hw.rows
          flushing := fun h => absurd rfl h
          sweeping := nofun }
      | cons c cs =>
        have hrest : Good { w with sweep := some (now, cs) } := { hw with
          rows := hw.rows
          sweeping := fun now' cs' h => by
            cases h
            exact hw.sweeping now _ hsweep }
        rw [FitsNext, hflushes, hsweep] at hfits
        have hitem : FitsSweep { w with sweep := some (now, cs) } now c := ⟨hfits.row, hfits.probes⟩
        have hafter : Good (retryWebhook { w with sweep := some (now, cs) } now c answer
            latency) := good_retryWebhook hrest hflushes (hw.sweeping now _ hsweep) hitem
        rw [next_sweep hflushes hsweep]
        refine { hafter with rows := hafter.rows, disabled := ?_ }
        exact Bool.or_eq_false_iff.mpr ⟨hw.disabled, passesOver_eq_false hrest hitem⟩

theorem idle_iff : w.idle = true ↔ w.sweep = none ∧ w.flushes = [] := by
  rw [idle, Bool.and_eq_true, Option.isNone_iff_eq_none, List.isEmpty_iff]

theorem good_step (op : Op) (hw : Good w) (hfits : w.Fits op) : Good (w.step op) := by
  cases op with
  | event wait id answer latency =>
    rw [step]
    split
    · next hidle => exact good_deliverWebhooks (good_after hw wait) (idle_iff.mp hidle).2
    · exact hw
  | sweep wait limit =>
    rw [step]
    split
    · have hafter := good_after hw wait
      refine { hafter with rows := hafter.rows, sweeping := fun now cs h => ?_ }
      cases h
      exact Nat.le_refl _
    · exact hw
  | next wait answer latency =>
    have hnext : (w.after wait).FitsNext := by
      rw [Fits, FitsNext] at hfits
      rw [FitsNext]
      show match w.flushes, w.sweep with
        | (c :: _) :: _, _ => (w.after wait).Current c
        | [], some (now, c :: _) => (w.after wait).FitsSweep now c
        | _, _ => True
      split at hfits
      · exact hfits
      · exact ⟨hfits.row, hfits.probes⟩
      · trivial
    exact good_next (good_after hw wait) hnext
  | setActive active =>
    rw [step]
    split
    · next hidle =>
      exact { hw with
        rows := hw.rows
        flushing := fun h => absurd (idle_iff.mp hidle).2 h }
    · exact hw

/-! ## Runs -/

theorem good_registered (clock : Nat) (active : Bool) : Good (registered clock active) where
  requests _ h := nomatch h
  disabled := rfl
  accepted := List.nodup_nil
  rows _ := ⟨rfl, List.not_mem_nil, List.not_mem_nil⟩
  circuit := .inl ⟨rfl, rfl⟩
  flushing h := absurd rfl h
  sweeping _ _ h := nomatch h

/-- From its registration on, an endpoint gets no request that it must not get, each delivery
is sent and accepted as often as it may be and stays settled, and the deadline is kept, as
long as the loops come to rows that are as they read them. -/
theorem webhooks_exact (clock : Nat) (active : Bool) (ops : List Op)
    (h : Each step Fits (registered clock active) ops) :
    Always step Sound (registered clock active) ops := by
  have hgood := always_of_each (P := Good) (C := Fits) (fun w op hw hfits => good_step op hw hfits)
    (good_registered clock active) h
  exact fun done hdone => (hgood done hdone).sound

/-- A delivery that is refused once and then accepted. -/
theorem webhooks_exact_retried : let ops : List Op :=
      [.event 0 1 .refused 1, .sweep 60 128, .next 0 .accepted 1, .next 0 .accepted 0]
    Always step Sound (registered 0 true) ops ∧
      (run step (registered 0 true) ops).accepted = [1] := by
  refine ⟨webhooks_exact 0 true _ ?_, by decide⟩
  refine each_cons.mpr ⟨trivial, each_cons.mpr ⟨trivial, each_cons.mpr ⟨?_, each_cons.mpr
    ⟨trivial, each_nil _⟩⟩⟩⟩
  exact ⟨fun _ => ⟨⟨⟨.queued, 1, some 61⟩, by decide⟩, by decide⟩,
    fun h => absurd h (by decide)⟩

/-- Two deliveries are due.  The first is accepted, and the flush that it starts sends the
second one; then the sweep comes to the second one and sends it again. -/
theorem flushed_delivery_accepted_twice : ¬ ∀ (clock : Nat) (active : Bool) (ops : List Op),
      Always step Sound (registered clock active) ops := by
  intro h
  let ops : List Op :=
    [.event 0 1 .refused 0, .event 0 2 .refused 0, .sweep 60 128, .next 0 .accepted 0,
      .next 0 .accepted 0, .next 0 .accepted 0, .next 0 .accepted 0]
  have haccepted : (run step (registered 0 true) ops).accepted = [2, 2, 1] := by decide
  have hnodup := (h 0 true ops ops List.prefix_rfl).accepted
  rw [haccepted] at hnodup
  exact absurd hnodup (by decide)

end World

end Windrose.Notifications

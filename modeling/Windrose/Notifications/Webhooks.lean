/-
  Notifications/Webhooks.lean --- webhook deliveries to one endpoint.

  Source: services/notification-service/internal/pipeline/webhook.go,
  internal/worker/worker.go (retryWebhooks), internal/channels/webhook/sender.go,
  internal/store/deliveries.go, internal/store/webhooks.go.

  A sweep and a flush are loops over rows that were read before (`Copy`), and a success
  inside a loop starts a flush of its own.  The loops under way are kept in the state:
  `flushes` is the stack of the flushes, over the sweep; `ep` is the copy of the endpoint
  that their calls share.  One step handles one row, and the endpoint's answer comes with
  it.  Times are seconds.

  The ghosts are the requests that were sent, each with the endpoint's row at that time,
  the accepted and the settled deliveries, the time from which the circuit has not been
  closed, and whether a sweep passed over an endpoint that was due to be disabled.
-/
import Mathlib.Data.List.Sort
import Windrose.Foundation.Upsert

set_option autoImplicit false

namespace Windrose.Notifications

open Windrose.Foundation

/-! ## Rows -/

/-- `circuit_state`.  Half open is only ever in a copy. -/
inductive Circuit where
  | closed | opened | halfOpen | disabled
  deriving DecidableEq

/-- The row of the endpoint. -/
structure Endpoint where
  active : Bool
  circuitState : Circuit
  circuitOpenedAt : Option Nat
  consecutiveFailures : Nat
  deriving DecidableEq

/-- The status of a delivery. -/
inductive Status where
  | queued | delivered | failed
  deriving DecidableEq

/-- A row of the deliveries. -/
structure Delivery where
  status : Status
  attempts : Nat
  nextRetryAt : Option Nat
  deriving DecidableEq

/-- A delivery as a loop has read it. -/
structure Copy where
  id : Nat
  attempts : Nat
  deriving DecidableEq

/-- What comes of an attempt: the rate limiter, or the endpoint's response. -/
inductive Answer where
  | limited | accepted | refused
  deriving DecidableEq

/-! ## Constants -/

/-- `RetrySchedule`. -/
def retrySchedule : List Nat := [60, 5 * 60, 30 * 60, 2 * 3600, 6 * 3600, 24 * 3600]

/-- `CircuitOpenThreshold`. -/
def circuitOpenThreshold : Nat := 10

/-- `ProbeInterval`. -/
def probeInterval : Nat := 15 * 60

/-- `DisableAfter`. -/
def disableAfter : Nat := 72 * 3600

/-- `NextRetryAt`. -/
def nextRetryAt (now attempts : Nat) : Option Nat :=
  if attempts < 1 then none else (retrySchedule[attempts - 1]?).map (now + ·)

/-- The first probe time, in steps of `ProbeInterval` from the opening, that is not before
`now`. -/
def probeAt (ep : Endpoint) (now : Nat) : Nat :=
  match ep.circuitOpenedAt with
  | none => now + probeInterval
  | some o => o + probeInterval * max 1 ((now - o + probeInterval - 1) / probeInterval)

/-! ## The state -/

/-- A request, with the endpoint's row when it was sent. -/
structure Request where
  id : Nat
  time : Nat
  endpoint : Endpoint
  deriving DecidableEq

/-- The rows, the loops and the ghosts. -/
structure World where
  clock : Nat
  endpoint : Endpoint
  deliveries : Table Nat Delivery := []
  ep : Endpoint := endpoint
  sweep : Option (Nat × List Copy) := none
  flushes : List (List Copy) := []
  requests : List Request := []
  accepted : List Nat := []
  settled : List Nat := []
  firstOpened : Option Nat := none
  overdue : Bool := false

/-- An endpoint as it is registered. -/
def World.registered (clock : Nat) (active : Bool) : World :=
  { clock, endpoint := ⟨active, .closed, none, 0⟩ }

namespace World

/-- No call is under way. -/
def idle (w : World) : Bool := w.sweep.isNone && w.flushes.isEmpty

/-- `UpdateDeliveryStatus`: whatever the row was before. -/
def updateDeliveryStatus (w : World) (id : Nat) (status : Status) (attempts : Nat)
    (next : Option Nat) : World :=
  { w with
    deliveries := w.deliveries.update fun k d => if k = id then ⟨status, attempts, next⟩ else d
    settled := if status = .queued then w.settled else id :: w.settled }

/-- `UpdateWebhook`: the row becomes the copy. -/
def updateWebhook (w : World) (ep : Endpoint) : World := { w with endpoint := ep, ep := ep }

/-- The queued rows, as they are read now, in the order of the events. -/
def queuedForEndpoint (w : World) : List Copy :=
  ((w.deliveries.filter (·.2.status = .queued)).insertionSort (·.1 ≤ ·.1)).map
    fun row => ⟨row.1, row.2.attempts⟩

/-- A circuit that was not closed, or had failures, closes, and a flush starts. -/
def onWebhookSuccess (w : World) (id : Nat) : World :=
  if w.ep.circuitState = .closed ∧ w.ep.consecutiveFailures = 0 then w
  else
    let w := w.updateWebhook
      { w.ep with circuitState := .closed, circuitOpenedAt := none, consecutiveFailures := 0 }
    { w with
      firstOpened := none
      flushes := (w.queuedForEndpoint.filter (·.id ≠ id)) :: w.flushes }

/-- A failed probe opens the circuit anew. -/
def probeFailed (ep : Endpoint) (now : Nat) : Endpoint :=
  if ep.circuitState = .halfOpen then
    { ep with circuitState := .opened, circuitOpenedAt := some now }
  else ep

/-- Does one more failure open the circuit? -/
def opens (ep : Endpoint) : Bool :=
  ep.circuitState = .closed && circuitOpenThreshold ≤ ep.consecutiveFailures + 1

def failureCounted (ep : Endpoint) (now : Nat) : Endpoint :=
  let counted : Endpoint := { ep with consecutiveFailures := ep.consecutiveFailures + 1 }
  if opens ep then { counted with circuitState := .opened, circuitOpenedAt := some now }
  else counted

/-- The retry is scheduled, or the delivery fails; the failure is counted. -/
def onWebhookFailure (w : World) (id attempt : Nat) : World :=
  let ep := probeFailed w.ep w.clock
  let next := nextRetryAt w.clock attempt
  let w := w.updateDeliveryStatus id (if next.isSome then .queued else .failed) attempt next
  { w.updateWebhook (failureCounted ep w.clock) with
    firstOpened := if opens ep then some w.clock else w.firstOpened }

/-- The request goes out, and its response comes `latency` later. -/
def sent (w : World) (id latency : Nat) : World :=
  { w with
    requests := ⟨id, w.clock, w.endpoint⟩ :: w.requests
    clock := w.clock + latency }

/-- `AttemptWebhook`. -/
def attemptWebhook (w : World) (id attempt : Nat) (answer : Answer) (latency : Nat) : World :=
  if w.ep.circuitState = .opened then
    w.updateDeliveryStatus id .queued (attempt - 1) (some (probeAt w.ep w.clock))
  else match answer with
    | .limited => w.updateDeliveryStatus id .queued (attempt - 1) (some (w.clock + 1))
    | .accepted =>
      ({ w.sent id latency with accepted := id :: w.accepted }.updateDeliveryStatus
        id .delivered attempt none).onWebhookSuccess id
    | .refused => (w.sent id latency).onWebhookFailure id attempt

/-- `deliverWebhooks`, of an event that the endpoint subscribes to. -/
def deliverWebhooks (w : World) (id : Nat) (answer : Answer) (latency : Nat) : World :=
  -- `ActiveWebhooksForEvent`
  if w.endpoint.active = true ∧ w.endpoint.circuitState ≠ .disabled then
    match w.deliveries.find id with
    | some _ => w
    | none =>
      { w with
        deliveries := w.deliveries.upsert id ⟨.queued, 0, some w.clock⟩ fun d => d
        ep := w.endpoint }.attemptWebhook id 1 answer latency
  else w

/-- `DueWebhookDeliveries`, of which this endpoint's part is `limit` rows long. -/
def dueDeliveries (w : World) (limit : Nat) : List Copy :=
  (((w.deliveries.filter fun row =>
    row.2.status = .queued ∧ row.2.nextRetryAt.any (· ≤ w.clock)).insertionSort
      fun a b => a.2.nextRetryAt.getD 0 ≤ b.2.nextRetryAt.getD 0).take limit).map
    fun row => ⟨row.1, row.2.attempts⟩

/-- The circuit of the row has been open for a time. -/
def openFor (ep : Endpoint) (now time : Nat) : Bool :=
  ep.circuitState = .opened && ep.circuitOpenedAt.any (· + time ≤ now)

/-- One row of the loop of `retryWebhooks`; `now` is the time of the sweep. -/
def retryWebhook (w : World) (now : Nat) (c : Copy) (answer : Answer) (latency : Nat) : World :=
  let ep := w.endpoint
  if openFor ep now disableAfter then
    w.updateWebhook { ep with active := false, circuitState := .disabled }
  else
    { w with ep := if openFor ep now probeInterval then { ep with circuitState := .halfOpen }
        else ep }.attemptWebhook c.id (c.attempts + 1) answer latency

/-- An endpoint whose circuit was not closed for `DisableAfter` is passed over. -/
def passesOver (w : World) (now : Nat) (after : World) : Bool :=
  w.firstOpened.any (· + disableAfter ≤ now) && w.endpoint.circuitState ≠ .disabled &&
    after.endpoint.circuitState ≠ .disabled

/-- The next row of the innermost loop. -/
def next (w : World) (answer : Answer) (latency : Nat) : World :=
  match w.flushes, w.sweep with
  | (c :: cs) :: rest, _ =>
    { w with flushes := cs :: rest }.attemptWebhook c.id (c.attempts + 1) answer latency
  | [] :: rest, _ => { w with flushes := rest }
  | [], some (now, c :: cs) =>
    let w := { w with sweep := some (now, cs) }
    let after := w.retryWebhook now c answer latency
    { after with overdue := w.overdue || w.passesOver now after }
  | [], some (_, []) => { w with sweep := none }
  | [], none => w

/-- A step of a loop. -/
inductive Op where
  | event (wait : Nat) (id : Nat) (answer : Answer) (latency : Nat)
  | sweep (wait : Nat) (limit : Nat)
  | next (wait : Nat) (answer : Answer) (latency : Nat)
  /-- The tenant changes `active`. -/
  | setActive (active : Bool)

/-- Time passes. -/
def after (w : World) (wait : Nat) : World := { w with clock := w.clock + wait }

/-- One step. -/
def step (w : World) : Op → World
  | .event wait id answer latency =>
    if w.idle then (w.after wait).deliverWebhooks id answer latency else w
  | .sweep wait limit =>
    if w.idle then
      { w.after wait with
        sweep := some (w.clock + wait, (w.after wait).dueDeliveries limit) }
    else w
  | .next wait answer latency => (w.after wait).next answer latency
  | .setActive active => if w.idle then { w with endpoint := { w.endpoint with active } } else w

end World

end Windrose.Notifications

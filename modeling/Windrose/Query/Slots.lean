/-
  Query/Slots.lean --- the slot and queue governor of a tenant.

  Source: services/query-service/internal/exec/slots.go (Caps, Grant, holder,
  waiter, tenantSlots, SlotManager and its methods, less the reads Position and
  RunningCount).

  Every method runs under the lock of the manager, so it is one step.  The Go code
  removes a waiter from the queue by appending two parts of the slice; it leaves
  the loop over the slice right after, so the list model has the same order.

  A `Pool` is what the manager keeps for one tenant, with the pairs of channels it
  has made and the history of the pool.  The pairs are numbered.  The history
  (newest event first) says which channels have been closed, as the owner of a
  grant observes them; closing a closed channel would panic.  A promotion is
  recorded with the slots it was decided on, and every `Release` is recorded.
-/
import Windrose.Foundation.Runs
import Windrose.Foundation.Uuid
import Mathlib.Data.List.AList

set_option autoImplicit false

namespace Windrose.Query

open Windrose.Foundation

/-- `ErrSlotBusy` and `ErrQueueFull`. -/
inductive SlotError where
  | slotBusy
  | queueFull
  deriving DecidableEq

/-- `Caps`. -/
structure Caps where
  slots : Int
  agentSlots : Int
  queueDepth : Int
  deriving DecidableEq

/-- `normalizeCaps`. -/
def normalizeCaps (c : Caps) : Caps where
  slots := if c.slots ≤ 0 then 10 else c.slots
  agentSlots := if c.agentSlots ≤ 0 then 3 else c.agentSlots
  queueDepth := if c.queueDepth ≤ 0 then 50 else c.queueDepth

/-- `userCap`: one user may hold at most half the tenant slots. -/
def userCap (slots : Int) : Int :=
  let c := slots.tdiv 2
  if c < 1 then 1 else c

/-- Who holds a slot. -/
structure Holder where
  user : Bytes
  agent : Bool
  deriving DecidableEq

/-- `waiter`: `channels` is the number of its pair of channels. -/
structure Waiter where
  channels : Nat
  execID : Uuid
  user : Bytes
  agent : Bool
  deriving DecidableEq

/-- The holder it becomes. -/
def Waiter.holder (w : Waiter) : Holder := ⟨w.user, w.agent⟩

/-- `tenantSlots`. -/
structure TenantSlots where
  caps : Caps
  running : AList fun _ : Uuid => Holder
  queue : List Waiter

/-- What happens in a pool.  A `granted` or `promoted` waiter's ready channel is
closed, an `aborted` waiter's aborted channel. -/
inductive SlotEvent where
  | granted (w : Waiter)
  | queued (w : Waiter)
  | promoted (w : Waiter) (before : TenantSlots)
  | aborted (w : Waiter) (reason : Bytes)
  | released (execID : Uuid)

/-- `Grant`: its channels are those of the waiter. -/
structure Grant where
  waiter : Waiter
  pos : Nat
  deriving DecidableEq

namespace TenantSlots

/-- The running executions whose holder has a property. -/
def runningWith (ts : TenantSlots) (f : Holder → Bool) : Nat :=
  ts.running.entries.countP fun e => f e.2

/-- `eligible`. -/
def eligible (ts : TenantSlots) (user : Bytes) (agent : Bool) : Bool :=
  if ts.caps.slots ≤ ts.running.entries.length then false
  else if userCap ts.caps.slots ≤ ts.runningWith (·.user = user) then false
  else if agent ∧ ts.caps.agentSlots ≤ ts.runningWith (·.agent) then false
  else true

/-- The inner loop of `promoteLocked`: the first eligible waiter and the queue
without it.  It stops when the tenant-wide cap is reached. -/
def nextEligible (ts : TenantSlots) : List Waiter → Option (Waiter × List Waiter)
  | [] => none
  | w :: ws =>
    if ts.eligible w.user w.agent then some (w, ws)
    else if ts.caps.slots ≤ ts.running.entries.length then none
    else (nextEligible ts ws).map fun (v, rest) => (v, w :: rest)

/-- `positionLocked`. -/
def position (ts : TenantSlots) (execID : Uuid) : Nat :=
  match ts.queue.findIdx? (·.execID = execID) with
  | some i => i + 1
  | none => 0

end TenantSlots

/-- The slots of a tenant with the pairs of channels made so far. -/
structure Pool where
  slots : TenantSlots
  made : Nat
  trace : List SlotEvent

namespace Pool

/-- A pool as `tenant` makes it. -/
def new (caps : Caps) : Pool := ⟨⟨caps, ∅, []⟩, 0, []⟩

def setCaps (p : Pool) (caps : Caps) : Pool := { p with slots.caps := caps }

def setQueue (p : Pool) (queue : List Waiter) : Pool := { p with slots.queue := queue }

def record (p : Pool) (e : SlotEvent) : Pool := { p with trace := e :: p.trace }

/-- An execution takes a slot. -/
def hold (p : Pool) (w : Waiter) : Pool :=
  { p with slots.running := p.slots.running.insert w.execID w.holder }

def free (p : Pool) (execID : Uuid) : Pool :=
  { p with slots.running := p.slots.running.erase execID }

/-- One more pair of channels. -/
def make (p : Pool) : Pool := { p with made := p.made + 1 }

/-- `promoteLocked` for at most the given number of grants. -/
def promoteAtMost : Nat → Pool → Pool
  | 0, p => p
  | n + 1, p =>
    match p.slots.nextEligible p.slots.queue with
    | none => p
    | some (w, rest) => promoteAtMost n (((p.hold w).setQueue rest).record (.promoted w p.slots))

/-- `promoteLocked`: every grant takes a waiter from the queue. -/
def promote (p : Pool) : Pool := promoteAtMost p.slots.queue.length p

/-- `Acquire` on the pool of the tenant, the caps being stored. -/
def acquire (p : Pool) (execID : Uuid) (user : Bytes) (agent : Bool) (canQueue : Bool) :
    Pool × Except SlotError Grant :=
  let w : Waiter := ⟨p.made, execID, user, agent⟩
  if p.slots.eligible user agent ∧ p.slots.queue = [] then
    ((p.hold w).make.record (.granted w), .ok ⟨w, 0⟩)
  else if canQueue = false then (p, .error .slotBusy)
  else if p.slots.caps.queueDepth ≤ p.slots.queue.length then (p, .error .queueFull)
  else
    let q := ((p.setQueue (p.slots.queue ++ [w])).make.record (.queued w)).promote
    (q, .ok ⟨w, q.slots.position execID⟩)

/-- `removeWaiterLocked`: the first waiter of an execution leaves the queue; with a
reason its aborted channel is closed. -/
def removeWaiter (p : Pool) (execID : Uuid) (reason : Bytes) : Option Pool :=
  match p.slots.queue.find? (·.execID = execID) with
  | none => none
  | some w =>
    let q := p.setQueue (p.slots.queue.eraseP (·.execID = execID))
    some (if reason = [] then q else q.record (.aborted w reason))

/-- `Release`. -/
def release (p : Pool) (execID : Uuid) : Pool :=
  let p := p.record (.released execID)
  if execID ∈ p.slots.running then (p.free execID).promote
  else ((p.removeWaiter execID []).getD p).promote

/-- `Abort`. -/
def abort (p : Pool) (execID : Uuid) (reason : Bytes) : Pool × Bool :=
  match p.removeWaiter execID reason with
  | some q => (q.promote, true)
  | none => (p, false)

/-- The loop of `AbortAllQueued`. -/
def abortEach (reason : Bytes) : List Waiter → Pool → Pool
  | [], p => p
  | w :: ws, p => abortEach reason ws ((p.setQueue ws).record (.aborted w reason))

/-- `AbortAllQueued`. -/
def abortAllQueued (p : Pool) (reason : Bytes) : Pool × List Uuid :=
  (abortEach reason p.slots.queue p, p.slots.queue.map (·.execID))

/-- The ready channel of a waiter is closed. -/
def readyClosed (p : Pool) (w : Waiter) : Bool :=
  p.trace.any fun
    | .granted v => v = w
    | .promoted v _ => v = w
    | _ => false

/-- `AbortReason`, once the aborted channel of a waiter is closed. -/
def abortReason (p : Pool) (w : Waiter) : Option Bytes :=
  p.trace.findSome? fun
    | .aborted v reason => if v = w then some reason else none
    | _ => none

end Pool

/-- `SlotManager`. -/
structure SlotManager where
  tenants : Uuid → Option Pool

namespace SlotManager

/-- `NewSlotManager`. -/
def new : SlotManager := ⟨fun _ => none⟩

def set (m : SlotManager) (t : Uuid) (p : Pool) : SlotManager :=
  ⟨Function.update m.tenants t (some p)⟩

/-- `tenant`: the pool of a tenant, made if need be, with the caps of the call. -/
def tenant (m : SlotManager) (t : Uuid) (caps : Caps) : Pool :=
  match m.tenants t with
  | some p => p.setCaps (normalizeCaps caps)
  | none => .new (normalizeCaps caps)

/-- `Acquire`. -/
def acquire (m : SlotManager) (t execID : Uuid) (user : Bytes) (agent : Bool) (caps : Caps)
    (canQueue : Bool) : SlotManager × Except SlotError Grant :=
  let r := (m.tenant t caps).acquire execID user agent canQueue
  (m.set t r.1, r.2)

/-- `Release`. -/
def release (m : SlotManager) (t execID : Uuid) : SlotManager :=
  match m.tenants t with
  | none => m
  | some p => m.set t (p.release execID)

/-- `Abort`. -/
def abort (m : SlotManager) (t execID : Uuid) (reason : Bytes) : SlotManager × Bool :=
  match m.tenants t with
  | none => (m, false)
  | some p => (m.set t (p.abort execID reason).1, (p.abort execID reason).2)

/-- `AbortAllQueued`. -/
def abortAllQueued (m : SlotManager) (t : Uuid) (reason : Bytes) : SlotManager × List Uuid :=
  match m.tenants t with
  | none => (m, [])
  | some p => (m.set t (p.abortAllQueued reason).1, (p.abortAllQueued reason).2)

/-- `QueuedIDs`. -/
def queuedIDs (m : SlotManager) (t : Uuid) : List Uuid :=
  match m.tenants t with
  | none => []
  | some p => p.slots.queue.map (·.execID)

/-- A call that changes the state of the manager. -/
inductive Call where
  | acquire (execID : Uuid) (user : Bytes) (agent : Bool) (caps : Caps) (canQueue : Bool)
  | release (execID : Uuid)
  | abort (execID : Uuid) (reason : Bytes)
  | abortAllQueued (reason : Bytes)
  deriving DecidableEq

/-- The state after a call for a tenant. -/
def call (m : SlotManager) : Uuid × Call → SlotManager
  | (t, .acquire execID user agent caps canQueue) => (m.acquire t execID user agent caps canQueue).1
  | (t, .release execID) => m.release t execID
  | (t, .abort execID reason) => (m.abort t execID reason).1
  | (t, .abortAllQueued reason) => (m.abortAllQueued t reason).1

end SlotManager

end Windrose.Query

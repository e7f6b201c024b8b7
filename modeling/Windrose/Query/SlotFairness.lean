/-
  Query/SlotFairness.lean --- work conservation of the slot manager.

  A pool is work conserving when no waiter of its queue could be given a slot.
  Every method that frees a slot or adds a waiter ends with a promotion, which
  leaves the pool work conserving; but `Acquire` stores the caps it brings before
  it knows whether it will promote, and on its two refusals it does not.
-/
import Windrose.Query.SlotMoves

set_option autoImplicit false

namespace Windrose.Query

open Windrose.Foundation

namespace Pool

/-- No waiter of the queue is eligible under the stored caps. -/
def Conserving (p : Pool) : Prop := ∀ w ∈ p.slots.queue, p.slots.eligible w.user w.agent = false

/-- Whenever a waiter was promoted, every waiter ahead of it was not eligible. -/
def Fifo (p : Pool) : Prop :=
  ∀ w before, .promoted w before ∈ p.trace →
    ∃ ahead behind, before.queue = ahead ++ w :: behind ∧
      ∀ v ∈ ahead, before.eligible v.user v.agent = false

/-- `Acquire` ends with an error. -/
def refuses (p : Pool) (user : Bytes) (agent canQueue : Bool) : Prop :=
  ¬ (p.slots.eligible user agent = true ∧ p.slots.queue = []) ∧
    (canQueue = false ∨ p.slots.caps.queueDepth ≤ p.slots.queue.length)

theorem promote_conserving (p : Pool) : p.promote.Conserving :=
  promoteAtMost_conserving _ p (Nat.le_refl _)

theorem conserving_of_queue_nil {p : Pool} (h : p.slots.queue = []) : p.Conserving := by
  intro w hw
  rw [h] at hw
  cases hw

/-- `Acquire` leaves the pool work conserving, unless it is refused under caps that
make a waiter eligible. -/
theorem acquire_conserving_iff (p : Pool) (execID : Uuid) (user : Bytes) (agent canQueue : Bool) :
    (p.acquire execID user agent canQueue).1.Conserving ↔
      (p.refuses user agent canQueue → p.Conserving) := by
  unfold acquire refuses
  split
  · rename_i h
    have hc : (((p.hold ⟨p.made, execID, user, agent⟩).make.record
        (.granted ⟨p.made, execID, user, agent⟩)).Conserving) := conserving_of_queue_nil h.2
    exact ⟨fun _ hr => absurd h hr.1, fun _ => hc⟩
  · rename_i h
    split
    · rename_i hq
      exact ⟨fun hc _ => hc, fun hc => hc ⟨h, .inl hq⟩⟩
    · rename_i hq
      split
      · rename_i hd
        exact ⟨fun hc _ => hc, fun hc => hc ⟨h, .inr hd⟩⟩
      · rename_i hd
        exact ⟨fun _ hr => absurd hr.2 (not_or.mpr ⟨hq, hd⟩), fun _ => promote_conserving _⟩

theorem release_conserving (p : Pool) (execID : Uuid) : (p.release execID).Conserving := by
  unfold release
  dsimp only
  split
  · exact promote_conserving _
  · exact promote_conserving _

theorem abort_conserving {p : Pool} (h : p.Conserving) (execID : Uuid) (reason : Bytes) :
    (p.abort execID reason).1.Conserving := by
  unfold abort
  split
  · exact promote_conserving _
  · exact h

theorem abortEach_queue (reason : Bytes) (q : List Waiter) (p : Pool) (hq : p.slots.queue = q) :
    (abortEach reason q p).slots.queue = [] := by
  induction q generalizing p with
  | nil => exact hq
  | cons w ws ih =>
    rw [abortEach]
    exact ih _ rfl

theorem abortAllQueued_conserving (p : Pool) (reason : Bytes) :
    (p.abortAllQueued reason).1.Conserving :=
  conserving_of_queue_nil (abortEach_queue reason _ p rfl)

theorem Fifo.record {p : Pool} (h : p.Fifo) {e : SlotEvent}
    (he : ∀ w before, e ≠ .promoted w before) : (p.record e).Fifo := by
  intro w before hmem
  rcases List.mem_cons.mp hmem with heq | hmem
  · exact absurd heq.symm (he w before)
  · exact h w before hmem

theorem Fifo.move {K : Caps → Prop} {A : Uuid → Prop} (p q : Pool) (h : p.Fifo)
    (hm : Move K A p q) : q.Fifo := by
  cases hm with
  | caps _ => exact h
  | @grant w _ _ _ =>
    have hg : (p.hold w).make.Fifo := h
    exact hg.record (fun _ _ => nofun)
  | @enqueue w _ _ _ =>
    have hg : (p.setQueue (p.slots.queue ++ [w])).make.Fifo := h
    exact hg.record (fun _ _ => nofun)
  | @promote w ahead behind hq hahead _ =>
    intro v before hmem
    rcases List.mem_cons.mp hmem with heq | hmem
    · cases heq
      exact ⟨ahead, behind, hq, hahead⟩
    · exact h v before hmem
  | free _ => exact h.record (fun _ _ => nofun)
  | note _ => exact h.record (fun _ _ => nofun)
  | drop _ => exact h
  | @abort w ahead behind _ _ =>
    have hg : (p.setQueue (ahead ++ behind)).Fifo := h
    exact hg.record (fun _ _ => nofun)

theorem fifo_new (caps : Caps) : (Pool.new caps).Fifo := by
  intro w before hmem
  cases hmem

end Pool

namespace SlotManager

/-- In every pool no waiter is eligible, and waiters were promoted in order. -/
def WorkConserving (m : SlotManager) : Prop := ∀ t p, m.tenants t = some p → p.Conserving ∧ p.Fifo

/-- A call that is not a refused `Acquire` with caps that make a waiter eligible. -/
def LeavesNone (m : SlotManager) : Uuid × Call → Prop
  | (t, .acquire _ user agent caps canQueue) =>
    (m.tenant t caps).refuses user agent canQueue → (m.tenant t caps).Conserving
  | _ => True

theorem call_fifo {m : SlotManager} (h : m.WorkConserving) (t : Uuid) (c : Call) :
    ∀ u p, (m.call (t, c)).tenants u = some p → p.Fifo :=
  call_invariant (P := fun _ p => p.Fifo) (fun caps _ => Pool.fifo_new caps)
    (fun p q hp hm => hp.move p q hm) (fun u p hp => (h u p hp).2)

theorem workConserving_call_iff {m : SlotManager} (h : m.WorkConserving) {t : Uuid} {c : Call}
    {q : Pool} (hcall : m.call (t, c) = m.set t q) :
    (m.call (t, c)).WorkConserving ↔ q.Conserving := by
  have hfifo := call_fifo h t c
  rw [hcall] at hfifo ⊢
  constructor
  · intro hw
    exact (hw t q (by rw [set_tenants, if_pos rfl])).1
  · intro hq u p hp
    refine ⟨?_, hfifo u p hp⟩
    rw [set_tenants] at hp
    split at hp
    · cases hp
      exact hq
    · exact (h u p hp).1

theorem call_workConserving_iff (m : SlotManager) (tc : Uuid × Call) (h : m.WorkConserving) :
    (m.call tc).WorkConserving ↔ m.LeavesNone tc := by
  obtain ⟨t, c⟩ := tc
  cases c with
  | acquire execID user agent caps canQueue =>
    rw [workConserving_call_iff h rfl]
    exact (m.tenant t caps).acquire_conserving_iff execID user agent canQueue
  | release execID =>
    refine iff_of_true ?_ trivial
    cases ht : m.tenants t with
    | none =>
      simp only [call, release, ht]
      exact h
    | some p =>
      have hcall : m.call (t, .release execID) = m.set t (p.release execID) := by
        simp only [call, release, ht]
      exact (workConserving_call_iff h hcall).mpr (p.release_conserving execID)
  | abort execID reason =>
    refine iff_of_true ?_ trivial
    cases ht : m.tenants t with
    | none =>
      simp only [call, abort, ht]
      exact h
    | some p =>
      have hcall : m.call (t, .abort execID reason) = m.set t (p.abort execID reason).1 := by
        simp only [call, abort, ht]
      exact (workConserving_call_iff h hcall).mpr
        (Pool.abort_conserving (h t p ht).1 execID reason)
  | abortAllQueued reason =>
    refine iff_of_true ?_ trivial
    cases ht : m.tenants t with
    | none =>
      simp only [call, abortAllQueued, ht]
      exact h
    | some p =>
      have hcall : m.call (t, .abortAllQueued reason) = m.set t (p.abortAllQueued reason).1 := by
        simp only [call, abortAllQueued, ht]
      exact (workConserving_call_iff h hcall).mpr (p.abortAllQueued_conserving reason)

/-- Along every run, the manager is work conserving in all states exactly when no
`Acquire` is refused under caps that make a waiter of the queue eligible. -/
theorem run_workConserving_iff (calls : List (Uuid × Call)) :
    Always call WorkConserving new calls ↔ Each call LeavesNone new calls := by
  apply always_iff_each call_workConserving_iff
  intro t p hp
  cases hp

/-- One slot is taken and an execution waits; a sync run then brings ten slots. -/
def strandedCalls : List (Uuid × Call) :=
  [(.ofByte 1, .acquire (.ofByte 7) (bytes "u1") false ⟨1, 1, 5⟩ true),
    (.ofByte 1, .acquire (.ofByte 8) (bytes "u2") false ⟨1, 1, 5⟩ true),
    (.ofByte 1, .acquire (.ofByte 9) (bytes "u3") false ⟨10, 3, 5⟩ false)]

/-- The waiter is eligible and stays in the queue. -/
theorem run_strands_waiter : ¬ Always call WorkConserving new strandedCalls := by
  intro h
  have hlast := h strandedCalls List.prefix_rfl
  have hsome : ((run call new strandedCalls).tenants (.ofByte 1)).isSome = true := by
    decide
  obtain ⟨p, hp⟩ := Option.isSome_iff_exists.mp hsome
  have hany : ((run call new strandedCalls).tenants (.ofByte 1)).map (fun p =>
      p.slots.queue.any fun w => p.slots.eligible w.user w.agent) = some true := by
    decide
  rw [hp] at hany
  obtain ⟨w, hw, he⟩ := List.any_eq_true.mp (Option.some.inj hany)
  have hnot := (hlast _ p hp).1 w hw
  rw [he] at hnot
  cases hnot

end SlotManager

end Windrose.Query

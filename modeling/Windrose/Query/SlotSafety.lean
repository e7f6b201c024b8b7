/-
  Query/SlotSafety.lean --- safety of the slot manager.

  For calls with fixed caps and fresh execution ids, in every state: the caps are
  kept, no execution is queued twice or queued and running, no channel is closed
  twice and no waiter is both granted and aborted, and the running executions are
  exactly those that were granted a slot and have not been released since.
-/
import Windrose.Query.SlotMoves

set_option autoImplicit false

namespace Windrose.Query

open Windrose.Foundation

/-! ## What the history says -/

namespace SlotEvent

/-- The event admits an execution: to a slot or to the queue. -/
def admits (execID : Uuid) : SlotEvent → Bool
  | .granted w => w.execID = execID
  | .queued w => w.execID = execID
  | _ => false

/-- The event aborts an execution. -/
def abortsExec (execID : Uuid) : SlotEvent → Bool
  | .aborted w _ => w.execID = execID
  | _ => false

/-- The event closes the ready channel of a pair. -/
def closesReady (n : Nat) : SlotEvent → Bool
  | .granted w => w.channels = n
  | .promoted w _ => w.channels = n
  | _ => false

/-- The event closes the aborted channel of a pair. -/
def closesAborted (n : Nat) : SlotEvent → Bool
  | .aborted w _ => w.channels = n
  | _ => false

end SlotEvent

/-- In a history, newest event first, an execution was granted a slot and has not
been released since. -/
def holds (execID : Uuid) : List SlotEvent → Bool
  | [] => false
  | .granted w :: es => w.execID = execID || holds execID es
  | .promoted w _ :: es => w.execID = execID || holds execID es
  | .released id :: es => id ≠ execID && holds execID es
  | .queued _ :: es => holds execID es
  | .aborted _ _ :: es => holds execID es

variable {p : Pool}

namespace Pool

/-- The waiters with a property. -/
def queueCount (p : Pool) (f : Waiter → Bool) : Nat := p.slots.queue.countP f

/-- The events with a property. -/
def traceCount (p : Pool) (f : SlotEvent → Bool) : Nat := p.trace.countP f

def runningTimes (p : Pool) (execID : Uuid) : Nat := (decide (execID ∈ p.slots.running)).toNat

/-- The pairs of channels with a number: one, if it has been made. -/
def madeTimes (p : Pool) (n : Nat) : Nat := (decide (n < p.made)).toNat

section Counts

variable (p : Pool) (w : Waiter) (f : Waiter → Bool) (g : SlotEvent → Bool) (id : Uuid)

@[simp] theorem queueCount_record (e : SlotEvent) :
    (p.record e).queueCount f = p.queueCount f := rfl

@[simp] theorem queueCount_make : p.make.queueCount f = p.queueCount f := rfl

@[simp] theorem queueCount_hold : (p.hold w).queueCount f = p.queueCount f := rfl

@[simp] theorem queueCount_free : (p.free id).queueCount f = p.queueCount f := rfl

@[simp] theorem queueCount_setQueue (q : List Waiter) :
    (p.setQueue q).queueCount f = q.countP f := rfl

@[simp] theorem traceCount_record (e : SlotEvent) :
    (p.record e).traceCount g = p.traceCount g + (g e).toNat := by
  unfold traceCount record
  rw [List.countP_cons]
  cases g e <;> rfl

@[simp] theorem traceCount_make : p.make.traceCount g = p.traceCount g := rfl

@[simp] theorem traceCount_hold : (p.hold w).traceCount g = p.traceCount g := rfl

@[simp] theorem traceCount_free : (p.free id).traceCount g = p.traceCount g := rfl

@[simp] theorem traceCount_setQueue (q : List Waiter) :
    (p.setQueue q).traceCount g = p.traceCount g := rfl

@[simp] theorem runningTimes_record (e : SlotEvent) :
    (p.record e).runningTimes id = p.runningTimes id := rfl

@[simp] theorem runningTimes_make : p.make.runningTimes id = p.runningTimes id := rfl

@[simp] theorem runningTimes_setQueue (q : List Waiter) :
    (p.setQueue q).runningTimes id = p.runningTimes id := rfl

@[simp] theorem madeTimes_record (e : SlotEvent) (n : Nat) :
    (p.record e).madeTimes n = p.madeTimes n := rfl

@[simp] theorem madeTimes_hold (n : Nat) : (p.hold w).madeTimes n = p.madeTimes n := rfl

@[simp] theorem madeTimes_setQueue (q : List Waiter) (n : Nat) :
    (p.setQueue q).madeTimes n = p.madeTimes n := rfl

@[simp] theorem madeTimes_make (n : Nat) :
    p.make.madeTimes n = p.madeTimes n + (decide (p.made = n)).toNat := by
  unfold madeTimes make
  rcases Nat.lt_trichotomy n p.made with h | h | h
  · simp [h, Nat.lt_succ_of_lt h, Nat.ne_of_gt h]
  · simp [h]
  · simp [Nat.not_lt.mpr (Nat.le_of_lt h), Nat.not_lt.mpr h, Nat.ne_of_lt h]

theorem runningTimes_hold :
    (p.hold w).runningTimes id ≤ p.runningTimes id + (decide (w.execID = id)).toNat := by
  unfold runningTimes hold
  simp only [AList.mem_insert, eq_comm (a := id)]
  by_cases hid : w.execID = id
  · simp [hid]
  · simp [hid]

theorem runningTimes_free (execID : Uuid) :
    (p.free execID).runningTimes id ≤ p.runningTimes id := by
  unfold runningTimes free
  simp only [AList.mem_erase]
  by_cases hr : id ∈ p.slots.running
  · simp [hr, Bool.toNat_le]
  · simp [hr]

end Counts

theorem queueCount_split {w : Waiter} {ahead behind : List Waiter}
    (hq : p.slots.queue = ahead ++ w :: behind) (f : Waiter → Bool) :
    p.queueCount f = (ahead ++ behind).countP f + (f w).toNat := by
  unfold queueCount
  rw [hq, List.countP_append, List.countP_append, List.countP_cons]
  cases f w <;> simp [Nat.add_assoc]

theorem countP_snoc (q : List Waiter) (w : Waiter) (f : Waiter → Bool) :
    (q ++ [w]).countP f = q.countP f + (f w).toNat := by
  rw [List.countP_append, List.countP_singleton]
  cases f w <;> rfl

/-- How often an execution stands in the queue. -/
def queuedTimes (p : Pool) (execID : Uuid) : Nat := p.queueCount (·.execID = execID)

/-- How often an execution has been admitted. -/
def admissions (p : Pool) (execID : Uuid) : Nat := p.traceCount (SlotEvent.admits execID)

/-- How often an execution has been aborted. -/
def aborts (p : Pool) (execID : Uuid) : Nat := p.traceCount (SlotEvent.abortsExec execID)

/-- How often a ready channel has been closed. -/
def readyClosings (p : Pool) (n : Nat) : Nat := p.traceCount (SlotEvent.closesReady n)

/-- How often an aborted channel has been closed. -/
def abortedClosings (p : Pool) (n : Nat) : Nat := p.traceCount (SlotEvent.closesAborted n)

end Pool

/-! ## Bounds -/

variable {A : Uuid → Prop} {K : Caps → Prop} {c : Caps}

namespace Pool

theorem runningWith_hold (p : Pool) (w : Waiter) (f : Holder → Bool) :
    (p.hold w).slots.runningWith f ≤
      p.slots.runningWith f + if f w.holder = true then 1 else 0 := by
  unfold TenantSlots.runningWith hold
  simp only [AList.entries_insert, List.countP_cons]
  have := (List.kerase_sublist w.execID p.slots.running.entries).countP_le
    (p := fun e => f e.2)
  omega

theorem length_hold (p : Pool) (w : Waiter) :
    (p.hold w).slots.running.entries.length ≤ p.slots.running.entries.length + 1 := by
  simp only [hold, AList.entries_insert, List.length_cons]
  have := (List.kerase_sublist w.execID p.slots.running.entries).length_le
  omega

theorem runningWith_free (p : Pool) (execID : Uuid) (f : Holder → Bool) :
    (p.free execID).slots.runningWith f ≤ p.slots.runningWith f :=
  (List.kerase_sublist execID p.slots.running.entries).countP_le

theorem length_free (p : Pool) (execID : Uuid) :
    (p.free execID).slots.running.entries.length ≤ p.slots.running.entries.length :=
  (List.kerase_sublist execID p.slots.running.entries).length_le

/-- The caps of a pool are respected. -/
structure Bounded (c : Caps) (p : Pool) : Prop where
  caps_eq : p.slots.caps = c
  running_le : (p.slots.running.entries.length : Int) ≤ c.slots
  user_le : ∀ user, (p.slots.runningWith (·.user = user) : Int) ≤ userCap c.slots
  agent_le : (p.slots.runningWith (·.agent) : Int) ≤ c.agentSlots
  queue_le : (p.slots.queue.length : Int) ≤ c.queueDepth

theorem bounded_new (hs : 0 < c.slots) (ha : 0 < c.agentSlots) (hq : 0 < c.queueDepth) :
    Bounded c (.new c) where
  caps_eq := rfl
  running_le := Int.le_of_lt hs
  user_le user := by
    unfold userCap
    dsimp only
    split
    · exact Int.zero_le_ofNat 1
    · rename_i h
      exact (Int.le_of_lt (Int.lt_of_lt_of_le Int.zero_lt_one (Int.not_lt.mp h)))
  agent_le := Int.le_of_lt ha
  queue_le := Int.le_of_lt hq

theorem Bounded.hold (h : Bounded c p) {w : Waiter}
    (he : p.slots.eligible w.user w.agent = true) : Bounded c (p.hold w) := by
  obtain ⟨hlen, huser, hagent⟩ := TenantSlots.eligible_iff.mp he
  rw [h.caps_eq] at hlen huser hagent
  refine ⟨h.caps_eq, ?_, fun user => ?_, ?_, h.queue_le⟩
  · have := length_hold p w
    omega
  · have hle := runningWith_hold p w (·.user = user)
    have hold := h.user_le user
    split at hle
    · rename_i hu
      obtain rfl : w.user = user := of_decide_eq_true hu
      omega
    · omega
  · have hle := runningWith_hold p w (·.agent)
    have hold := h.agent_le
    split at hle
    · rename_i ha
      have := hagent ha
      omega
    · omega

theorem Bounded.setQueue (h : Bounded c p) {q : List Waiter}
    (hq : (q.length : Int) ≤ c.queueDepth) : Bounded c (p.setQueue q) :=
  ⟨h.caps_eq, h.running_le, h.user_le, h.agent_le, hq⟩

theorem Bounded.record (h : Bounded c p) (e : SlotEvent) :
    Bounded c (p.record e) := ⟨h.caps_eq, h.running_le, h.user_le, h.agent_le, h.queue_le⟩

theorem Bounded.make (h : Bounded c p) : Bounded c p.make :=
  ⟨h.caps_eq, h.running_le, h.user_le, h.agent_le, h.queue_le⟩

theorem Bounded.free (h : Bounded c p) (execID : Uuid) : Bounded c (p.free execID) := by
  refine ⟨h.caps_eq, ?_, fun user => ?_, ?_, h.queue_le⟩
  · have := length_free p execID
    have := h.running_le
    omega
  · have := runningWith_free p execID (·.user = user)
    have := h.user_le user
    omega
  · have := runningWith_free p execID (·.agent)
    have := h.agent_le
    omega

theorem Bounded.shorten (h : Bounded c p) {w : Waiter}
    {ahead behind : List Waiter} (hq : p.slots.queue = ahead ++ w :: behind) :
    ((ahead ++ behind).length : Int) ≤ c.queueDepth := by
  have hle := h.queue_le
  rw [hq] at hle
  simp only [List.length_append, List.length_cons] at hle ⊢
  omega

theorem Bounded.move (p q : Pool) (h : Bounded c p) (hm : Move (· = c) A p q) : Bounded c q := by
  cases hm with
  | caps hk => exact ⟨hk, h.running_le, h.user_le, h.agent_le, h.queue_le⟩
  | grant _ _ he => exact ((h.hold he).make).record _
  | enqueue _ _ hq =>
    rw [h.caps_eq] at hq
    refine ((h.setQueue ?_).make).record _
    rw [List.length_append, List.length_singleton]
    omega
  | promote hq _ he => exact ((h.hold he).setQueue (h.shorten hq)).record _
  | free _ => exact (h.record _).free _
  | note _ => exact h.record _
  | drop hq => exact h.setQueue (h.shorten hq)
  | abort _ hq => exact (h.setQueue (h.shorten hq)).record _

/-! ## Places of an execution -/

/-- Each admission of an execution is worth one place. -/
def Accounted (p : Pool) : Prop :=
  ∀ id, p.queuedTimes id + p.runningTimes id + p.aborts id ≤ p.admissions id

theorem Accounted.move (p q : Pool) (h : p.Accounted) (hm : Move K A p q) : q.Accounted := by
  intro id
  have hp := h id
  unfold queuedTimes admissions aborts at hp ⊢
  cases hm with
  | caps _ => exact hp
  | @grant w _ _ _ =>
    have hle := runningTimes_hold p w id
    simp only [queueCount_record, queueCount_make, queueCount_hold, runningTimes_record,
      runningTimes_make, traceCount_record, traceCount_make, traceCount_hold, SlotEvent.admits,
      SlotEvent.abortsExec, Bool.toNat_false]
    omega
  | @enqueue w _ _ _ =>
    simp only [queueCount_record, queueCount_make, queueCount_setQueue, countP_snoc,
      runningTimes_record, runningTimes_make, runningTimes_setQueue, traceCount_record,
      traceCount_make, traceCount_setQueue, SlotEvent.admits, SlotEvent.abortsExec,
      Bool.toNat_false]
    unfold queueCount at hp
    omega
  | @promote w ahead behind hq _ _ =>
    have hle := runningTimes_hold p w id
    rw [queueCount_split hq] at hp
    simp only [queueCount_record, queueCount_setQueue, runningTimes_record,
      runningTimes_setQueue, traceCount_record, traceCount_setQueue, traceCount_hold,
      SlotEvent.admits, SlotEvent.abortsExec, Bool.toNat_false]
    omega
  | @free execID _ =>
    have hle := runningTimes_free (p.record (.released execID)) id execID
    simp only [queueCount_free, queueCount_record, traceCount_free, traceCount_record,
      runningTimes_record, SlotEvent.admits, SlotEvent.abortsExec, Bool.toNat_false] at hle ⊢
    omega
  | note _ => exact hp
  | @drop w ahead behind hq =>
    rw [queueCount_split hq] at hp
    simp only [queueCount_setQueue, runningTimes_setQueue, traceCount_setQueue]
    omega
  | @abort w ahead behind reason hq =>
    rw [queueCount_split hq] at hp
    simp only [queueCount_record, queueCount_setQueue, runningTimes_record,
      runningTimes_setQueue, traceCount_record, traceCount_setQueue, SlotEvent.admits,
      SlotEvent.abortsExec, Bool.toNat_false]
    omega

/-! ## Channels -/

/-- Each pair of channels made is worth one waiter or one closing. -/
def Paired (p : Pool) : Prop :=
  ∀ n, p.queueCount (·.channels = n) + p.readyClosings n + p.abortedClosings n ≤
    p.madeTimes n

theorem Paired.move (p q : Pool) (h : p.Paired) (hm : Move K A p q) : q.Paired := by
  intro n
  have hp := h n
  unfold readyClosings abortedClosings at hp ⊢
  cases hm with
  | caps _ => exact hp
  | @grant w _ hw _ =>
    have hmade : (p.hold w).make.madeTimes n = p.madeTimes n + (decide (w.channels = n)).toNat := by
      rw [hw]
      exact madeTimes_make (p.hold w) n
    simp only [queueCount_record, queueCount_make, queueCount_hold, traceCount_record,
      traceCount_make, traceCount_hold, madeTimes_record, hmade, SlotEvent.closesReady,
      SlotEvent.closesAborted, Bool.toNat_false]
    omega
  | @enqueue w _ hw _ =>
    have hmade : (p.setQueue (p.slots.queue ++ [w])).make.madeTimes n =
        p.madeTimes n + (decide (w.channels = n)).toNat := by
      rw [hw]
      exact madeTimes_make (p.setQueue (p.slots.queue ++ [w])) n
    simp only [queueCount_record, queueCount_make, queueCount_setQueue, countP_snoc,
      traceCount_record, traceCount_make, traceCount_setQueue, madeTimes_record, hmade,
      SlotEvent.closesReady, SlotEvent.closesAborted, Bool.toNat_false]
    unfold queueCount at hp
    omega
  | @promote w ahead behind hq _ _ =>
    rw [queueCount_split hq] at hp
    simp only [queueCount_record, queueCount_setQueue, traceCount_record, traceCount_setQueue,
      traceCount_hold, madeTimes_record, madeTimes_setQueue, madeTimes_hold,
      SlotEvent.closesReady, SlotEvent.closesAborted, Bool.toNat_false]
    omega
  | free _ => exact hp
  | note _ => exact hp
  | @drop w ahead behind hq =>
    rw [queueCount_split hq] at hp
    simp only [queueCount_setQueue, traceCount_setQueue, madeTimes_setQueue]
    omega
  | @abort w ahead behind reason hq =>
    rw [queueCount_split hq] at hp
    simp only [queueCount_record, queueCount_setQueue, traceCount_record, traceCount_setQueue,
      madeTimes_record, madeTimes_setQueue, SlotEvent.closesReady, SlotEvent.closesAborted,
      Bool.toNat_false]
    omega

/-! ## Running executions -/

/-- The running executions are those that the history holds. -/
def Held (p : Pool) : Prop := ∀ id, id ∈ p.slots.running ↔ holds id p.trace = true

theorem Held.move (p q : Pool) (h : p.Held) (hm : Move K A p q) : q.Held := by
  intro id
  have hp := h id
  cases hm with
  | caps _ => exact hp
  | @grant w _ _ _ =>
    simp only [record, make, hold, AList.mem_insert, holds, Bool.or_eq_true, decide_eq_true_eq]
    rw [hp, eq_comm]
  | enqueue _ _ _ => exact hp
  | @promote w ahead behind _ _ _ =>
    simp only [record, setQueue, hold, AList.mem_insert, holds, Bool.or_eq_true, decide_eq_true_eq]
    rw [hp, eq_comm]
  | @free execID _ =>
    simp only [record, Pool.free, AList.mem_erase, holds, Bool.and_eq_true, decide_eq_true_eq]
    rw [hp, ne_comm]
  | @note execID hr =>
    simp only [record, holds, Bool.and_eq_true, decide_eq_true_eq]
    rw [← hp]
    constructor
    · intro hid
      refine ⟨?_, hid⟩
      rintro rfl
      exact hr hid
    · exact And.right
  | drop _ => exact hp
  | abort _ _ => exact hp

end Pool

/-! ## Admissions of a run -/

theorem Moves.admissions_eq {q : Pool} (h : Moves K A p q)
    {id : Uuid} (hid : ¬ A id) : q.admissions id = p.admissions id := by
  have hstep : ∀ r r', r.admissions id = p.admissions id → Move K A r r' →
      r'.admissions id = p.admissions id := by
    intro r r' hr hm
    unfold Pool.admissions at hr ⊢
    cases hm with
    | @grant w ha _ _ =>
      have hne : w.execID ≠ id := fun heq => hid (heq ▸ ha)
      simpa [SlotEvent.admits, hne] using hr
    | @enqueue w ha _ _ =>
      have hne : w.execID ≠ id := fun heq => hid (heq ▸ ha)
      simpa [SlotEvent.admits, hne] using hr
    | _ => exact hr
  exact h.invariant hstep rfl

theorem Pool.acquire_admissions (p : Pool) (execID : Uuid) (user : Bytes) (agent canQueue : Bool)
    (id : Uuid) : (p.acquire execID user agent canQueue).1.admissions id ≤
      p.admissions id + (decide (execID = id)).toNat := by
  unfold Pool.acquire
  split
  · simp [Pool.admissions, SlotEvent.admits]
  · split
    · exact Nat.le_add_right _ _
    · split
      · exact Nat.le_add_right _ _
      · dsimp only
        -- the promotion admits nobody
        have hmoves : ∀ r : Pool, Moves (fun _ => False) (fun _ => False) r r.promote :=
          fun r => r.promote_moves
        rw [(hmoves _).admissions_eq (fun h => h)]
        simp [Pool.admissions, SlotEvent.admits]

namespace SlotManager

/-- How often an execution has been admitted for a tenant. -/
def admissions (m : SlotManager) (t id : Uuid) : Nat := ((m.tenants t).map (·.admissions id)).getD 0

/-- The execution that a call asks to admit. -/
def admission : Uuid × Call → Option (Uuid × Uuid)
  | (t, .acquire execID _ _ _ _) => some (t, execID)
  | _ => none

theorem call_admissions (m : SlotManager) (tc : Uuid × Call) (t id : Uuid) :
    (m.call tc).admissions t id ≤
      m.admissions t id + (decide (admission tc = some (t, id))).toNat := by
  obtain ⟨u, c⟩ := tc
  by_cases hut : t = u
  · subst hut
    cases c with
    | acquire execID user agent caps canQueue =>
      have hle := (m.tenant t caps).acquire_admissions execID user agent canQueue id
      have hten : (m.tenant t caps).admissions id = m.admissions t id := by
        unfold tenant admissions
        cases m.tenants t <;> rfl
      simpa [call, acquire, admissions, admission, hten] using hle
    | _ =>
      -- the other calls admit nobody
      refine Nat.le_add_right_of_le ?_
      rcases call_moves m t _ with ⟨hcall, _⟩ | ⟨p, q, hcall, hmoves, hp⟩
      · rw [hcall]
      · rw [hcall]
        have heq : q.admissions id = p.admissions id := hmoves.admissions_eq (fun h => h)
        rcases hp with hp | ⟨_, _, hbrings, _⟩
        · simp [admissions, hp, heq]
        · exact hbrings.elim
  · -- another tenant's pool
    refine Nat.le_add_right_of_le ?_
    rcases call_moves m u c with ⟨hcall, _⟩ | ⟨p, q, hcall, _, _⟩
    · rw [hcall]
    · rw [hcall]
      simp [admissions, hut]

theorem run_admissions (calls : List (Uuid × Call)) (t id : Uuid) :
    (run call new calls).admissions t id ≤
      calls.countP (fun tc => decide (admission tc = some (t, id))) := by
  apply run_induction (P := fun done (m : SlotManager) => m.admissions t id ≤
    done.countP (fun tc => decide (admission tc = some (t, id))))
  · exact Nat.le_refl 0
  · intro done tc _ ih
    have hstep := call_admissions (run call new done) tc t id
    rw [List.countP_append, List.countP_singleton]
    cases hd : decide (admission tc = some (t, id)) with
    | true =>
      rw [hd] at hstep
      exact hstep.trans (Nat.add_le_add_right ih 1)
    | false =>
      rw [hd] at hstep
      exact hstep.trans ih

theorem run_admissions_le_one {calls : List (Uuid × Call)} (h : (calls.filterMap admission).Nodup)
    (t id : Uuid) : (run call new calls).admissions t id ≤ 1 := by
  have hcount := List.nodup_iff_count_le_one.mp h (t, id)
  rw [List.count_filterMap] at hcount
  have hle := run_admissions calls t id
  simp only [beq_eq_decide] at hcount
  omega

end SlotManager

/-! ## Safety -/

theorem userCap_eq {slots : Int} (h : 0 < slots) : userCap slots = max 1 (slots / 2) := by
  have hdiv : slots.tdiv 2 = slots / 2 := Int.tdiv_eq_ediv_of_nonneg (Int.le_of_lt h)
  unfold userCap
  rw [hdiv]
  dsimp only
  split
  · omega
  · omega

theorem normalizeCaps_pos (c : Caps) : 0 < (normalizeCaps c).slots ∧
    0 < (normalizeCaps c).agentSlots ∧ 0 < (normalizeCaps c).queueDepth := by
  unfold normalizeCaps
  dsimp only
  refine ⟨?_, ?_, ?_⟩ <;> split <;> omega

/-- What the slot manager promises about the pool of a tenant with given caps. -/
structure Pool.Safe (caps : Caps) (p : Pool) : Prop where
  running_le : (p.slots.running.entries.length : Int) ≤ (normalizeCaps caps).slots
  user_le : ∀ user, (p.slots.runningWith (·.user = user) : Int) ≤
    max 1 ((normalizeCaps caps).slots / 2)
  agent_le : (p.slots.runningWith (·.agent) : Int) ≤ (normalizeCaps caps).agentSlots
  queue_le : (p.slots.queue.length : Int) ≤ (normalizeCaps caps).queueDepth
  queued_once : (p.slots.queue.map (·.execID)).Nodup
  queued_not_running : ∀ w ∈ p.slots.queue, w.execID ∉ p.slots.running
  closed_once : ∀ n, p.readyClosings n + p.abortedClosings n ≤ 1
  running_iff : ∀ id, id ∈ p.slots.running ↔ holds id p.trace = true

/-- The invariants of a pool with given caps. -/
structure Pool.Inv (caps : Caps) (p : Pool) : Prop where
  bounded : p.Bounded (normalizeCaps caps)
  accounted : p.Accounted
  paired : p.Paired
  held : p.Held

theorem Pool.inv_new (caps : Caps) : Pool.Inv caps (.new (normalizeCaps caps)) where
  bounded := by
    obtain ⟨hs, ha, hq⟩ := normalizeCaps_pos caps
    exact Pool.bounded_new hs ha hq
  accounted _ := Nat.le_refl 0
  paired _ := Nat.zero_le _
  held id := by simp [Pool.new, holds]

theorem Pool.Inv.move {caps : Caps} {q : Pool} (h : Pool.Inv caps p)
    (hm : Move (· = normalizeCaps caps) A p q) : Pool.Inv caps q :=
  ⟨h.bounded.move p q hm, h.accounted.move p q hm, h.paired.move p q hm, h.held.move p q hm⟩

theorem Pool.Inv.safe {caps : Caps} (h : Pool.Inv caps p)
    (hone : ∀ id, p.admissions id ≤ 1) : p.Safe caps where
  running_le := h.bounded.running_le
  user_le user := by
    rw [← userCap_eq (normalizeCaps_pos caps).1]
    exact h.bounded.user_le user
  agent_le := h.bounded.agent_le
  queue_le := h.bounded.queue_le
  queued_once := by
    rw [List.nodup_iff_count_le_one]
    intro id
    have hacc := h.accounted id
    have hadm := hone id
    have hcount : (p.slots.queue.map (·.execID)).count id = p.queuedTimes id := by
      rw [List.count, List.countP_map]
      rfl
    omega
  queued_not_running w hw hr := by
    have hacc := h.accounted w.execID
    have hadm := hone w.execID
    have hpos : 0 < p.queuedTimes w.execID := List.countP_pos_iff.mpr ⟨w, hw, decide_eq_true rfl⟩
    have hrun : p.runningTimes w.execID = 1 := by
      unfold Pool.runningTimes
      rw [decide_eq_true hr]
      rfl
    omega
  closed_once n := by
    have hpair := h.paired n
    have hle : p.madeTimes n ≤ 1 := Bool.toNat_le _
    omega
  running_iff := h.held

namespace SlotManager

/-- For calls with fixed caps of each tenant and fresh execution ids, the promise
holds of every pool in every state. -/
theorem run_safe (caps : Uuid → Caps) (calls : List (Uuid × Call))
    (hcaps : ∀ t execID user agent c canQueue,
      (t, .acquire execID user agent c canQueue) ∈ calls → c = caps t)
    (hfresh : (calls.filterMap admission).Nodup) (t : Uuid) (p : Pool)
    (hp : (run call new calls).tenants t = some p) : p.Safe (caps t) := by
  have hinv : ∀ u q, (run call new calls).tenants u = some q → Pool.Inv (caps u) q := by
    apply run_induction
      (P := fun _ (m : SlotManager) => ∀ u q, m.tenants u = some q → Pool.Inv (caps u) q)
    · intro u q hq
      cases hq
    · intro done tc hd ih
      obtain ⟨u, c⟩ := tc
      have hmem : (u, c) ∈ calls := hd.subset
          (List.mem_append_right done (List.mem_singleton_self _))
      have hbrings : ∀ c', c.Brings c' → c' = normalizeCaps (caps u) := by
        intro c' hc'
        cases c with
        | acquire execID user agent c₀ canQueue =>
            rw [← hcaps u execID user agent c₀ canQueue hmem]
            exact hc'
        | _ => exact hc'.elim
      apply call_invariant (P := fun u q => Pool.Inv (caps u) q) _ _ ih
      · intro c' hc'
        rw [hbrings c' hc']
        exact Pool.inv_new (caps u)
      · intro q r hq hm
        exact hq.move (hm.mono hbrings (fun _ h => h))
  apply (hinv t p hp).safe
  intro id
  have hone := run_admissions_le_one hfresh t id
  rw [admissions, hp] at hone
  exact hone

/-- One slot: the second execution is queued, and promoted when the first ends. -/
def slotCalls : List (Uuid × Call) :=
  [(.ofByte 1, .acquire (.ofByte 7) (bytes "u1") false ⟨1, 1, 5⟩ true),
    (.ofByte 1, .acquire (.ofByte 8) (bytes "u2") false ⟨1, 1, 5⟩ true),
    (.ofByte 1, .release (.ofByte 7))]

theorem run_safe_slotCalls : ∃ p, (run call new slotCalls).tenants (.ofByte 1) = some p ∧
      p.slots.running.keys = [.ofByte 8] ∧ p.Safe ⟨1, 1, 5⟩ := by
  have hsome : ((run call new slotCalls).tenants (.ofByte 1)).isSome = true := by decide
  obtain ⟨p, hp⟩ := Option.isSome_iff_exists.mp hsome
  have hkeys : ((run call new slotCalls).tenants (.ofByte 1)).map (·.slots.running.keys) =
      some [.ofByte 8] := by decide
  refine ⟨p, hp, ?_, ?_⟩
  · rw [hp] at hkeys
    exact Option.some.inj hkeys
  · apply run_safe (fun _ => ⟨1, 1, 5⟩) slotCalls _ (by decide) (.ofByte 1) p hp
    intro t execID user agent c canQueue hmem
    simp only [slotCalls, List.mem_cons, Prod.mk.injEq, Call.acquire.injEq, reduceCtorEq, and_false,
      List.not_mem_nil, or_false] at hmem
    rcases hmem with h | h
    · exact h.2.2.2.2.1
    · exact h.2.2.2.2.1

end SlotManager

end Windrose.Query

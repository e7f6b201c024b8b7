/-
  Query/SlotMoves.lean --- what the slot manager can do to a pool.

  Every method of the manager is a sequence of a few moves of the tenant's pool, so an
  invariant of the pools is an invariant of the moves.
-/
import Windrose.Query.Slots

set_option autoImplicit false

namespace Windrose.Query

open Windrose.Foundation

/-! ## Eligible waiters -/

namespace TenantSlots

variable {ts : TenantSlots}

theorem eligible_iff {user : Bytes} {agent : Bool} : ts.eligible user agent = true ↔
      (ts.running.entries.length : Int) < ts.caps.slots ∧
      (ts.runningWith (·.user = user) : Int) < userCap ts.caps.slots ∧
      (agent = true → (ts.runningWith (·.agent) : Int) < ts.caps.agentSlots) := by
  unfold eligible
  split
  · rename_i h
    constructor
    · intro hn
      cases hn
    · intro hn
      omega
  · split
    · rename_i h
      constructor
      · intro hn
        cases hn
      · intro hn
        omega
    · split
      · rename_i h
        constructor
        · intro hn
          cases hn
        · intro hn
          have := hn.2.2 h.1
          omega
      · rename_i h₁ h₂ h₃
        refine ⟨fun _ => ⟨by omega, by omega, fun ha => ?_⟩, fun _ => rfl⟩
        by_contra hc
        exact h₃ ⟨ha, by omega⟩

theorem not_eligible_of_full
    (h : ts.caps.slots ≤ ts.running.entries.length) (user : Bytes) (agent : Bool) :
    ts.eligible user agent = false := by
  rw [Bool.eq_false_iff]
  intro he
  have := (eligible_iff.mp he).1
  omega

theorem nextEligible_some {q : List Waiter} {w : Waiter} {rest : List Waiter}
    (h : ts.nextEligible q = some (w, rest)) :
    ∃ ahead behind, q = ahead ++ w :: behind ∧ rest = ahead ++ behind ∧
      (∀ v ∈ ahead, ts.eligible v.user v.agent = false) ∧ ts.eligible w.user w.agent = true := by
  induction q generalizing rest with
  | nil => cases h
  | cons v vs ih =>
    rw [nextEligible] at h
    split at h
    · rename_i he
      cases h
      exact ⟨[], vs, rfl, rfl, by simp, he⟩
    · rename_i he
      split at h
      · cases h
      · obtain ⟨⟨u, rest'⟩, hn, heq⟩ := Option.map_eq_some_iff.mp h
        cases heq
        obtain ⟨ahead, behind, rfl, rfl, hahead, hw⟩ := ih hn
        refine ⟨v :: ahead, behind, rfl, rfl, ?_, hw⟩
        intro x hx
        rcases List.mem_cons.mp hx with rfl | hx
        · exact Bool.eq_false_iff.mpr he
        · exact hahead x hx

theorem nextEligible_none {q : List Waiter} (h : ts.nextEligible q = none) :
    ∀ v ∈ q, ts.eligible v.user v.agent = false := by
  induction q with
  | nil => simp
  | cons v vs ih =>
    rw [nextEligible] at h
    split at h
    · cases h
    · rename_i he
      split at h
      · rename_i hfull
        exact fun x _ => not_eligible_of_full hfull x.user x.agent
      · rw [Option.map_eq_none_iff] at h
        intro x hx
        rcases List.mem_cons.mp hx with rfl | hx
        · exact Bool.eq_false_iff.mpr he
        · exact ih h x hx

end TenantSlots

/-! ## Moves -/

/-- A move of a pool, with new caps from `K` and new executions from `A`. -/
inductive Move (K : Caps → Prop) (A : Uuid → Prop) : Pool → Pool → Prop where
  | caps {p : Pool} {caps : Caps} (hk : K caps) : Move K A p (p.setCaps caps)
  | grant {p : Pool} {w : Waiter} (ha : A w.execID) (hw : w.channels = p.made)
      (he : p.slots.eligible w.user w.agent = true) :
      Move K A p ((p.hold w).make.record (.granted w))
  | enqueue {p : Pool} {w : Waiter} (ha : A w.execID) (hw : w.channels = p.made)
      (hq : (p.slots.queue.length : Int) < p.slots.caps.queueDepth) :
      Move K A p ((p.setQueue (p.slots.queue ++ [w])).make.record (.queued w))
  | promote {p : Pool} {w : Waiter} {ahead behind : List Waiter}
      (hq : p.slots.queue = ahead ++ w :: behind)
      (hahead : ∀ v ∈ ahead, p.slots.eligible v.user v.agent = false)
      (he : p.slots.eligible w.user w.agent = true) :
      Move K A p (((p.hold w).setQueue (ahead ++ behind)).record (.promoted w p.slots))
  | free {p : Pool} {execID : Uuid} (hr : execID ∈ p.slots.running) :
      Move K A p ((p.record (.released execID)).free execID)
  | note {p : Pool} {execID : Uuid} (hr : execID ∉ p.slots.running) :
      Move K A p (p.record (.released execID))
  | drop {p : Pool} {w : Waiter} {ahead behind : List Waiter}
      (hq : p.slots.queue = ahead ++ w :: behind) : Move K A p (p.setQueue (ahead ++ behind))
  | abort {p : Pool} {w : Waiter} {ahead behind : List Waiter} (reason : Bytes)
      (hq : p.slots.queue = ahead ++ w :: behind) :
      Move K A p ((p.setQueue (ahead ++ behind)).record (.aborted w reason))

/-- A sequence of moves. -/
abbrev Moves (K : Caps → Prop) (A : Uuid → Prop) : Pool → Pool → Prop :=
  Relation.ReflTransGen (Move K A)

variable {p q : Pool}

theorem Moves.invariant {K : Caps → Prop} {A : Uuid → Prop} {P : Pool → Prop}
    (hstep : ∀ p q, P p → Move K A p q → P q) (h : Moves K A p q) (hp : P p) : P q := by
  induction h with
  | refl => exact hp
  | tail _ hm ih => exact hstep _ _ ih hm

theorem Move.mono {K K' : Caps → Prop} {A A' : Uuid → Prop} (hK : ∀ c, K c → K' c)
    (hA : ∀ u, A u → A' u) (h : Move K A p q) : Move K' A' p q := by
  cases h with
  | caps hk => exact .caps (hK _ hk)
  | grant ha hw he => exact .grant (hA _ ha) hw he
  | enqueue ha hw hq => exact .enqueue (hA _ ha) hw hq
  | promote hq hahead he => exact .promote hq hahead he
  | free hr => exact .free hr
  | note hr => exact .note hr
  | drop hq => exact .drop hq
  | abort reason hq => exact .abort reason hq

/-! ## The methods as moves -/

namespace Pool

variable {K : Caps → Prop} {A : Uuid → Prop}

theorem promoteAtMost_moves (n : Nat) (p : Pool) : Moves K A p (promoteAtMost n p) := by
  induction n generalizing p with
  | zero => exact .refl
  | succ n ih =>
    rw [promoteAtMost]
    split
    · exact .refl
    · rename_i w rest hn
      obtain ⟨ahead, behind, hq, rfl, hahead, hw⟩ := TenantSlots.nextEligible_some hn
      exact Relation.ReflTransGen.head (.promote hq hahead hw) (ih _)

theorem promote_moves (p : Pool) : Moves K A p p.promote := promoteAtMost_moves _ p

theorem promoteAtMost_conserving (n : Nat) (p : Pool) (hn : p.slots.queue.length ≤ n) :
    ∀ v ∈ (promoteAtMost n p).slots.queue,
      (promoteAtMost n p).slots.eligible v.user v.agent = false := by
  induction n generalizing p with
  | zero =>
    have hnil : p.slots.queue = [] := List.length_eq_zero_iff.mp (Nat.le_zero.mp hn)
    rw [promoteAtMost, hnil]
    simp
  | succ n ih =>
    rw [promoteAtMost]
    split
    · rename_i hnone
      exact TenantSlots.nextEligible_none hnone
    · rename_i w rest hsome
      obtain ⟨ahead, behind, hq, rfl, _, _⟩ := TenantSlots.nextEligible_some hsome
      apply ih
      rw [hq] at hn
      simp only [record, setQueue, List.length_append, List.length_cons] at hn ⊢
      omega

variable {execID : Uuid} {reason : Bytes}

theorem removeWaiter_some (h : p.removeWaiter execID reason = some q) :
    ∃ w ahead behind, p.slots.queue = ahead ++ w :: behind ∧ w.execID = execID ∧
      q = if reason = [] then p.setQueue (ahead ++ behind)
        else (p.setQueue (ahead ++ behind)).record (.aborted w reason) := by
  unfold removeWaiter at h
  split at h
  · cases h
  · rename_i w hf
    obtain ⟨hw, ahead, behind, hq, hahead⟩ := List.find?_eq_some_iff_append.mp hf
    have he : p.slots.queue.eraseP (fun v => v.execID = execID) = ahead ++ behind := by
      rw [hq, List.eraseP_append_right _ (fun v hv => by simpa using hahead v hv), List.eraseP_cons]
      simp only [hw, cond_true]
    rw [he] at h
    exact ⟨w, ahead, behind, hq, of_decide_eq_true hw, (Option.some.inj h).symm⟩

theorem removeWaiter_none
    (h : p.removeWaiter execID reason = none) : ∀ w ∈ p.slots.queue, w.execID ≠ execID := by
  unfold removeWaiter at h
  split at h
  · rename_i hf
    intro w hw
    simpa using List.find?_eq_none.mp hf w hw
  · cases h

theorem removeWaiter_moves (h : p.removeWaiter execID reason = some q) : Moves K A p q := by
  obtain ⟨w, ahead, behind, hq, _, rfl⟩ := removeWaiter_some h
  split
  · exact .single (.drop hq)
  · exact .single (.abort reason hq)

theorem acquire_moves (ha : A execID) (user : Bytes) (agent : Bool)
    (canQueue : Bool) : Moves K A p (p.acquire execID user agent canQueue).1 := by
  unfold acquire
  split
  · rename_i h
    exact .single (Move.grant (w := ⟨p.made, execID, user, agent⟩) ha rfl h.1)
  · split
    · exact .refl
    · split
      · exact .refl
      · rename_i hd
        exact Relation.ReflTransGen.head
          (Move.enqueue (w := ⟨p.made, execID, user, agent⟩) ha rfl (by omega)) (promote_moves _)

theorem release_moves (p : Pool) (execID : Uuid) : Moves K A p (p.release execID) := by
  unfold release
  dsimp only
  split
  · rename_i hr
    exact Relation.ReflTransGen.head (.free hr) (promote_moves _)
  · rename_i hr
    refine Relation.ReflTransGen.head (.note hr) ?_
    cases hw : (p.record (.released execID)).removeWaiter execID [] with
    | none => exact promote_moves _
    | some q => exact (removeWaiter_moves hw).trans (promote_moves _)

theorem abort_moves (p : Pool) (execID : Uuid) (reason : Bytes) :
    Moves K A p (p.abort execID reason).1 := by
  unfold abort
  split
  · rename_i q hw
    exact (removeWaiter_moves hw).trans (promote_moves _)
  · exact .refl

theorem abortEach_moves (reason : Bytes) (q : List Waiter) (p : Pool) (hq : p.slots.queue = q) :
    Moves K A p (abortEach reason q p) := by
  induction q generalizing p with
  | nil => exact .refl
  | cons w ws ih =>
    rw [abortEach]
    have hq' : p.slots.queue = [] ++ w :: ws := hq
    exact Relation.ReflTransGen.head (.abort reason hq') (ih _ rfl)

theorem abortAllQueued_moves (p : Pool) (reason : Bytes) :
    Moves K A p (p.abortAllQueued reason).1 := abortEach_moves reason _ p rfl

end Pool

/-! ## Calls and runs -/

namespace SlotManager

/-- The caps a call stores. -/
def Call.Brings : Call → Caps → Prop
  | .acquire _ _ _ caps _, c => c = normalizeCaps caps
  | _, _ => False

/-- The execution a call may admit. -/
def Call.Admits : Call → Uuid → Prop
  | .acquire execID _ _ _ _, id => id = execID
  | _, _ => False

@[simp] theorem set_tenants (m : SlotManager) (t u : Uuid) (p : Pool) :
    (m.set t p).tenants u = if u = t then some p else m.tenants u := by
  unfold set
  exact Function.update_apply m.tenants t (some p) u

/-- A call leaves the manager as it is, or moves the pool of its tenant, which an
`Acquire` makes if need be. -/
theorem call_moves (m : SlotManager) (t : Uuid) (c : Call) :
    (m.call (t, c) = m ∧ m.tenants t = none) ∨
    ∃ p q, m.call (t, c) = m.set t q ∧ Moves c.Brings c.Admits p q ∧
      (m.tenants t = some p ∨ (m.tenants t = none ∧ ∃ caps, c.Brings caps ∧ p = .new caps)) := by
  cases c with
  | acquire execID user agent caps canQueue =>
    right
    have ha : (Call.acquire execID user agent caps canQueue).Admits execID := rfl
    cases ht : m.tenants t with
    | none =>
      refine ⟨.new (normalizeCaps caps), _, rfl, ?_, .inr ⟨rfl, _, rfl, rfl⟩⟩
      rw [tenant, ht]
      exact Pool.acquire_moves ha user agent canQueue
    | some p =>
      refine ⟨p, _, rfl, ?_, .inl rfl⟩
      rw [tenant, ht]
      exact Relation.ReflTransGen.head (.caps rfl) (Pool.acquire_moves ha user agent canQueue)
  | release execID =>
    cases ht : m.tenants t with
    | none => exact .inl ⟨by simp only [call, release, ht], rfl⟩
    | some p =>
      exact .inr ⟨p, _, by simp only [call, release, ht], p.release_moves execID, .inl rfl⟩
  | abort execID reason =>
    cases ht : m.tenants t with
    | none => exact .inl ⟨by simp only [call, abort, ht], rfl⟩
    | some p =>
      exact .inr ⟨p, _, by simp only [call, abort, ht], p.abort_moves execID reason, .inl rfl⟩
  | abortAllQueued reason =>
    cases ht : m.tenants t with
    | none => exact .inl ⟨by simp only [call, abortAllQueued, ht], rfl⟩
    | some p =>
      exact .inr ⟨p, _, by simp only [call, abortAllQueued, ht], p.abortAllQueued_moves reason,
        .inl rfl⟩

/-- An invariant of the pools of a tenant: it holds of a new pool and is kept by the
moves, for the caps and executions that the calls bring. -/
theorem call_invariant {P : Uuid → Pool → Prop} {m : SlotManager} {t : Uuid} {c : Call}
    (hnew : ∀ caps, c.Brings caps → P t (.new caps))
    (hmove : ∀ p q, P t p → Move c.Brings c.Admits p q → P t q)
    (hm : ∀ u p, m.tenants u = some p → P u p) :
    ∀ u p, (m.call (t, c)).tenants u = some p → P u p := by
  intro u r hr
  rcases call_moves m t c with ⟨hcall, _⟩ | ⟨p, q, hcall, hmoves, hp⟩
  · rw [hcall] at hr
    exact hm u r hr
  · rw [hcall, set_tenants] at hr
    split at hr
    · rename_i hut
      subst hut
      cases hr
      apply hmoves.invariant hmove
      rcases hp with hp | ⟨_, caps, hc, rfl⟩
      · exact hm u p hp
      · exact hnew caps hc
    · exact hm u r hr

end SlotManager

end Windrose.Query

/-
  Query/SlotPlaces.lean --- the places of one execution in the slot manager.

  What the owner of an execution needs to know while other callers use the manager:
  an execution that has left both the queue and the running ones does not come
  back, an aborted execution has no place, and neither has a released one.
-/
import Windrose.Query.SlotSafety

set_option autoImplicit false

namespace Windrose.Query

open Windrose.Foundation

variable {id : Uuid} {p : Pool}

namespace Pool

/-- The places of an execution: in the queue and among the running. -/
def places (p : Pool) (id : Uuid) : Nat := p.queuedTimes id + p.runningTimes id

theorem places_eq_zero_iff :
    p.places id = 0 ↔ (∀ w ∈ p.slots.queue, w.execID ≠ id) ∧ id ∉ p.slots.running := by
  unfold places queuedTimes queueCount runningTimes
  rw [Nat.add_eq_zero_iff, List.countP_eq_zero]
  simp only [decide_eq_true_eq, ne_eq]
  by_cases hr : id ∈ p.slots.running
  · simp [hr]
  · simp [hr]

end Pool

theorem mem_of_mem_rest {q ahead behind : List Waiter} {w : Waiter} (hq : q = ahead ++ w :: behind)
    {v : Waiter} (hv : v ∈ ahead ++ behind) : v ∈ q := by
  rw [hq]
  rcases List.mem_append.mp hv with hv | hv
  · exact List.mem_append_left _ hv
  · exact List.mem_append_right _ (List.mem_cons_of_mem _ hv)

variable {q : Pool}

theorem Moves.places_zero {K : Caps → Prop} {A : Uuid → Prop} (h : Moves K A p q)
    (hid : ¬ A id) (hp : p.places id = 0) : q.places id = 0 := by
  refine h.invariant (P := fun r => r.places id = 0) ?_ hp
  intro r r' hr hm
  rw [Pool.places_eq_zero_iff] at hr ⊢
  obtain ⟨hqueue, hrun⟩ := hr
  cases hm with
  | caps _ => exact ⟨hqueue, hrun⟩
  | @grant w ha _ _ =>
    refine ⟨hqueue, fun hmem => ?_⟩
    rcases (AList.mem_insert r.slots.running).mp hmem with heq | hmem
    · exact hid (heq ▸ ha)
    · exact hrun hmem
  | @enqueue w ha _ _ =>
    refine ⟨fun v hv heq => ?_, hrun⟩
    rcases List.mem_append.mp hv with hv | hv
    · exact hqueue v hv heq
    · rw [List.mem_singleton.mp hv] at heq
      exact hid (heq ▸ ha)
  | @promote w ahead behind hq _ _ =>
    refine ⟨fun v hv => hqueue v (mem_of_mem_rest hq hv), fun hmem => ?_⟩
    rcases (AList.mem_insert r.slots.running).mp hmem with heq | hmem
    · refine hqueue w ?_ heq.symm
      rw [hq]
      exact List.mem_append_right _ List.mem_cons_self
    · exact hrun hmem
  | free _ => exact ⟨hqueue, fun hmem => hrun (AList.mem_erase.mp hmem).2⟩
  | note _ => exact ⟨hqueue, hrun⟩
  | drop hq => exact ⟨fun v hv => hqueue v (mem_of_mem_rest hq hv), hrun⟩
  | abort _ hq => exact ⟨fun v hv => hqueue v (mem_of_mem_rest hq hv), hrun⟩

theorem Moves.aborts_le {K : Caps → Prop} {A : Uuid → Prop} (h : Moves K A p q)
    (id : Uuid) : p.aborts id ≤ q.aborts id := by
  refine h.invariant (P := fun r => p.aborts id ≤ r.aborts id) ?_ (Nat.le_refl _)
  intro r r' hr hm
  unfold Pool.aborts at hr ⊢
  cases hm with
  | abort _ _ =>
    rw [Pool.traceCount_record]
    exact Nat.le_add_right_of_le hr
  | _ => exact hr

variable {user : Bytes} {agent canQueue : Bool}

namespace Pool

theorem release_places (h : p.Accounted) (hone : p.admissions id ≤ 1) :
    (p.release id).places id = 0 := by
  have hacc := h id
  have hstay : ∀ r : Pool, r.places id = 0 → r.promote.places id = 0 := fun r hr =>
    (r.promote_moves : Moves (fun _ => False) (fun _ => False) r r.promote).places_zero
      (fun h => h) hr
  unfold release
  dsimp only
  split
  · rename_i hr
    apply hstay
    have hrun : p.runningTimes id = 1 := by
      unfold runningTimes
      rw [decide_eq_true (show id ∈ p.slots.running from hr)]
      rfl
    have hqueued : p.queuedTimes id = 0 := by omega
    have hfreed : ((p.record (.released id)).free id).runningTimes id = 0 := by
      unfold runningTimes free
      simp [AList.mem_erase]
    unfold places
    rw [hfreed]
    exact hqueued
  · rename_i hr
    apply hstay
    cases hw : (p.record (.released id)).removeWaiter id [] with
    | none =>
      rw [Option.getD_none, places_eq_zero_iff]
      exact ⟨removeWaiter_none hw, hr⟩
    | some q =>
      obtain ⟨w, ahead, behind, hq, hid, rfl⟩ := removeWaiter_some hw
      have hsplit : p.queuedTimes id =
          (ahead ++ behind).countP (fun v => decide (v.execID = id)) +
            (decide (w.execID = id)).toNat := queueCount_split hq _
      rw [decide_eq_true hid, Bool.toNat_true] at hsplit
      rw [if_pos rfl, Option.getD_some, places_eq_zero_iff]
      refine ⟨fun v hv => ?_, hr⟩
      have hzero : (ahead ++ behind).countP (fun v => decide (v.execID = id)) = 0 := by omega
      simpa using List.countP_eq_zero.mp hzero v hv

theorem aborts_of_abortReason {w : Waiter} {reason : Bytes}
    (h : p.abortReason w = some reason) : 1 ≤ p.aborts w.execID := by
  obtain ⟨e, he, hsome⟩ := List.exists_of_findSome?_eq_some h
  apply List.countP_pos_iff.mpr
  refine ⟨e, he, ?_⟩
  cases e with
  | aborted v r =>
    dsimp only at hsome
    split at hsome
    · rename_i hv
      rw [hv]
      exact decide_eq_true rfl
    · cases hsome
  | _ => cases hsome

theorem acquire_error {execID : Uuid}
    {e : SlotError} (h : p.acquire execID user agent canQueue = (q, .error e)) : q = p := by
  unfold acquire at h
  split at h
  · cases h
  · split at h
    · cases h
      rfl
    · split at h
      · cases h
        rfl
      · cases h

theorem acquire_ok {execID : Uuid} {g : Grant}
    (h : p.acquire execID user agent canQueue = (q, .ok g)) : g.waiter.execID = execID := by
  unfold acquire at h
  split at h
  · cases h
    rfl
  · split at h
    · cases h
    · split at h
      · cases h
      · cases h
        rfl

end Pool

namespace SlotManager

/-- The places of an execution of a tenant. -/
def places (m : SlotManager) (t id : Uuid) : Nat := ((m.tenants t).map (·.places id)).getD 0

/-- How often an execution of a tenant has been aborted. -/
def aborts (m : SlotManager) (t id : Uuid) : Nat := ((m.tenants t).map (·.aborts id)).getD 0

/-- The pools count their executions. -/
def Accounted (m : SlotManager) : Prop := ∀ t p, m.tenants t = some p → p.Accounted

theorem accounted_new : new.Accounted := by
  intro t p hp
  cases hp

variable {m : SlotManager} {t : Uuid}

theorem Accounted.call (h : m.Accounted) (tc : Uuid × Call) : (m.call tc).Accounted :=
  call_invariant (P := fun _ p => p.Accounted) (fun _ _ _ => Nat.le_refl 0)
    (fun p q hp hm => hp.move p q hm) h

theorem Accounted.le (h : m.Accounted) (t id : Uuid) :
    m.places t id + m.aborts t id ≤ m.admissions t id := by
  unfold places aborts admissions
  cases hp : m.tenants t with
  | none => exact Nat.le_refl 0
  | some p => exact h t p hp id

theorem call_places_zero {tc : Uuid × Call}
    (hadm : admission tc ≠ some (t, id)) (h : m.places t id = 0) : (m.call tc).places t id = 0 := by
  obtain ⟨u, c⟩ := tc
  rcases call_moves m u c with ⟨hcall, _⟩ | ⟨p, q, hcall, hmoves, hp⟩
  · rw [hcall]
    exact h
  · rw [hcall]
    unfold places
    rw [set_tenants]
    split
    · rename_i htu
      subst htu
      have hnot : ¬ c.Admits id := by
        intro ha
        cases c with
        | acquire execID user agent caps canQueue =>
          apply hadm
          rw [show id = execID from ha]
          rfl
        | _ => exact ha.elim
      refine hmoves.places_zero hnot ?_
      rcases hp with hp | ⟨_, caps, _, rfl⟩
      · rw [places, hp] at h
        exact h
      · exact Pool.places_eq_zero_iff.mpr ⟨by simp [Pool.new], by simp [Pool.new]⟩
    · exact h

theorem call_aborts_le (m : SlotManager) (tc : Uuid × Call) (t id : Uuid) :
    m.aborts t id ≤ (m.call tc).aborts t id := by
  obtain ⟨u, c⟩ := tc
  rcases call_moves m u c with ⟨hcall, _⟩ | ⟨p, q, hcall, hmoves, hp⟩
  · rw [hcall]
  · rw [hcall]
    unfold aborts
    rw [set_tenants]
    split
    · rename_i htu
      subst htu
      rcases hp with hp | ⟨hnone, _⟩
      · rw [hp]
        exact hmoves.aborts_le id
      · rw [hnone]
        exact Nat.zero_le _
    · exact Nat.le_refl _

theorem call_admissions_le {tc : Uuid × Call}
    (hadm : admission tc ≠ some (t, id)) : (m.call tc).admissions t id ≤ m.admissions t id := by
  have hle := call_admissions m tc t id
  rw [decide_eq_false hadm, Bool.toNat_false] at hle
  exact hle

theorem acquire_ok {m' : SlotManager} {caps : Caps}
    {g : Grant} (h : m.acquire t id user agent caps canQueue = (m', .ok g)) :
    g.waiter.execID = id := by
  unfold acquire at h
  cases ha : (m.tenant t caps).acquire id user agent canQueue with
  | mk q answer =>
    rw [ha] at h
    cases h
    exact Pool.acquire_ok ha

theorem acquire_error {m' : SlotManager} {caps : Caps} {e : SlotError}
    (h : m.acquire t id user agent caps canQueue = (m', .error e)) :
    m'.admissions t id = m.admissions t id := by
  unfold acquire at h
  cases ha : (m.tenant t caps).acquire id user agent canQueue with
  | mk q answer =>
    rw [ha] at h
    cases h
    rw [Pool.acquire_error ha, admissions, set_tenants, if_pos rfl, tenant, admissions]
    cases m.tenants t <;> rfl

theorem release_places (h : m.Accounted)
    (hone : m.admissions t id ≤ 1) : (m.release t id).places t id = 0 := by
  unfold release
  cases hp : m.tenants t with
  | none => simp only [places, hp, Option.map_none, Option.getD_none]
  | some p =>
    rw [admissions, hp] at hone
    simp only [places, set_tenants, if_true, Option.map_some, Option.getD_some]
    exact Pool.release_places (h t p hp) hone

end SlotManager

end Windrose.Query

/-
  Query/BrokerRuns.lean --- the lifecycle of an execution under every interleaving.

  The other goroutines change the shared state in a few ways only (`Interferes`).  What the
  goroutine of the execution relies on at each program counter (`RunPC.Inv`) survives that,
  and its own steps establish it anew.
-/
import Windrose.Query.Broker
import Windrose.Query.SlotPlaces

set_option autoImplicit false

namespace Windrose.Query

open Windrose.Foundation

/-! ## Interference -/

namespace Shared

@[simp] theorem setReason_slots (s : Shared) (r : Bytes) : (s.setReason r).slots = s.slots := by
  unfold setReason
  split <;> rfl

@[simp] theorem setReason_record (s : Shared) (r : Bytes) : (s.setReason r).record = s.record := by
  unfold setReason
  split <;> rfl

/-- What holds of the shared state in every state of an interleaving. -/
structure Inv (job : Job) (s : Shared) : Prop where
  accounted : s.slots.Accounted
  once : s.slots.admissions job.tenant job.execID ≤ 1
  consistent : s.record.Consistent

end Shared

/-- What the other goroutines may do to the shared state. -/
structure Interferes (job : Job) (s s' : Shared) : Prop where
  slots : s'.slots = s.slots ∨ ∃ tc, SlotManager.admission tc ≠ some (job.tenant, job.execID) ∧
    s'.slots = s.slots.call tc
  change : Record.Change s.record s'.record
  unborn : s.record.row = none → s'.record.row = none

namespace Interferes

variable {job : Job} {s s' : Shared}

theorem of_eq (hs : s'.slots = s.slots) (hr : s'.record = s.record) : Interferes job s s' where
  slots := .inl hs
  change := by
    rw [hr]
    exact .same
  unborn hn := by
    rw [hr]
    exact hn

theorem setReason (s : Shared) (r : Bytes) : Interferes job s (s.setReason r) :=
  of_eq (s.setReason_slots r) (s.setReason_record r)

theorem call (s : Shared) (tc : Uuid × SlotManager.Call)
    (h : SlotManager.admission tc ≠ some (job.tenant, job.execID)) :
    Interferes job s (s.setSlots (s.slots.call tc)) where
  slots := .inr ⟨tc, h, rfl⟩
  change := .same
  unborn hn := hn

theorem update (s : Shared) {apply : Row → Option (Row × List Envelope)} {o : Outcome}
    (h : Record.Change s.record (s.record.update apply o).1) :
    Interferes job s (s.setRecord (s.record.update apply o).1) where
  slots := .inl rfl
  change := h
  unborn hn := by
    unfold Shared.setRecord Record.update
    rw [hn]
    exact hn

theorem inv (h : Interferes job s s') (hs : s.Inv job) : s'.Inv job := by
  refine ⟨?_, ?_, h.change.consistent hs.consistent⟩
  · rcases h.slots with heq | ⟨tc, _, heq⟩
    · rw [heq]
      exact hs.accounted
    · rw [heq]
      exact hs.accounted.call tc
  · rcases h.slots with heq | ⟨tc, hadm, heq⟩
    · rw [heq]
      exact hs.once
    · rw [heq]
      exact (SlotManager.call_admissions_le hadm).trans hs.once

end Interferes

/-- What the goroutine of the execution relies on. -/
def RunPC.Inv (job : Job) (s : Shared) : RunPC → Prop
  | .start | .acquire => s.slots.admissions job.tenant job.execID = 0 ∧ s.record.row = none
  | .insert g => s.record.row = none ∧ g.waiter.execID = job.execID
  | .wait g => g.waiter.execID = job.execID
  | .aborted _ => 1 ≤ s.slots.aborts job.tenant job.execID
  | .refused _ | .done => s.slots.places job.tenant job.execID = 0
  | _ => True

variable {job : Job} {s : Shared}

theorem Interferes.pc {s' : Shared} (h : Interferes job s s') {pc : RunPC}
    (hp : pc.Inv job s) : pc.Inv job s' := by
  have hfresh : s.slots.admissions job.tenant job.execID = 0 →
      s'.slots.admissions job.tenant job.execID = 0 := by
    intro hz
    rcases h.slots with heq | ⟨tc, hadm, heq⟩
    · rw [heq]
      exact hz
    · rw [heq]
      exact Nat.le_zero.mp (hz ▸ SlotManager.call_admissions_le hadm)
  have haborts : s.slots.aborts job.tenant job.execID ≤ s'.slots.aborts job.tenant job.execID := by
    rcases h.slots with heq | ⟨tc, _, heq⟩
    · rw [heq]
    · rw [heq]
      exact SlotManager.call_aborts_le _ tc _ _
  have hplaces : s.slots.places job.tenant job.execID = 0 →
      s'.slots.places job.tenant job.execID = 0 := by
    intro hz
    rcases h.slots with heq | ⟨tc, hadm, heq⟩
    · rw [heq]
      exact hz
    · rw [heq]
      exact SlotManager.call_places_zero hadm hz
  cases pc with
  | start => exact ⟨hfresh hp.1, h.unborn hp.2⟩
  | acquire => exact ⟨hfresh hp.1, h.unborn hp.2⟩
  | insert g => exact ⟨h.unborn hp.1, hp.2⟩
  | wait g => exact hp
  | aborted reason => exact hp.trans haborts
  | refused e => exact hplaces hp
  | done => exact hplaces hp
  | _ => trivial

/-! ## The steps of the other goroutines -/

theorem cancelStep_interferes (job : Job) (o : Outcome) (readFails deadline : Bool)
    (pc : CancelPC) (s : Shared) :
    Interferes job s (cancelStep job o readFails deadline pc s).2 := by
  cases pc with
  | check =>
    rw [cancelStep]
    split <;> exact .of_eq rfl rfl
  | abort => exact .call s (job.tenant, .abort job.execID reasonCancel) nofun
  | update => exact .update s (Record.update_transition_change _ _ _ rfl)
  | signal =>
    rw [cancelStep]
    dsimp only
    split
    · exact .setReason s _
    · exact .of_eq rfl rfl
  | poll =>
    rw [cancelStep]
    split <;> exact .of_eq rfl rfl
  | done => exact .of_eq rfl rfl

theorem suspendStep_interferes (job : Job) (pc : SuspendPC) (s : Shared) :
    Interferes job s (suspendStep job pc s).2 := by
  cases pc with
  | flag => exact .of_eq rfl rfl
  | abortQueued handle =>
    exact .call s (job.tenant, .abortAllQueued reasonSuspended) nofun
  | signal handle =>
    rw [suspendStep]
    dsimp only
    split
    · exact .setReason s _
    · exact .of_eq rfl rfl
  | done => exact .of_eq rfl rfl

theorem deleteStep_interferes (job : Job) (readFails refers : Bool) (pc : DeletePC) (s : Shared) :
    Interferes job s (deleteStep job readFails refers pc s).2 := by
  cases pc with
  | list => exact .of_eq rfl rfl
  | read =>
    rw [deleteStep]
    split <;> exact .of_eq rfl rfl
  | abort => exact .call s (job.tenant, .abort job.execID reasonDatasetDeleted) nofun
  | done => exact .of_eq rfl rfl

/-! ## The steps of the execution -/

theorem abortedUpdate_change (r : Record) (reason : Bytes) (o : Outcome) :
    Record.Change r (r.update (abortedUpdate reason) o).1 := by
  unfold abortedUpdate
  split
  · exact Record.update_transition_change r _ o rfl
  · exact Record.update_transition_change r _ o rfl

theorem readyUpdate_change (job : Job) (r : Record) (o : Outcome) :
    Record.Change r (r.update (readyUpdate job) o).1 :=
  Record.update_transition_change r _ o rfl

theorem finishUpdate_change (job : Job) (v : Verdict) (r : Record) (o : Outcome) :
    Record.Change r (r.update (finishUpdate job v) o).1 := by
  apply Record.update_transition_change
  unfold finishEnvelope
  cases v.target <;> rfl

theorem insertedRow_change {r : Record} (hr : r.row = none) (job : Job) (g : Grant) (o : Outcome) :
    Record.Change r (r.insert (insertedRow job g).1 (insertedRow job g).2 o).1 := by
  apply Record.insert_change
  unfold insertedRow
  split
  · exact .create hr rfl rfl
  · exact .create hr rfl rfl

/-- After a step: the shared state is sound, the goroutine may rely on what it needs
next, and the record was changed legally. -/
structure Sound (job : Job) (s : Shared) (r : RunPC × Shared) : Prop where
  shared : r.2.Inv job
  pc : r.1.Inv job r.2
  change : Record.Change s.record r.2.record

theorem Interferes.sound {s' : Shared} (h : Interferes job s s') (hs : s.Inv job)
    {pc : RunPC} (hp : s'.Inv job → pc.Inv job s') : Sound job s (pc, s') :=
  ⟨h.inv hs, hp (h.inv hs), h.change⟩

theorem release_sound (hs : s.Inv job) :
    Sound job s (.done, s.setSlots (s.slots.release job.tenant job.execID)) := by
  have hi : Interferes job s (s.setSlots (s.slots.release job.tenant job.execID)) :=
    .call s (job.tenant, .release job.execID) nofun
  exact hi.sound hs fun _ => SlotManager.release_places hs.accounted hs.once

theorem acquire_inv (hs : s.Inv job)
    (hz : s.slots.admissions job.tenant job.execID = 0) {m : SlotManager}
    {a : Except SlotError Grant}
    (h : s.slots.acquire job.tenant job.execID job.user job.agent job.caps (!job.sync) = (m, a)) :
    (s.setSlots m).Inv job := by
  have hm : s.slots.call
      (job.tenant, .acquire job.execID job.user job.agent job.caps (!job.sync)) = m := by
    rw [SlotManager.call, h]
  have hle := SlotManager.call_admissions s.slots
    (job.tenant, .acquire job.execID job.user job.agent job.caps (!job.sync)) job.tenant job.execID
  rw [hz, hm, Nat.zero_add] at hle
  refine ⟨?_, hle.trans (Bool.toNat_le _), hs.consistent⟩
  have hacc := hs.accounted.call
    (job.tenant, .acquire job.execID job.user job.agent job.caps (!job.sync))
  rw [hm] at hacc
  exact hacc

theorem wait_sound (hs : s.Inv job) {g : Grant}
    (hg : g.waiter.execID = job.execID) (pickReady : Bool) :
    Sound job s (selectWait (s.slots.tenants job.tenant) g pickReady, s) := by
  refine ⟨hs, ?_, .same⟩
  unfold selectWait
  split
  · exact hg
  · rename_i p hp
    split
    · split
      · trivial
      · exact hg
    · rename_i reason hreason
      split
      · trivial
      · have hle := Pool.aborts_of_abortReason hreason
        rw [hg] at hle
        unfold RunPC.Inv SlotManager.aborts
        rw [hp]
        exact hle

theorem runStep_sound (job : Job) (i : Input) (pc : RunPC) (s : Shared) (hs : s.Inv job)
    (hp : pc.Inv job s) : Sound job s (runStep job i pc s) := by
  have hsame : ∀ pc' : RunPC, pc'.Inv job s → Sound job s (pc', s) := fun pc' h => ⟨hs, h, .same⟩
  -- an execution that was never admitted has no place
  have habsent : s.slots.admissions job.tenant job.execID = 0 →
      s.slots.places job.tenant job.execID = 0 := by
    intro hz
    have hle := hs.accounted.le job.tenant job.execID
    omega
  cases pc with
  | start =>
    rw [runStep]
    split
    · exact hsame _ (habsent hp.1)
    · exact hsame _ hp
  | acquire =>
    rw [runStep]
    split
    · exact hsame _ (habsent hp.1)
    · split
      · rename_i m g h
        exact ⟨acquire_inv hs hp.1 h, ⟨hp.2, SlotManager.acquire_ok h⟩, .same⟩
      · rename_i m e h
        have hinv := acquire_inv hs hp.1 h
        refine ⟨hinv, ?_, .same⟩
        have hle := hinv.accounted.le job.tenant job.execID
        have hadm := SlotManager.acquire_error h
        have hz := hp.1
        show m.places job.tenant job.execID = 0
        simp only [Shared.setSlots] at hle
        omega
  | insert g =>
    have hc := insertedRow_change hp.1 job g i.outcome
    refine ⟨⟨hs.accounted, hs.once, hc.consistent hs.consistent⟩, ?_, hc⟩
    rw [runStep]
    dsimp only
    split
    · split
      · exact hp.2
      · trivial
    · trivial
  | insertFailed => exact release_sound hs
  | wait g => exact wait_sound hs hp i.pickReady
  | ready =>
    refine Interferes.sound (.update s (readyUpdate_change job s.record i.outcome)) hs fun _ => ?_
    split
    · trivial
    · trivial
  | readyFailed => exact release_sound hs
  | aborted reason =>
    have hi : Interferes job s _ := .update s (abortedUpdate_change s.record reason i.outcome)
    refine hi.sound hs fun hinv => ?_
    have hle := hs.accounted.le job.tenant job.execID
    have honce := hs.once
    have habort : 1 ≤ s.slots.aborts job.tenant job.execID := hp
    show s.slots.places job.tenant job.execID = 0
    omega
  | register =>
    have hi : Interferes job s { s with registered := true, reason := [] } := .of_eq rfl rfl
    exact hi.sound hs fun _ => trivial
  | checkSuspended =>
    rw [runStep]
    split
    · exact (Interferes.setReason s _).sound hs fun _ => trivial
    · exact hsame _ trivial
  | findEngine =>
    rw [runStep]
    split
    · exact hsame _ trivial
    · exact hsame _ trivial
  | openWriter =>
    rw [runStep]
    split
    · exact hsame _ trivial
    · exact hsame _ trivial
  | execute w =>
    rw [runStep]
    split
    · split
      · exact hsame _ trivial
      · exact (Interferes.update s (Record.update_firstRow_change s.record i.outcome)).sound hs
          fun _ => trivial
    · exact hsame _ trivial
  | sink w =>
    rw [runStep]
    split
    · exact (Interferes.setReason s _).sound hs fun _ => trivial
    · split
      · exact (Interferes.setReason s _).sound hs fun _ => trivial
      · exact hsame _ trivial
  | returned w scanBytes durationMS err =>
    rw [runStep]
    split
    · exact (Interferes.setReason s _).sound hs fun _ => trivial
    · exact hsame _ trivial
  | judge w scanBytes durationMS err => exact hsame _ trivial
  | finish v =>
    exact (Interferes.update s (finishUpdate_change job v s.record i.outcome)).sound hs
      fun _ => trivial
  | unregister =>
    have hi : Interferes job s { s with registered := false } := .of_eq rfl rfl
    exact hi.sound hs fun _ => trivial
  | release => exact release_sound hs
  | refused e => exact hsame _ hp
  | done => exact hsame _ hp

/-! ## Runs -/

namespace World

/-- The invariant of an interleaving. -/
structure Inv (job : Job) (w : World) : Prop where
  shared : w.shared.Inv job
  main : w.main.Inv job w.shared

theorem inv_init (job : Job) : init.Inv job where
  shared := ⟨SlotManager.accounted_new, Nat.zero_le 1, rfl⟩
  main := ⟨rfl, rfl⟩

theorem step_interferes (job : Job) (w : World) (a : Action) (ha : ∀ i, a ≠ .main i) :
    (w.step job a).main = w.main ∧ Interferes job w.shared (w.step job a).shared := by
  cases a with
  | main i => exact absurd rfl (ha i)
  | cancel k o readFails deadline => exact ⟨rfl, cancelStep_interferes job o readFails deadline _ _⟩
  | suspend k => exact ⟨rfl, suspendStep_interferes job _ _⟩
  | resume => exact ⟨rfl, .of_eq rfl rfl⟩
  | deleted k readFails refers => exact ⟨rfl, deleteStep_interferes job readFails refers _ _⟩
  | timeout =>
    rw [step]
    split
    · exact ⟨rfl, .setReason w.shared _⟩
    · exact ⟨rfl, .of_eq rfl rfl⟩
  | other t c =>
    rw [step]
    split
    · exact ⟨rfl, .of_eq rfl rfl⟩
    · rename_i hc
      refine ⟨rfl, .call w.shared (t, c) ?_⟩
      intro hadm
      cases c with
      | acquire execID user agent caps canQueue =>
        cases hadm
        exact hc rfl
      | _ => cases hadm

theorem step_inv (job : Job) (w : World) (a : Action) (h : w.Inv job) :
    (w.step job a).Inv job ∧ Record.Change w.shared.record (w.step job a).shared.record := by
  by_cases ha : ∃ i, a = .main i
  · obtain ⟨i, rfl⟩ := ha
    have hs := runStep_sound job i w.main w.shared h.shared h.main
    exact ⟨⟨hs.shared, hs.pc⟩, hs.change⟩
  · obtain ⟨hmain, hi⟩ := step_interferes job w a (fun i hi => ha ⟨i, hi⟩)
    refine ⟨⟨hi.inv h.shared, ?_⟩, hi.change⟩
    rw [hmain]
    exact hi.pc h.main

theorem run_inv (job : Job) (as : List Action) : (run (step job) init as).Inv job :=
  run_invariant (fun w a hw => (step_inv job w a hw).1) (inv_init job) as

theorem terminal_kept (job : Job) {w : World} (hw : w.Inv job) {st : Status}
    (hst : w.shared.record.status = some st) (ht : isTerminalStatus st = true) (as : List Action) :
    (run (step job) w as).shared.record.status = some st := by
  have hstep : ∀ (v : World) (a : Action), v.Inv job ∧ v.shared.record.status = some st →
      (v.step job a).Inv job ∧ (v.step job a).shared.record.status = some st := by
    intro v a hv
    obtain ⟨hinv, hchange⟩ := step_inv job v a hv.1
    exact ⟨hinv, hchange.terminal_kept hv.2 ht⟩
  exact (run_invariant (P := fun (v : World) => v.Inv job ∧ v.shared.record.status = some st) hstep
    ⟨hw, hst⟩ as).2

/-- What holds of an execution in the last state of an interleaving: a terminal status
that its row had before is its status still, the outbox reports the terminal status
of the row exactly once, and a goroutine with nothing more to do has left no slot and
no place in the queue behind. -/
structure Orderly (job : Job) (as : List Action) : Prop where
  terminal_once : ∀ done st, done <+: as →
    (run (step job) init done).shared.record.status = some st → isTerminalStatus st = true →
    (run (step job) init as).shared.record.status = some st
  one_event : (run (step job) init as).shared.record.reported =
    (run (step job) init as).shared.record.status.toList.filter isTerminalStatus
  slot_returned : (run (step job) init as).main.finished = true →
    ∀ p, (run (step job) init as).shared.slots.tenants job.tenant = some p →
      job.execID ∉ p.slots.running ∧ ∀ w ∈ p.slots.queue, w.execID ≠ job.execID

/-- Every interleaving of an execution with any number of cancellations, suspensions,
deletions and other executions is orderly. -/
theorem run_orderly (job : Job) (as : List Action) : Orderly job as where
  terminal_once done st hd hst ht := by
    obtain ⟨rest, rfl⟩ := hd
    rw [run_append]
    exact terminal_kept job (run_inv job done) hst ht rest
  one_event := (run_inv job as).shared.consistent
  slot_returned hf p hp := by
    have hplaces : (run (step job) init as).shared.slots.places job.tenant job.execID = 0 := by
      have hmain := (run_inv job as).main
      cases hpc : (run (step job) init as).main with
      | refused e =>
          rw [hpc] at hmain
          exact hmain
      | done =>
          rw [hpc] at hmain
          exact hmain
      | _ =>
          rw [hpc] at hf
          cases hf
    rw [SlotManager.places, hp] at hplaces
    exact (Pool.places_eq_zero_iff.mp hplaces).symm

/-- An execution of one user, with a slot for each tenant. -/
def sampleJob : Job :=
  ⟨Uuid.ofByte 1, Uuid.ofByte 2, [], false, ⟨1, 1, 1⟩, false, [], [], 0, 10, 10, 10⟩

/-- The engine stops with an error once its context is cancelled. -/
def sampleInput : Input :=
  ⟨.applied, true, true, none, .returns 3 5 (some ⟨.internal, [], none⟩), none⟩

/-- An execution that is cancelled while the engine runs. -/
def cancelledRun : List Action :=
  List.replicate 7 (.main sampleInput) ++ List.replicate 3 (.cancel 0 .applied false false) ++
    List.replicate 6 (.main sampleInput)

example : (run (step sampleJob) init cancelledRun).shared.record.status = some .cancelled ∧
    (run (step sampleJob) init cancelledRun).main.finished = true ∧
    ((run (step sampleJob) init cancelledRun).shared.slots.tenants (Uuid.ofByte 1)).any
      (·.slots.running.entries.isEmpty) = true := by
  decide

end World

end Windrose.Query

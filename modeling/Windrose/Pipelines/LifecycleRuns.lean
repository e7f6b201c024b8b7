/-
  Pipelines/LifecycleRuns.lean --- when the lifecycle of a tenant's runs is sound.

  Source: services/pipeline-orchestrator/app/domain/services.py (RunService).

  A unit of work commits what it decided by an earlier read.  Each waiting run needs a full
  set of slots, where a call that is still to dequeue fills the slot that its run left
  (`Good.full`).
-/
import Windrose.Foundation.Runs
import Windrose.Pipelines.Lifecycle

set_option autoImplicit false

namespace Windrose.Pipelines

open Windrose.Foundation

/-! ## What is promised -/

/-- The run of the call has left its slot, and the call will dequeue another one. -/
def Call.fills : Call → Bool
  | .closing _ _ | .finished _ | .dequeuing _ => true
  | .create | .inserting _ | .retry _ | .drive _ | .starting _ | .executing _ | .terminate _
  | .cancelling _ => false

/-- The call holds no queue row, executes nothing and cancels nothing. -/
def Call.plain : Call → Bool
  | .create | .inserting _ | .retry _ | .drive _ | .starting _ | .terminate _ => true
  | .executing _ | .closing _ _ | .finished _ | .dequeuing _ | .cancelling _ => false

theorem Call.plain_ne {call : Call} (h : call.plain = true) : call.fills = false ∧
    ∀ run, call ≠ .dequeuing run ∧ call ≠ .executing run ∧ call ≠ .cancelling run := by
  cases call with
  | create | inserting | retry | drive | starting | terminate =>
    exact ⟨rfl, fun _ => ⟨nofun, nofun, nofun⟩⟩
  | executing | closing | finished | dequeuing | cancelling => cases h

namespace World

/-- The terminal events of a run. -/
def eventsOf (w : World) (run : Uuid) : List RunStatus := (w.events.filter (·.1 = run)).map (·.2)

/-- The queued runs that no call is about to dequeue or to cancel. -/
def waiting (w : World) : List Uuid :=
  w.queue.filter fun run => !(decide (.dequeuing run ∈ w.calls)) &&
    !(decide (.cancelling run ∈ w.calls))

/-- The slots that are taken, or will be by a call that is to dequeue. -/
def slots (w : World) : Nat := w.active + w.calls.countP Call.fills

variable (quota : Quota)

/-- What is promised of one step. -/
structure Exact (w : World) (op : Op) : Prop where
  final : ∀ run status, w.runs.find run = some status → status.terminal = true →
    (w.step quota op).runs.find run = some status
  once : ∀ run, (w.step quota op).eventsOf run =
    (((w.step quota op).runs.find run).filter (·.terminal)).toList
  limit : (w.step quota op).active ≤ quota.maxConcurrentRuns
  drained : (w.step quota op).calls = [] → (w.step quota op).active < quota.maxConcurrentRuns →
    ∀ run, (w.step quota op).runs.find run ≠ some .quotaQueued

/-! ## The condition -/

/-- The call at an index. -/
def At (w : World) (index : Nat) (call : Call) : Prop := w.calls[index]? = some call

/-- No run waits for the slot. -/
def Spare (w : World) : Prop := w.waiting ≠ [] → quota.maxConcurrentRuns < w.slots

/-- A commit finds what its read found: a free slot for a run that is submitted, full slots
for a run that is queued, a submitted run to start, a run that is not over to conclude.  An
active run is only cancelled, and closing a failed MLflow run only raises, when no run
waits for the slot; closing that of a success does not raise. -/
def Fits (w : World) : Op → Prop
  | .insert index run => w.runs.find run = none →
      (w.At index (.inserting false) → w.active < quota.maxConcurrentRuns) ∧
      (w.At index (.inserting true) → quota.maxConcurrentRuns ≤ w.slots)
  | .start index => ∀ run, w.At index (.starting run) → w.runs.find run = some .submitted
  | .finish index outcome => ∀ run, w.At index (.executing run) → outcome ≠ .submitted →
      ∀ status ∈ w.runs.find run, status.terminal = false
  | .closeFails index => ∀ run failed, w.At index (.closing run failed) →
      failed = true ∧ w.Spare quota
  | .dequeue index => ∀ run, w.At index (.dequeuing run) → w.active < quota.maxConcurrentRuns
  | .cancel index => ∀ run, w.At index (.cancelling run) → w.held run = false →
      ∀ status ∈ w.runs.find run, status.terminal = false ∧
        (status.active = true → w.Spare quota)
  | .request _ | .raise _ | .count _ | .readFailed _ | .readSubmitted _ | .close _ | .pick _ _
  | .readRun _ => True

/-! ## The invariant -/

/-- The invariant. -/
structure Good (w : World) : Prop where
  once : ∀ run, w.eventsOf run = ((w.runs.find run).filter (·.terminal)).toList
  limit : w.active ≤ quota.maxConcurrentRuns
  queued : ∀ run, run ∈ w.queue ↔ w.runs.find run = some .quotaQueued
  held : ∀ run, .dequeuing run ∈ w.calls → run ∈ w.queue
  single : ∀ run, w.calls.countP (· = .dequeuing run) ≤ 1
  started : ∀ run, .executing run ∈ w.calls →
    ∃ status, w.runs.find run = some status ∧ (status = .running ∨ status.terminal = true)
  known : ∀ run, .cancelling run ∈ w.calls → (w.runs.find run).isSome = true
  full : w.waiting ≠ [] → quota.maxConcurrentRuns ≤ w.slots

theorem good_empty : Good quota empty where
  once := fun _ => rfl
  limit := Nat.zero_le _
  queued := fun _ => ⟨nofun, nofun⟩
  held := nofun
  single := fun _ => Nat.zero_le _
  started := nofun
  known := nofun
  full := fun h => absurd rfl h

section Good

variable {quota} {w : World} {index : Nat} {call next : Call} {run : Uuid} {status : RunStatus}

theorem mem_waiting : run ∈ w.waiting ↔
    run ∈ w.queue ∧ .dequeuing run ∉ w.calls ∧ .cancelling run ∉ w.calls := by
  simp [waiting]

theorem full_of (h : Good quota w) {w' : World} (hwaiting : ∀ run ∈ w'.waiting, run ∈ w.waiting)
    (hslots : w.slots ≤ w'.slots) : w'.waiting ≠ [] → quota.maxConcurrentRuns ≤ w'.slots := by
  intro hne
  obtain ⟨run, hrun⟩ := List.exists_mem_of_ne_nil _ hne
  exact (h.full (List.ne_nil_of_mem (hwaiting run hrun))).trans hslots

/-! ### Calls that go on -/

theorem good_goOn (h : Good quota w) (hat : w.At index call) (hqueue : ∀ run, call ≠ .dequeuing run)
    (hcancel : ∀ run, call ≠ .cancelling run) (hnext : ∀ run, next ≠ .dequeuing run)
    (hexec : ∀ run, next = .executing run → w.runs.find run = some .running)
    (hknown : ∀ run, next = .cancelling run → (w.runs.find run).isSome = true)
    (hfills : call.fills = true → next.fills = true) : Good quota (w.goOn index next) := by
  have hmem : ∀ run, .dequeuing run ∈ w.calls.set index next ↔ .dequeuing run ∈ w.calls := by
    intro run
    rw [mem_set_iff hat (hqueue run).symm]
    exact or_iff_right (hnext run).symm
  have hcount := countP_set hat next Call.fills
  refine ⟨h.once, h.limit, h.queued, fun run hrun => h.held run ((hmem run).mp hrun),
    fun run => ?_, fun run hrun => ?_, fun run hrun => ?_, full_of h (fun run hrun => ?_) ?_⟩
  · have hsingle := countP_set hat next fun c => decide (c = .dequeuing run)
    rw [decide_eq_false (hqueue run), decide_eq_false (hnext run)] at hsingle
    have hle := h.single run
    change (w.calls.set index next).countP _ ≤ 1
    simp only [Bool.toNat_false, Nat.add_zero] at hsingle
    rw [hsingle]
    exact hle
  · rcases List.mem_or_eq_of_mem_set hrun with hrun | heq
    · exact h.started run hrun
    · exact ⟨_, hexec run heq.symm, .inl rfl⟩
  · rcases List.mem_or_eq_of_mem_set hrun with hrun | heq
    · exact h.known run hrun
    · exact hknown run heq.symm
  · obtain ⟨hq, hd, hc⟩ := mem_waiting.mp hrun
    refine mem_waiting.mpr ⟨hq, fun hmem' => hd ((hmem run).mpr hmem'), fun hmem' => hc ?_⟩
    exact (mem_set_iff hat (hcancel run).symm).mpr (.inr hmem')
  · change w.active + _ ≤ w.active + (w.calls.set index next).countP Call.fills
    cases hc : call.fills with
    | false =>
      rw [hc] at hcount
      simp only [Bool.toNat_false, Nat.add_zero] at hcount
      omega
    | true =>
      rw [hc, hfills hc] at hcount
      omega

theorem good_done (h : Good quota w) (hat : w.At index call) (hqueue : ∀ run, call ≠ .dequeuing run)
    (hcancel : ∀ run, call ≠ .cancelling run)
    (hfills : call.fills = true → w.waiting ≠ [] → quota.maxConcurrentRuns < w.slots) :
    Good quota (w.done index) := by
  have hcount := countP_eraseIdx hat Call.fills
  have hwaiting : ∀ run ∈ (w.done index).waiting, run ∈ w.waiting := by
    intro run hrun
    obtain ⟨hq, hd, hc⟩ := mem_waiting.mp hrun
    exact mem_waiting.mpr ⟨hq, fun hmem => hd ((mem_eraseIdx_iff hat (hqueue run).symm).mpr hmem),
      fun hmem => hc ((mem_eraseIdx_iff hat (hcancel run).symm).mpr hmem)⟩
  have hslots : (w.done index).slots + (call.fills).toNat = w.slots := by
    change w.active + (w.calls.eraseIdx index).countP Call.fills + _ = w.active + _
    omega
  refine ⟨h.once, h.limit, h.queued, fun run hrun => h.held run (List.mem_of_mem_eraseIdx hrun),
    fun run => (List.Sublist.countP_le (List.eraseIdx_sublist ..)).trans (h.single run),
    fun run hrun => h.started run (List.mem_of_mem_eraseIdx hrun),
    fun run hrun => h.known run (List.mem_of_mem_eraseIdx hrun), fun hne => ?_⟩
  obtain ⟨run, hrun⟩ := List.exists_mem_of_ne_nil _ hne
  have hne := List.ne_nil_of_mem (hwaiting run hrun)
  cases hc : call.fills with
  | false =>
    rw [hc, Bool.toNat_false, Nat.add_zero] at hslots
    exact hslots ▸ h.full hne
  | true =>
    rw [hc, Bool.toNat_true] at hslots
    have hlt := hfills hc hne
    omega

theorem good_done_plain (h : Good quota w) (hat : w.At index call) (hplain : call.plain = true) :
    Good quota (w.done index) := by
  obtain ⟨hfills, hne⟩ := Call.plain_ne hplain
  refine good_done h hat (fun run => (hne run).1) (fun run => (hne run).2.2) fun htrue => ?_
  rw [hfills] at htrue
  cases htrue

theorem good_goOn_plain (h : Good quota w) (hat : w.At index call) (hplain : call.plain = true)
    (hnext : next.plain = true) : Good quota (w.goOn index next) := by
  obtain ⟨hfills, hne⟩ := Call.plain_ne hplain
  obtain ⟨-, hne'⟩ := Call.plain_ne hnext
  refine good_goOn h hat (fun run => (hne run).1) (fun run => (hne run).2.2)
    (fun run => (hne' run).1) (fun run heq => absurd heq (hne' run).2.1)
    (fun run heq => absurd heq (hne' run).2.2) fun htrue => ?_
  rw [hfills] at htrue
  cases htrue

/-! ### Statuses that are written -/

theorem find_setStatus : (w.setStatus run status).runs.find run = some status :=
  Table.find_upsert_const

variable {other : Uuid} {op : Op}

theorem find_setStatus_of_ne (hne : other ≠ run) :
    (w.setStatus run status).runs.find other = w.runs.find other := Table.find_upsert_of_ne hne

theorem active_setStatus {old : RunStatus} (hold : w.runs.find run = some old) :
    (w.setStatus run status).active + old.active.toNat = w.active + status.active.toNat := by
  have hcount := @Table.countP_upsert _ _ _ run status w.runs RunStatus.active
  rw [hold] at hcount
  exact hcount

theorem active_setStatus_new (hnew : w.runs.find run = none) :
    (w.setStatus run status).active = w.active + status.active.toNat := by
  have hcount := @Table.countP_upsert _ _ _ run status w.runs RunStatus.active
  rw [hnew] at hcount
  exact hcount

theorem find_final (hlive : ∀ old ∈ w.runs.find run, old.terminal = false)
    {final : RunStatus} (hfind : w.runs.find other = some final) (hfinal : final.terminal = true) :
    (w.setStatus run status).runs.find other = some final := by
  have hne : other ≠ run := by
    rintro rfl
    exact absurd hfinal (by rw [hlive final hfind]; decide)
  rw [find_setStatus_of_ne hne, hfind]

theorem isSome_setStatus (h : (w.runs.find other).isSome = true) :
    ((w.setStatus run status).runs.find other).isSome = true := by
  by_cases hne : other = run
  · rw [hne, find_setStatus]
    rfl
  · rwa [find_setStatus_of_ne hne]

theorem eventsOf_live (h : Good quota w) (hlive : ∀ old ∈ w.runs.find run, old.terminal = false) :
    w.eventsOf run = [] := by
  rw [h.once]
  cases hfind : w.runs.find run with
  | none => rfl
  | some old =>
    rw [Option.filter_some, hlive old hfind]
    rfl

theorem once_write (h : Good quota w) (hlive : ∀ old ∈ w.runs.find run, old.terminal = false)
    {w' : World} (hruns : w'.runs = (w.setStatus run status).runs)
    (hevents : w'.events = w.events ++ if status.terminal then [(run, status)] else [])
    (other : Uuid) : w'.eventsOf other = ((w'.runs.find other).filter (·.terminal)).toList := by
  have hnew : w'.eventsOf other =
      w.eventsOf other ++ if status.terminal ∧ run = other then [status] else [] := by
    rw [eventsOf, hevents, List.filter_append, List.map_append]
    congr 1
    cases status.terminal
    · rfl
    · by_cases heq : run = other
      · simp [heq]
      · simp [heq]
  rw [hnew, hruns]
  by_cases hne : other = run
  · rw [hne, eventsOf_live h hlive, find_setStatus, Option.filter_some]
    cases status.terminal
    · rfl
    · simp
  · rw [find_setStatus_of_ne hne, if_neg fun hboth => hne hboth.2.symm, List.append_nil]
    exact h.once other

theorem started_setStatus (h : Good quota w) (hrun : .executing other ∈ w.calls)
    (hlive : ∀ old ∈ w.runs.find run, old.terminal = false)
    (hnew : status = .running ∨ status.terminal = true ∨ w.runs.find run ≠ some .running) :
    ∃ final, (w.setStatus run status).runs.find other = some final ∧
      (final = .running ∨ final.terminal = true) := by
  obtain ⟨old, hold, hstarted⟩ := h.started other hrun
  by_cases hne : other = run
  · subst hne
    refine ⟨status, find_setStatus, ?_⟩
    rcases hnew with hrunning | hterminal | hnot
    · exact .inl hrunning
    · exact .inr hterminal
    · rcases hstarted with rfl | hterminal
      · exact absurd hold hnot
      · exact absurd hterminal (by rw [hlive old hold]; decide)
  · exact ⟨old, by rw [find_setStatus_of_ne hne, hold], hstarted⟩

theorem good_write (h : Good quota w) (hlive : ∀ old ∈ w.runs.find run, old.terminal = false)
    {w' : World} (hruns : w'.runs = (w.setStatus run status).runs)
    (hevents : w'.events = w.events ++ if status.terminal then [(run, status)] else [])
    (hqueue : ∀ other, other ∈ w'.queue ↔
      other ∈ w.queue ∧ other ≠ run ∨ other = run ∧ status = .quotaQueued)
    (hcalls : w'.calls.Sublist w.calls) (hheld : .dequeuing run ∉ w'.calls)
    (hnew : status = .running ∨ status.terminal = true ∨ w.runs.find run ≠ some .running)
    (hlimit : w'.active ≤ quota.maxConcurrentRuns)
    (hfull : w'.waiting ≠ [] → quota.maxConcurrentRuns ≤ w'.slots) : Good quota w' := by
  refine ⟨once_write h hlive hruns hevents, hlimit, fun other => ?_, fun other hother => ?_,
    fun other => hcalls.countP_le.trans (h.single other), fun other hother => ?_,
    fun other hother => ?_, hfull⟩
  · rw [hqueue, hruns]
    by_cases hne : other = run
    · rw [hne, find_setStatus]
      simp
    · rw [find_setStatus_of_ne hne, h.queued]
      simp [hne]
  · refine (hqueue other).mpr (.inl ⟨h.held other (hcalls.subset hother), ?_⟩)
    rintro rfl
    exact hheld hother
  · rw [hruns]
    exact started_setStatus h (hcalls.subset hother) hlive hnew
  · rw [hruns]
    exact isSome_setStatus (h.known other (hcalls.subset hother))

theorem not_queued (h : Good quota w) {old : Option RunStatus} (hfind : w.runs.find run = old)
    (hold : old ≠ some .quotaQueued) :
    (∀ other, other ∈ w.queue ↔ other ∈ w.queue ∧ other ≠ run) ∧ .dequeuing run ∉ w.calls := by
  have hnot : run ∉ w.queue := fun hq => hold (hfind.symm.trans ((h.queued run).mp hq))
  refine ⟨fun other => (and_iff_left_of_imp ?_).symm, fun hcall => hnot (h.held run hcall)⟩
  rintro hq rfl
  exact hnot hq

/-! ### The units of work -/

theorem good_request (h : Good quota w) (r : Request) :
    Good quota { w with calls := w.calls ++ [r.call] } := by
  have hmem : ∀ call, call ∈ w.calls ++ [r.call] → call ≠ r.call → call ∈ w.calls :=
    fun call hcall hne => (List.mem_append.mp hcall).resolve_right fun hr =>
      hne (List.mem_singleton.mp hr)
  have hplain : r.call.plain = true := by cases r <;> rfl
  obtain ⟨-, hcall⟩ := Call.plain_ne hplain
  refine ⟨h.once, h.limit, h.queued, fun run hrun => h.held run (hmem _ hrun (hcall run).1.symm),
    fun run => ?_, fun run hrun => h.started run (hmem _ hrun (hcall run).2.1.symm),
    fun run hrun => h.known run (hmem _ hrun (hcall run).2.2.symm),
    full_of h (fun run hrun => ?_) ?_⟩
  · change (w.calls ++ [r.call]).countP _ ≤ 1
    rw [List.countP_append, List.countP_singleton, if_neg (by simpa using (hcall run).1)]
    exact h.single run
  · obtain ⟨hq, hd, hc⟩ := mem_waiting.mp hrun
    exact mem_waiting.mpr ⟨hq, fun hmem' => hd (List.mem_append_left _ hmem'),
      fun hmem' => hc (List.mem_append_left _ hmem')⟩
  · change w.active + _ ≤ w.active + (w.calls ++ [r.call]).countP Call.fills
    rw [List.countP_append]
    omega

theorem live_of_find {old : RunStatus} (hfind : w.runs.find run = some old)
    (hold : old.terminal = false) : ∀ old ∈ w.runs.find run, old.terminal = false := by
  rw [hfind]
  rintro _ ⟨⟩
  exact hold

theorem live_of_none (hnew : w.runs.find run = none) :
    ∀ old ∈ w.runs.find run, old.terminal = false := by
  rw [hnew]
  exact nofun

theorem good_submit (h : Good quota w) (hnew : w.runs.find run = none)
    (hlimit : w.active < quota.maxConcurrentRuns) : Good quota (w.setStatus run .submitted) := by
  have hactive : (w.setStatus run .submitted).active = w.active + 1 := active_setStatus_new hnew
  obtain ⟨hqueue, hheld⟩ := not_queued h hnew (by decide)
  refine good_write h (live_of_none hnew) rfl (List.append_nil _).symm (fun other => ?_)
    (.refl _) hheld
    (.inr (.inr (by simp [hnew]))) (hactive.trans_le hlimit) (full_of h (fun _ hrun => hrun) ?_)
  · exact (hqueue other).trans (or_iff_left (fun hboth => by cases hboth.2)).symm
  · change w.active + _ ≤ (w.setStatus run .submitted).active + w.calls.countP Call.fills
    rw [hactive]
    exact Nat.add_le_add_right (Nat.le_succ _) _

theorem good_queue (h : Good quota w) (hnew : w.runs.find run = none)
    (hfull : quota.maxConcurrentRuns ≤ w.slots) :
    Good quota { w.setStatus run .quotaQueued with queue := w.queue ++ [run] } := by
  have hactive : (w.setStatus run .quotaQueued).active = w.active := active_setStatus_new hnew
  obtain ⟨hqueue, hheld⟩ := not_queued h hnew (by decide)
  refine good_write h (live_of_none hnew) rfl (List.append_nil _).symm (fun other => ?_)
    (.refl _) hheld
    (.inr (.inr (by simp [hnew]))) (hactive.trans_le h.limit) fun _ => ?_
  · rw [List.mem_append, List.mem_singleton]
    exact or_congr (hqueue other) (and_iff_left rfl).symm
  · exact hfull.trans_eq (congrArg (· + _) hactive.symm)

theorem good_start (h : Good quota w) (hfind : w.runs.find run = some .submitted) :
    Good quota (w.setStatus run .running) := by
  have hactive : (w.setStatus run .running).active = w.active := by
    have hcount := @active_setStatus _ _ .running _ hfind
    exact Nat.add_right_cancel hcount
  obtain ⟨hqueue, hheld⟩ := not_queued h hfind (by decide)
  refine good_write h (live_of_find hfind rfl) rfl (List.append_nil _).symm (fun other => ?_)
    (.refl _) hheld (.inl rfl) (hactive.trans_le h.limit) (full_of h (fun _ hrun => hrun) ?_)
  · exact (hqueue other).trans (or_iff_left (fun hboth => nomatch hboth.2)).symm
  · exact (congrArg (· + _) hactive.symm).le

theorem terminal_idle (hstatus : status.terminal = true) :
    status.active = false ∧ status ≠ .quotaQueued := by
  cases status with
  | succeeded | failed | cancelled => exact ⟨rfl, by decide⟩
  | pending | quotaQueued | submitted | running => cases hstatus

theorem events_conclude (hstatus : status.terminal = true) : (w.conclude run status).events =
    w.events ++ if status.terminal then [(run, status)] else [] := by
  rw [if_pos hstatus, conclude]

theorem good_conclude (h : Good quota w) (hfind : w.runs.find run = some .running)
    (hspare : w.Spare quota) (hstatus : status.terminal = true) :
    Good quota (w.conclude run status) := by
  obtain ⟨hidle, hstatus'⟩ := terminal_idle hstatus
  have hactive : (w.conclude run status).active + 1 = w.active := by
    have hcount := @active_setStatus _ _ status _ hfind
    rw [hidle] at hcount
    exact hcount
  obtain ⟨hqueue, hheld⟩ := not_queued h hfind (by decide)
  refine good_write h (live_of_find hfind rfl) rfl (events_conclude hstatus) (fun other => ?_)
    (.refl _) hheld (.inr (.inl hstatus)) ?_ fun hne => ?_
  · exact (hqueue other).trans (or_iff_left (fun hboth => hstatus' hboth.2)).symm
  · have hlimit := h.limit
    omega
  · have hlt := hspare hne
    change w.active + w.calls.countP Call.fills > _ at hlt
    change _ ≤ (w.conclude run status).active + w.calls.countP Call.fills
    omega

theorem good_finish (h : Good quota w) (hat : w.At index (.executing run))
    (hlive : ∀ old ∈ w.runs.find run, old.terminal = false) (hnext : next.fills = true)
    (hqueue : ∀ run, next ≠ .dequeuing run) (hstatus : status.terminal = true) :
    Good quota ((w.conclude run status).goOn index next) := by
  have hfind : w.runs.find run = some .running := by
    obtain ⟨old, hold, hrunning | hterminal⟩ := h.started run (List.mem_of_getElem? hat)
    · rw [hold, hrunning]
    · exact absurd hterminal (by rw [hlive old hold]; decide)
  have hexec : ∀ run, next = .executing run → w.runs.find run = some .running := by
    rintro run rfl
    cases hnext
  have hknown : ∀ run, next = .cancelling run → (w.runs.find run).isSome = true := by
    rintro run rfl
    cases hnext
  have hon := good_goOn h hat (fun _ => by simp) (fun _ => by simp) hqueue hexec hknown
    fun _ => hnext
  refine good_conclude hon hfind (fun hne => ?_) hstatus
  -- the call that goes on fills one slot more
  have hcount := countP_set hat next Call.fills
  rw [hnext] at hcount
  have hwaiting : w.waiting ≠ [] := by
    obtain ⟨other, hother⟩ := List.exists_mem_of_ne_nil _ hne
    obtain ⟨hq, hd, hc⟩ := mem_waiting.mp hother
    refine List.ne_nil_of_mem (mem_waiting.mpr ⟨hq, fun hmem => hd ?_, fun hmem => hc ?_⟩)
    · exact (mem_set_iff hat (by simp)).mpr (.inr hmem)
    · exact (mem_set_iff hat (by simp)).mpr (.inr hmem)
  have hfull := h.full hwaiting
  change _ < w.active + (w.calls.set index next).countP Call.fills
  unfold slots at hfull
  simp only [Call.fills, Bool.toNat_false, Bool.toNat_true, Nat.add_zero] at hcount
  omega

theorem good_pick (h : Good quota w) {own : Uuid} (hat : w.At index (.finished own))
    (hrun : run ∈ w.queue) (hfree : w.held run = false) :
    Good quota (w.goOn index (.dequeuing run)) := by
  have hnot : Call.dequeuing run ∉ w.calls := by
    intro hmem
    have htrue : w.held run = true := List.any_eq_true.mpr ⟨_, hmem, decide_eq_true rfl⟩
    rw [hfree] at htrue
    cases htrue
  refine ⟨h.once, h.limit, h.queued, fun other hother => ?_, fun other => ?_,
    fun other hother => ?_,
    fun other hother => ?_, full_of h (fun other hother => ?_) ?_⟩
  · rcases List.mem_or_eq_of_mem_set hother with hother | heq
    · exact h.held other hother
    · cases heq
      exact hrun
  · have hcount := countP_set hat (.dequeuing run) fun c => decide (c = .dequeuing other)
    change (w.calls.set index (.dequeuing run)).countP _ ≤ 1
    have hsingle := h.single other
    by_cases heq : run = other
    · subst heq
      have hzero : w.calls.countP (fun c => decide (c = .dequeuing run)) = 0 :=
        List.countP_eq_zero.mpr fun c hc hdec => hnot (of_decide_eq_true hdec ▸ hc)
      simp [hzero] at hcount
      omega
    · simp [heq] at hcount
      omega
  · rcases List.mem_or_eq_of_mem_set hother with hother | heq
    · exact h.started other hother
    · cases heq
  · rcases List.mem_or_eq_of_mem_set hother with hother | heq
    · exact h.known other hother
    · cases heq
  · obtain ⟨hq, hd, hc⟩ := mem_waiting.mp hother
    refine mem_waiting.mpr ⟨hq, fun hmem => hd ?_, fun hmem => hc ?_⟩
    · exact (mem_set_iff hat (by simp)).mpr (.inr hmem)
    · exact (mem_set_iff hat (by simp)).mpr (.inr hmem)
  · have hcount := countP_set hat (.dequeuing run) Call.fills
    change w.active + _ ≤ w.active + (w.calls.set index (.dequeuing run)).countP Call.fills
    simp only [Call.fills, Bool.toNat_true] at hcount
    omega

section Leaves

variable {w' : World}

theorem mem_queue_filter (hstatus : status ≠ .quotaQueued) (other : Uuid) :
    other ∈ w.queue.filter (· ≠ run) ↔
      other ∈ w.queue ∧ other ≠ run ∨ other = run ∧ status = .quotaQueued := by
  rw [List.mem_filter, decide_eq_true_eq]
  exact (or_iff_left fun hboth => hstatus hboth.2).symm

theorem waiting_leaves (hat : w.At index call)
    (hcall : call = .dequeuing run ∨ call = .cancelling run)
    (hcalls : w'.calls = w.calls.eraseIdx index) (hqueue : w'.queue = w.queue.filter (· ≠ run)) :
    ∀ other ∈ w'.waiting, other ∈ w.waiting := by
  intro other hother
  obtain ⟨hq, hd, hc⟩ := mem_waiting.mp hother
  rw [hcalls] at hd hc
  obtain ⟨hq, hne⟩ := List.mem_filter.mp (hqueue ▸ hq)
  have hne := of_decide_eq_true hne
  refine mem_waiting.mpr ⟨hq, fun hmem => hd ?_, fun hmem => hc ?_⟩
  · exact (mem_eraseIdx_iff hat (by rintro rfl; simp [hne] at hcall)).mpr hmem
  · exact (mem_eraseIdx_iff hat (by rintro rfl; simp [hne] at hcall)).mpr hmem

end Leaves

theorem good_dequeue (h : Good quota w) (hat : w.At index (.dequeuing run))
    (hlimit : w.active < quota.maxConcurrentRuns) : Good quota
      { (w.setStatus run .submitted).done index with queue := w.queue.filter (· ≠ run) } := by
  have hfind : w.runs.find run = some .quotaQueued :=
    (h.queued run).mp (h.held run (List.mem_of_getElem? hat))
  have hactive : (w.setStatus run .submitted).active = w.active + 1 := active_setStatus hfind
  have hheld : .dequeuing run ∉ w.calls.eraseIdx index := by
    intro hmem
    have hcount := countP_eraseIdx hat fun c => decide (c = .dequeuing run)
    have hpos : 0 < (w.calls.eraseIdx index).countP fun c => decide (c = .dequeuing run) :=
      List.countP_pos_iff.mpr ⟨_, hmem, decide_eq_true rfl⟩
    have hle := h.single run
    rw [decide_eq_true rfl, Bool.toNat_true] at hcount
    omega
  refine good_write h (live_of_find hfind rfl) rfl (List.append_nil _).symm
    (mem_queue_filter (by decide)) (List.eraseIdx_sublist ..) hheld (.inr (.inr (by simp [hfind])))
    (hactive.trans_le hlimit) (full_of h (waiting_leaves hat (.inl rfl) rfl rfl) ?_)
  have hcount := countP_eraseIdx hat Call.fills
  change w.active + _ ≤ (w.setStatus run .submitted).active +
    (w.calls.eraseIdx index).countP Call.fills
  simp only [Call.fills, Bool.toNat_true] at hcount
  omega

theorem good_cancel (h : Good quota w) (hat : w.At index (.cancelling run))
    (hheld : w.held run = false) (hfits : ∀ old ∈ w.runs.find run, old.terminal = false ∧
      (old.active = true → w.Spare quota)) : Good quota
      { (w.conclude run .cancelled).done index with queue := w.queue.filter (· ≠ run) } := by
  obtain ⟨old, hfind⟩ := Option.isSome_iff_exists.mp (h.known run (List.mem_of_getElem? hat))
  have hactive : (w.setStatus run .cancelled).active + old.active.toNat = w.active :=
    active_setStatus hfind
  have hnot : .dequeuing run ∉ w.calls.eraseIdx index := by
    intro hmem
    have htrue : w.held run = true :=
      List.any_eq_true.mpr ⟨_, List.mem_of_mem_eraseIdx hmem, decide_eq_true rfl⟩
    rw [hheld] at htrue
    cases htrue
  refine good_write h (fun old hold => (hfits old hold).1) rfl (events_conclude rfl)
    (mem_queue_filter (by decide)) (List.eraseIdx_sublist ..) hnot (.inr (.inl rfl)) ?_
      fun hne => ?_
  · exact (Nat.le.intro hactive).trans h.limit
  · obtain ⟨other, hother⟩ := List.exists_mem_of_ne_nil _ hne
    have hwaiting := List.ne_nil_of_mem (waiting_leaves hat (.inr rfl) rfl rfl other hother)
    have hcount := countP_eraseIdx hat Call.fills
    change _ ≤ (w.setStatus run .cancelled).active + (w.calls.eraseIdx index).countP Call.fills
    simp only [Call.fills, Bool.toNat_false, Nat.add_zero] at hcount
    cases hold : old.active with
    | false =>
      have hfull := h.full hwaiting
      rw [hold, Bool.toNat_false, Nat.add_zero] at hactive
      unfold slots at hfull
      omega
    | true =>
      have hspare := (hfits old hfind).2 hold hwaiting
      rw [hold, Bool.toNat_true] at hactive
      unfold slots at hspare
      omega

/-! ### Every step -/

theorem good_pick_none (h : Good quota w) {own : Uuid} (hat : w.At index (.finished own))
    (hnone : quota.maxConcurrentRuns ≤ w.active ∨ w.waiting = []) : Good quota (w.done index) := by
  refine good_done h hat (fun _ => by simp) (fun _ => by simp) fun _ hne => ?_
  have hcount := countP_eraseIdx hat Call.fills
  simp only [Call.fills, Bool.toNat_true] at hcount
  have hle := hnone.resolve_right hne
  unfold slots
  omega

theorem waiting_sub_unlocked (locked : List Uuid) (hrun : run ∈ w.waiting) :
    run ∈ w.unlocked locked := by
  obtain ⟨hq, hd, hc⟩ := mem_waiting.mp hrun
  refine List.mem_filter.mpr ⟨hq, ?_⟩
  have hheld : w.held run = false := by
    refine List.any_eq_false.mpr fun call hcall heq => hd ?_
    exact of_decide_eq_true heq ▸ hcall
  simp [hheld, hc]

variable (quota) in
/-- What a step keeps: the invariant, and every status that is over. -/
structure Kept (w w' : World) : Prop where
  good : Good quota w'
  final : ∀ run status, w.runs.find run = some status → status.terminal = true →
    w'.runs.find run = some status

theorem Good.kept {w' : World} (h : Good quota w') (hruns : w'.runs = w.runs) :
    Kept quota w w' := ⟨h, fun _ _ hfind _ => hruns ▸ hfind⟩

theorem Good.wrote {w' : World} (h : Good quota w')
    (hlive : ∀ old ∈ w.runs.find run, old.terminal = false)
    (hruns : w'.runs = (w.setStatus run status).runs) : Kept quota w w' :=
  ⟨h, fun _ _ hfind hfinal => hruns ▸ find_final hlive hfind hfinal⟩

/-! ### Unit by unit -/

section Units

variable (h : Good quota w) (hat : w.At index call)

include h hat

theorem kept_raise : Kept quota w (w.advance quota index call (.raise index)) := by
  cases call with
  | create | inserting queued => exact (good_done_plain h hat rfl).kept rfl
  | _ => exact h.kept rfl

theorem kept_count : Kept quota w (w.advance quota index call (.count index)) := by
  cases call with
  | create =>
    unfold advance
    dsimp only
    split
    · split
      · exact (good_done_plain h hat rfl).kept rfl
      · exact (good_goOn_plain h hat rfl rfl).kept rfl
    · exact (good_goOn_plain h hat rfl rfl).kept rfl
  | _ => exact h.kept rfl

theorem kept_insert (hfits : w.Fits quota (.insert index run)) :
    Kept quota w (w.advance quota index call (.insert index run)) := by
  cases call with
  | inserting queued =>
    unfold advance
    dsimp only
    split
    · exact h.kept rfl
    · next hnew =>
      have hnew := Option.not_isSome_iff_eq_none.mp hnew
      obtain ⟨hsubmit, hqueue⟩ := hfits hnew
      cases queued with
      | true =>
        exact (good_done_plain (good_queue h hnew (hqueue hat)) hat rfl).wrote
          (live_of_none hnew) rfl
      | false =>
        exact (good_done_plain (good_submit h hnew (hsubmit hat)) hat rfl).wrote
          (live_of_none hnew) rfl
  | _ => exact h.kept rfl

theorem kept_readFailed : Kept quota w (w.advance quota index call (.readFailed index)) := by
  cases call with
  | retry run =>
    unfold advance
    dsimp only
    split
    · exact (good_goOn_plain h hat rfl rfl).kept rfl
    · exact (good_done_plain h hat rfl).kept rfl
  | _ => exact h.kept rfl

theorem kept_readSubmitted : Kept quota w (w.advance quota index call (.readSubmitted index)) := by
  cases call with
  | drive run =>
    unfold advance
    dsimp only
    split
    · exact (good_goOn_plain h hat rfl rfl).kept rfl
    · exact (good_done_plain h hat rfl).kept rfl
  | _ => exact h.kept rfl

theorem kept_start (hfits : w.Fits quota (.start index)) :
    Kept quota w (w.advance quota index call (.start index)) := by
  cases call with
  | starting run =>
    refine (good_goOn (good_start h (hfits run hat)) hat (by simp) (by simp) (by simp)
      (fun other heq => ?_) (by simp) (by simp [Call.fills])).wrote
        (live_of_find (hfits run hat) rfl) rfl
    cases heq
    exact find_setStatus
  | _ => exact h.kept rfl

theorem kept_finish {outcome : Outcome} (hfits : w.Fits quota (.finish index outcome)) :
    Kept quota w (w.advance quota index call (.finish index outcome)) := by
  cases call with
  | executing run =>
    cases outcome with
    | success | prepared | failure =>
      have hlive := hfits run hat (by decide)
      exact (good_finish h hat hlive rfl (by simp) rfl).wrote hlive rfl
    | submitted =>
      exact (good_goOn h hat (by simp) (by simp) (by simp) (by simp) (by simp)
        (by simp [Call.fills])).kept rfl
  | _ => exact h.kept rfl

theorem kept_close : Kept quota w (w.advance quota index call (.close index)) := by
  cases call with
  | closing run failed =>
    exact (good_goOn h hat (by simp) (by simp) (by simp) (by simp) (by simp)
      (by simp [Call.fills])).kept rfl
  | _ => exact h.kept rfl

theorem kept_closeFails (hfits : w.Fits quota (.closeFails index)) :
    Kept quota w (w.advance quota index call (.closeFails index)) := by
  cases call with
  | closing run failed =>
    obtain ⟨rfl, hspare⟩ := hfits run failed hat
    exact (good_done h hat (fun _ => by simp) (fun _ => by simp) fun _ => hspare).kept rfl
  | _ => exact h.kept rfl

/-- `_dequeue_next` finds no slot, no queue row, or the row of a run. -/
theorem kept_pick {locked : List Uuid} :
    Kept quota w (w.advance quota index call (.pick index locked)) := by
  cases call with
  | finished run =>
    unfold advance
    dsimp only
    split
    · next hfull => exact (good_pick_none h hat (.inl hfull)).kept rfl
    · split
      · next hnone =>
        refine (good_pick_none h hat (.inr (List.eq_nil_iff_forall_not_mem.mpr ?_))).kept rfl
        intro run hrun
        have hmem := waiting_sub_unlocked locked hrun
        rw [hnone] at hmem
        cases hmem
      · next run rest hfirst =>
        have hmem : run ∈ w.unlocked locked := hfirst ▸ List.mem_cons_self
        obtain ⟨hqueue, hfree⟩ := List.mem_filter.mp hmem
        exact (good_pick h hat hqueue (by simpa using (Bool.and_eq_true_iff.mp hfree).1)).kept rfl
  | _ => exact h.kept rfl

theorem kept_dequeue (hfits : w.Fits quota (.dequeue index)) :
    Kept quota w (w.advance quota index call (.dequeue index)) := by
  cases call with
  | dequeuing run =>
    have hfind := (h.queued run).mp (h.held run (List.mem_of_getElem? hat))
    exact (good_dequeue h hat (hfits run hat)).wrote (live_of_find hfind rfl) rfl
  | _ => exact h.kept rfl

theorem kept_readRun : Kept quota w (w.advance quota index call (.readRun index)) := by
  cases call with
  | terminate run =>
    unfold advance
    dsimp only
    split
    · next hlive =>
      obtain ⟨status, hfind, -⟩ := Option.any_eq_true .. |>.mp hlive
      refine (good_goOn h hat (by simp) (by simp) (by simp) (by simp)
        (fun other heq => ?_) (by simp [Call.fills])).kept rfl
      cases heq
      rw [hfind]
      rfl
    · exact (good_done_plain h hat rfl).kept rfl
  | _ => exact h.kept rfl

theorem kept_cancel (hfits : w.Fits quota (.cancel index)) :
    Kept quota w (w.advance quota index call (.cancel index)) := by
  cases call with
  | cancelling run =>
    unfold advance
    dsimp only
    split
    · exact h.kept rfl
    · next hheld =>
      have hfree := eq_false_of_ne_true hheld
      exact (good_cancel h hat hfree (hfits run hat hfree)).wrote
        (fun old hold => (hfits run hat hfree old hold).1) rfl
  | _ => exact h.kept rfl

end Units

theorem kept_step (h : Good quota w) (hfits : w.Fits quota op) :
    Kept quota w (w.step quota op) := by
  unfold step
  split
  · exact (good_request h _).kept rfl
  · split
    · next call hcall =>
      have hat : w.At (indexOf op) call := hcall
      cases op with
      | request r => exact h.kept rfl
      | raise index => exact kept_raise h hat
      | count index => exact kept_count h hat
      | insert index run => exact kept_insert h hat hfits
      | readFailed index => exact kept_readFailed h hat
      | readSubmitted index => exact kept_readSubmitted h hat
      | start index => exact kept_start h hat hfits
      | finish index outcome => exact kept_finish h hat hfits
      | close index => exact kept_close h hat
      | closeFails index => exact kept_closeFails h hat hfits
      | pick index locked => exact kept_pick h hat
      | dequeue index => exact kept_dequeue h hat hfits
      | readRun index => exact kept_readRun h hat
      | cancel index => exact kept_cancel h hat hfits
    · exact h.kept rfl

end Good

/-- Along a run whose commits find what their reads found, statuses, events, the limit and
the queue are as they should be. -/
theorem lifecycle_exact {quota : Quota} {ops : List Op}
    (h : Each (step quota) (Fits quota) empty ops) :
    Each (step quota) (Exact quota) empty ops := by
  intro done op hdone
  have hgood : Good quota (run (step quota) empty done) :=
    always_of_each (P := Good quota) (C := Fits quota) (fun _ _ hs hc => (kept_step hs hc).good)
      (good_empty quota) h done ((List.prefix_append done [op]).trans hdone)
  have hfits := h done op hdone
  obtain ⟨hnext, hfinal⟩ := kept_step hgood hfits
  refine ⟨hfinal, hnext.once, hnext.limit, fun hidle hspare other heq => ?_⟩
  have hqueue := (hnext.queued other).mpr heq
  have hmem : other ∈ ((run (step quota) empty done).step quota op).waiting := by
    refine mem_waiting.mpr ⟨hqueue, ?_, ?_⟩
    · rw [hidle]
      exact List.not_mem_nil
    · rw [hidle]
      exact List.not_mem_nil
  have hfull := hnext.full (List.ne_nil_of_mem hmem)
  rw [slots, hidle, List.countP_nil, Nat.add_zero] at hfull
  omega

/-! ## One run -/

/-- A run is created, driven and started. -/
def started (run : Uuid) : List Op :=
  [.request .createRun, .count 0, .insert 0 run, .request (.driveRun run), .readSubmitted 0,
    .start 0]

/-- A second run waits for the slot of the first, is dequeued and then terminated. -/
def queued (first second : Uuid) : List Op :=
  started first ++ [.request .createRun, .count 1, .insert 1 second, .finish 0 .success, .close 0,
    .pick 0 [], .dequeue 0, .request (.terminate second), .readRun 0, .cancel 0]

/-- A run that nobody terminates, and one that is terminated before it starts. -/
theorem lifecycle_exact_undisturbed :
    Each (step ⟨1, 5⟩) (Exact ⟨1, 5⟩) empty (queued (Uuid.ofByte 1) (Uuid.ofByte 2)) := by
  refine lifecycle_exact ?_
  have hcall : ∀ {w : World} {i : Nat} {a b : Call}, w.At i a → w.At i b → a = b :=
    fun ha hb => Option.some.inj (ha.symm.trans hb)
  simp only [queued, started, List.cons_append, List.nil_append, each_cons]
  refine ⟨trivial, trivial, fun _ => ⟨fun _ => ?_, fun hat => ?_⟩, trivial, trivial,
    fun run hat => ?_,
    trivial, trivial, fun _ => ⟨fun hat => ?_, fun _ => ?_⟩, fun run hat _ => ?_, trivial, trivial,
    fun run hat => ?_, trivial, trivial, fun run hat _ => ?_, each_nil _⟩
  · decide
  · exact absurd hat (by unfold At; decide)
  · cases hcall hat (b := .starting (Uuid.ofByte 1)) (by unfold At; decide)
    decide
  · exact absurd hat (by unfold At; decide)
  · decide
  · cases hcall hat (b := .executing (Uuid.ofByte 1)) (by unfold At; decide)
    decide
  · cases hcall hat (b := .dequeuing (Uuid.ofByte 2)) (by unfold At; decide)
    decide
  · cases hcall hat (b := .cancelling (Uuid.ofByte 2)) (by unfold At; decide)
    intro status hfind
    obtain rfl : RunStatus.submitted = status := Option.some.inj hfind
    exact ⟨rfl, fun _ hwait => absurd (by decide) hwait⟩

/-- The run is terminated while it executes. -/
def terminated (run : Uuid) : List Op :=
  started run ++ [.request (.terminate run), .readRun 1, .cancel 1]

/-- The end of the execution overwrites the cancelled run. -/
theorem cancelled_succeeds : ¬ ∀ quota ops, Each (step quota) (Exact quota) empty ops := by
  intro h
  have hexact := h ⟨1, 5⟩ (terminated (Uuid.ofByte 1) ++ [.finish 0 .success])
    (terminated (Uuid.ofByte 1)) (.finish 0 .success) List.prefix_rfl
  have hfinal := hexact.final (Uuid.ofByte 1) .cancelled (by decide) rfl
  exact absurd hfinal (by decide)

end World

end Windrose.Pipelines

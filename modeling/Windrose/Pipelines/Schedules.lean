/-
  Pipelines/Schedules.lean --- the ticks of a recurring schedule.

  Source: services/pipeline-orchestrator/app/domain/scheduler.py (_set_enabled, delete,
  run_now, fire_due, _fire_one, _advance_only) and app/store/sql.py
  (SqlScheduleRepo.update, SqlScheduleScanner.due).

  The due scan, the creation of the run, the read of the row, its second read in `update` and
  the write are steps of their own, and those of any number of ticks and commands interleave.
  The session does not keep the row that `get` read, so that `update` loads it again and the
  UPDATE sets the columns in which what was read and changed differs from what it loaded; on
  a row that is gone by then it fails.
-/
import Mathlib.Algebra.Order.Ring.Int
import Mathlib.Data.List.Nodup
import Windrose.Foundation.Runs

set_option autoImplicit false

namespace Windrose.Pipelines.Schedules

open Windrose.Foundation

/-! ## One schedule -/

/-- The columns that decide when a schedule fires. -/
structure Schedule where
  enabled : Bool
  nextFireAt : Int
  deriving DecidableEq

/-- The row after `update` has loaded `loaded` and flushes `new`. -/
def Schedule.update (row loaded new : Schedule) : Schedule where
  enabled := if new.enabled = loaded.enabled then row.enabled else new.enabled
  nextFireAt := if new.nextFireAt = loaded.nextFireAt then row.nextFireAt else new.nextFireAt

/-- A run with the trigger `schedule` that a tick created. -/
structure Fired where
  occurrence : Int
  /-- the scan of its tick began after a pause or the delete -/
  late : Bool
  deriving DecidableEq

/-- Where a tick is with the schedule: `ran` says whether it created a run, `last` whether
it is in `_advance_only`. -/
inductive Phase where
  | createRun
  | get (ran last : Bool)
  | load (ran last : Bool) (read : Schedule)
  | update (ran last : Bool) (read loaded : Schedule)
  | over
  deriving DecidableEq

/-- A tick of the scheduler, and where it is. -/
structure Tick where
  now : Int
  occurrence : Int
  late : Bool
  phase : Phase
  deriving DecidableEq

/-- What a user does to a schedule. -/
inductive Command where
  | pause
  | resume
  | runNow
  deriving DecidableEq

/-- A command that has read the row and not yet committed; `loaded` is what its `update`
loaded. -/
structure Txn where
  command : Command
  time : Int
  read : Schedule
  loaded : Option Schedule
  deriving DecidableEq

/-- The row, the runs and the ticks. -/
structure World where
  row : Schedule
  deleted : Bool
  /-- the last command that was committed is a pause or the delete -/
  stopped : Bool
  runs : List Fired
  ticks : List Tick
  txns : List Txn
  deriving DecidableEq

/-- A step of a tick, or a command. -/
inductive Act where
  | scan (now : Int)
  | createRun (tick : Nat) (created returned : Bool)
  | get (tick : Nat) (ok : Bool)
  | load (tick : Nat) (ok : Bool)
  | update (tick : Nat) (ok : Bool)
  | crash (tick : Nat)
  | start (command : Command) (time : Int)
  | reload (txn : Nat)
  | commit (txn : Nat)
  | delete
  deriving DecidableEq

/-- `compute_next_fire` of the schedule's cron and timezone. -/
abbrev NextFire : Type := Int → Int

variable (computeNextFire : NextFire)

/-- What a command makes of the row that it read. -/
def Command.apply (command : Command) (time : Int) (sched : Schedule) : Schedule :=
  match command with
  | .pause => { sched with enabled := false }
  | .resume => ⟨true, computeNextFire time⟩
  | .runNow => sched

/-- A failure in `_fire_one` leads to `_advance_only`, one there ends the tick. -/
def Phase.failed (ran last : Bool) : Phase := if last then .over else .get ran true

namespace World

def init (row : Schedule) : World := ⟨row, false, false, [], [], []⟩

def goto (w : World) (i : Nat) (t : Tick) (phase : Phase) : World :=
  { w with ticks := w.ticks.set i { t with phase } }

/-- The row that a tick writes. -/
def advanced (w : World) (t : Tick) (read loaded : Schedule) : Schedule :=
  w.row.update loaded { read with nextFireAt := computeNextFire t.now }

/-- The row that a command writes. -/
def commanded (w : World) (x : Txn) (loaded : Schedule) : Schedule :=
  w.row.update loaded (x.command.apply computeNextFire x.time x.read)

def stoppedBy (w : World) : Command → Bool
  | .pause => true
  | .resume => false
  | .runNow => w.stopped

def createRun (w : World) (i : Nat) (t : Tick) (created returned : Bool) : World :=
  match t.phase with
  | .createRun =>
    let fired : Fired := ⟨t.occurrence, t.late⟩
    ({ w with runs := if created then w.runs ++ [fired] else w.runs }).goto i t
      (.get created (!returned))
  | _ => w

/-- `get`. -/
def get (w : World) (i : Nat) (t : Tick) (ok : Bool) : World :=
  match t.phase with
  | .get ran last =>
    if ok = false then w.goto i t (.failed ran last)
    else if w.deleted then w.goto i t .over
    else w.goto i t (.load ran last w.row)
  | _ => w

/-- The first half of `update`, which has nothing to do on a row that is gone. -/
def load (w : World) (i : Nat) (t : Tick) (ok : Bool) : World :=
  match t.phase with
  | .load ran last read =>
    if ok = false then w.goto i t (.failed ran last)
    else if w.deleted then w.goto i t .over
    else w.goto i t (.update ran last read w.row)
  | _ => w

/-- `update`. -/
def update (w : World) (i : Nat) (t : Tick) (ok : Bool) : World :=
  match t.phase with
  | .update ran last read loaded =>
    if ok = false ∨ w.deleted then w.goto i t (.failed ran last)
    else ({ w with row := w.advanced computeNextFire t read loaded }).goto i t .over
  | _ => w

/-- One step. -/
def step (w : World) : Act → World
  | .scan now =>
    if w.deleted = false ∧ w.row.enabled ∧ w.row.nextFireAt ≤ now then
      { w with ticks := w.ticks ++ [⟨now, w.row.nextFireAt, w.stopped, .createRun⟩] }
    else w
  | .createRun i created returned => (w.ticks[i]?).elim w fun t => w.createRun i t created returned
  | .get i ok => (w.ticks[i]?).elim w fun t => w.get i t ok
  | .load i ok => (w.ticks[i]?).elim w fun t => w.load i t ok
  | .update i ok => (w.ticks[i]?).elim w fun t => w.update computeNextFire i t ok
  | .crash i => (w.ticks[i]?).elim w fun t => w.goto i t .over
  | .start command time =>
    if w.deleted then w else { w with txns := w.txns ++ [⟨command, time, w.row, none⟩] }
  | .reload j =>
    (w.txns[j]?).elim w fun x =>
      if w.deleted then { w with txns := w.txns.eraseIdx j }
      else { w with txns := w.txns.set j { x with loaded := some w.row } }
  | .commit j =>
    (w.txns[j]?).elim w fun x => x.loaded.elim w fun loaded =>
      if w.deleted then { w with txns := w.txns.eraseIdx j }
      else
        { w with
          row := w.commanded computeNextFire x loaded
          stopped := w.stoppedBy x.command
          txns := w.txns.eraseIdx j }
  | .delete => if w.deleted then w else { w with deleted := true, stopped := true }

end World

/-! ## What a run of the system is asked for -/

def Phase.ran : Phase → Bool
  | .get ran _ | .load ran _ _ | .update ran _ _ _ => ran
  | _ => false

def Phase.last : Phase → Bool
  | .get _ last | .load _ last _ | .update _ last _ _ => last
  | _ => false

/-- What the tick has read and loaded, when it is about to write. -/
def Phase.writing : Phase → Option (Schedule × Schedule)
  | .update _ _ read loaded => some (read, loaded)
  | _ => none

namespace World

/-- One run for each occurrence, and none by a tick that scanned after a pause or the
delete. -/
def FiresOnce (w : World) : Prop := (w.runs.map (·.occurrence)).Nodup ∧ ∀ r ∈ w.runs, r.late = false

/-- A step that does not overlap with another tick or command, and that does not lose the
advance of a tick that has created its run. -/
def Alone (w : World) : Act → Prop
  | .createRun i created _ =>
    created → ∀ t ∈ w.ticks[i]?, t.phase = .createRun →
      w.deleted = false ∧ w.row.nextFireAt = t.occurrence ∧ ∀ u ∈ w.ticks, u.phase.ran = false
  | .get i ok | .load i ok => ok = false → ∀ t ∈ w.ticks[i]?, t.phase.ran → t.phase.last = false
  | .update i ok =>
    ∀ t ∈ w.ticks[i]?,
      (ok = false → t.phase.ran → t.phase.last = false) ∧
      ∀ x ∈ t.phase.writing,
        (w.row.enabled = false → x.1.enabled → x.2.enabled) ∧
        w.row.nextFireAt ≤ (w.advanced computeNextFire t x.1 x.2).nextFireAt
  | .crash i => ∀ t ∈ w.ticks[i]?, t.phase.ran = false
  | .commit j =>
    ∀ x ∈ w.txns[j]?, ∀ loaded ∈ x.loaded,
      (x.command = .pause → w.row.enabled → loaded.enabled) ∧
      (x.command = .runNow → w.row.enabled = false → x.read.enabled → loaded.enabled) ∧
      w.row.nextFireAt ≤ (w.commanded computeNextFire x loaded).nextFireAt
  | _ => True

instance (w : World) : Decidable w.FiresOnce := inferInstanceAs (Decidable (_ ∧ _))

instance (w : World) : ∀ a, Decidable (w.Alone computeNextFire a)
  | .createRun i created _ =>
    inferInstanceAs (Decidable (created → ∀ t ∈ w.ticks[i]?, t.phase = .createRun → _ ∧ _ ∧ _))
  | .get i ok | .load i ok => inferInstanceAs (Decidable (ok = false → ∀ t ∈ w.ticks[i]?, _ → _))
  | .update i ok =>
    inferInstanceAs (Decidable (∀ t ∈ w.ticks[i]?, (ok = false → _ → _) ∧ ∀ x ∈ _, (_ → _ → _) ∧ _))
  | .crash i => inferInstanceAs (Decidable (∀ t ∈ w.ticks[i]?, _))
  | .commit j =>
    inferInstanceAs (Decidable (∀ x ∈ w.txns[j]?, ∀ loaded ∈ _,
      (_ → _ → _) ∧ (_ → _ → _ → _) ∧ _ ≤ _))
  | .scan _ | .start .. | .reload _ | .delete => .isTrue trivial

/-- What every step keeps: an occurrence that has a run is behind the row, or the tick that
created the run has still to advance it. -/
structure Inv (w : World) : Prop where
  firesOnce : w.FiresOnce
  passed : w.deleted = false → ∀ r ∈ w.runs, r.occurrence < w.row.nextFireAt ∨
    ∃ t ∈ w.ticks, t.phase.ran ∧ t.occurrence = r.occurrence
  scanned : ∀ t ∈ w.ticks, t.occurrence ≤ t.now ∧ t.late = false ∧
    ∀ x ∈ t.phase.writing, x.2.nextFireAt ≤ w.row.nextFireAt
  stopped : w.deleted = false → w.stopped → w.row.enabled = false

end World

/-! ## One step -/

section Lists

variable {α : Type} {l : List α} {i : Nat} {a b c : α}

theorem mem_set_of_mem (h : l[i]? = some a) (hb : b ∈ l) : b = a ∨ b ∈ l.set i c := by
  obtain ⟨j, hj⟩ := List.mem_iff_getElem?.mp hb
  by_cases hij : i = j
  · subst hij
    exact .inl (Option.some.inj (hj.symm.trans h))
  · exact .inr (List.mem_iff_getElem?.mpr ⟨j, by rw [List.getElem?_set_ne hij, hj]⟩)

end Lists

theorem Schedule.le_update {row loaded new : Schedule}
    (hloaded : loaded.nextFireAt ≤ row.nextFireAt) :
    new.nextFireAt ≤ (row.update loaded new).nextFireAt := by
  unfold update
  dsimp only
  split
  · next heq => rwa [heq]
  · exact le_rfl

theorem Schedule.update_disabled {row loaded new : Schedule} (hrow : row.enabled = false)
    (hnew : new.enabled → loaded.enabled) : (row.update loaded new).enabled = false := by
  unfold update
  dsimp only
  split
  · exact hrow
  · next hne =>
    cases henabled : new.enabled with
    | false => rfl
    | true => exact absurd (henabled.trans (hnew henabled).symm) hne

namespace World

variable {computeNextFire} {w : World} {i : Nat} {t : Tick}

theorem inv_init (row : Schedule) : (init row).Inv := by
  constructor
  · exact ⟨List.nodup_nil, nofun⟩
  · exact nofun
  · exact nofun
  · exact fun _ hstopped => absurd hstopped Bool.false_ne_true

theorem Inv.goto (h : w.Inv) (ht : w.ticks[i]? = some t) {phase : Phase}
    (howed : w.deleted = false → t.phase.ran → phase.ran ∨ t.occurrence < w.row.nextFireAt)
    (hwriting : ∀ x ∈ phase.writing, x.2.nextFireAt ≤ w.row.nextFireAt) :
    (w.goto i t phase).Inv := by
  have hset : ({ t with phase } : Tick) ∈ (w.goto i t phase).ticks := by
    obtain ⟨hi, -⟩ := List.getElem?_eq_some_iff.mp ht
    exact List.mem_set hi _
  refine ⟨h.firesOnce, fun hdeleted r hr => ?_, fun u hu => ?_, h.stopped⟩
  · obtain hpassed | ⟨u, hu, hran, heq⟩ := h.passed hdeleted r hr
    · exact .inl hpassed
    · obtain rfl | hkept := mem_set_of_mem (c := { t with phase }) ht hu
      · obtain hphase | hlt := howed hdeleted hran
        · exact .inr ⟨_, hset, hphase, heq⟩
        · exact .inl (heq ▸ hlt)
      · exact .inr ⟨u, hkept, hran, heq⟩
  · obtain hkept | rfl := List.mem_or_eq_of_mem_set hu
    · exact h.scanned u hkept
    · obtain ⟨hdue, hlate, -⟩ := h.scanned t (List.mem_of_getElem? ht)
      exact ⟨hdue, hlate, hwriting⟩

theorem Inv.moved (h : w.Inv) {row : Schedule} {stopped : Bool} {txns : List Txn}
    (hle : w.row.nextFireAt ≤ row.nextFireAt)
    (hstopped : w.deleted = false → stopped → row.enabled = false) :
    ({ w with row, stopped, txns } : World).Inv := by
  refine ⟨h.firesOnce, fun hdeleted r hr => ?_, fun t ht => ?_, hstopped⟩
  · exact (h.passed hdeleted r hr).imp_left fun hlt => hlt.trans_le hle
  · obtain ⟨hdue, hlate, hwriting⟩ := h.scanned t ht
    exact ⟨hdue, hlate, fun x hx => (hwriting x hx).trans hle⟩

theorem Inv.scan (h : w.Inv) {now : Int} (hrow : w.deleted = false ∧ w.row.enabled = true)
    (hdue : w.row.nextFireAt ≤ now) :
    ({ w with ticks := w.ticks ++ [⟨now, w.row.nextFireAt, w.stopped, .createRun⟩] } :
      World).Inv := by
  have hlate : w.stopped = false := by
    cases hstopped : w.stopped with
    | false => rfl
    | true => exact absurd ((h.stopped hrow.1 hstopped).symm.trans hrow.2) Bool.false_ne_true
  refine ⟨h.firesOnce, fun hdeleted r hr => ?_, fun t ht => ?_, h.stopped⟩
  · refine (h.passed hdeleted r hr).imp_right fun ⟨t, ht, howed⟩ => ?_
    exact ⟨t, List.mem_append_left _ ht, howed⟩
  · obtain ht | rfl := List.mem_append.mp ht |>.imp_right List.mem_singleton.mp
    · exact h.scanned t ht
    · exact ⟨hdue, hlate, fun x hx => nomatch hx⟩

theorem Inv.createRun (h : w.Inv) (ht : w.ticks[i]? = some t) {created returned : Bool}
    (hphase : t.phase = .createRun)
    (halone : created → w.deleted = false ∧ w.row.nextFireAt = t.occurrence ∧
      ∀ u ∈ w.ticks, u.phase.ran = false) :
    (w.createRun i t created returned).Inv := by
  have hwriting : ∀ x ∈ (Phase.get created (!returned)).writing,
      x.2.nextFireAt ≤ w.row.nextFireAt := fun x hx => nomatch hx
  have hran : t.phase.ran = false := by rw [hphase]; rfl
  unfold World.createRun
  rw [hphase]
  cases created with
  | false =>
    exact h.goto ht (fun _ howed => absurd (hran.symm.trans howed) Bool.false_ne_true) hwriting
  | true =>
    obtain ⟨hdeleted, hrow, hnone⟩ := halone rfl
    have hgoto : (w.goto i t (.get true (!returned))).Inv :=
      h.goto ht (fun _ _ => .inl rfl) hwriting
    have hlt : ∀ r ∈ w.runs, r.occurrence < t.occurrence := by
      intro r hr
      obtain hlt | ⟨u, hu, howed, -⟩ := h.passed hdeleted r hr
      · exact hrow ▸ hlt
      · exact absurd ((hnone u hu).symm.trans howed) Bool.false_ne_true
    obtain ⟨-, hlate, -⟩ := h.scanned t (List.mem_of_getElem? ht)
    obtain ⟨hi, -⟩ := List.getElem?_eq_some_iff.mp ht
    refine ⟨⟨?_, fun r hr => ?_⟩, fun hd r hr => ?_, hgoto.scanned, hgoto.stopped⟩
    · change ((w.runs ++ [_]).map _).Nodup
      rw [List.map_append, List.nodup_append]
      refine ⟨h.firesOnce.1, List.nodup_singleton _, fun a ha b hb => ?_⟩
      obtain ⟨r, hr, rfl⟩ := List.mem_map.mp ha
      obtain rfl := List.mem_singleton.mp hb
      exact (hlt r hr).ne
    · obtain hr | rfl := List.mem_append.mp hr |>.imp_right List.mem_singleton.mp
      · exact h.firesOnce.2 r hr
      · exact hlate
    · obtain hr | rfl := List.mem_append.mp hr |>.imp_right List.mem_singleton.mp
      · exact hgoto.passed hd r hr
      · exact .inr ⟨_, List.mem_set hi _, rfl, rfl⟩

theorem Inv.failed (h : w.Inv) (ht : w.ticks[i]? = some t) {ran last : Bool}
    (hran : t.phase.ran = ran)
    (hlast : w.deleted = false → ran → last = false) : (w.goto i t (.failed ran last)).Inv := by
  refine h.goto ht (fun hdeleted howed => .inl ?_) fun x hx => ?_
  · have hran := hran.symm.trans howed
    rw [Phase.failed, hlast hdeleted hran, hran]
    rfl
  · cases last <;> cases hx

theorem Inv.get (h : w.Inv) (ht : w.ticks[i]? = some t) {ok : Bool}
    (hfail : ok = false → t.phase.ran → t.phase.last = false) : (w.get i t ok).Inv := by
  unfold World.get
  split
  · next ran last hphase =>
    have hran : t.phase.ran = ran := by rw [hphase]; rfl
    have hlast : t.phase.last = last := by rw [hphase]; rfl
    split
    · next hok => exact h.failed ht hran fun _ howed => hlast ▸ hfail hok (hran.trans howed)
    split
    · next hdeleted =>
      refine h.goto ht (fun hd => absurd (hd.symm.trans hdeleted) Bool.false_ne_true) ?_
      exact nofun
    · exact h.goto ht (fun _ howed => .inl (hran.symm.trans howed)) nofun
  · exact h

theorem Inv.load (h : w.Inv) (ht : w.ticks[i]? = some t) {ok : Bool}
    (hfail : ok = false → t.phase.ran → t.phase.last = false) : (w.load i t ok).Inv := by
  unfold World.load
  split
  · next ran last read hphase =>
    have hran : t.phase.ran = ran := by rw [hphase]; rfl
    have hlast : t.phase.last = last := by rw [hphase]; rfl
    split
    · next hok => exact h.failed ht hran fun _ howed => hlast ▸ hfail hok (hran.trans howed)
    split
    · next hdeleted =>
      refine h.goto ht (fun hd => absurd (hd.symm.trans hdeleted) Bool.false_ne_true) ?_
      exact nofun
    · refine h.goto ht (fun _ howed => .inl (hran.symm.trans howed)) fun x hx => ?_
      obtain rfl : (read, w.row) = x := Option.some.inj hx
      exact le_rfl
  · exact h

theorem Inv.update (hnext : ∀ time, time < computeNextFire time) (h : w.Inv)
    (ht : w.ticks[i]? = some t) {ok : Bool}
    (hfail : ok = false → t.phase.ran → t.phase.last = false) (hback : ∀ x ∈ t.phase.writing,
      (w.row.enabled = false → x.1.enabled → x.2.enabled) ∧
      w.row.nextFireAt ≤ (w.advanced computeNextFire t x.1 x.2).nextFireAt) :
    (w.update computeNextFire i t ok).Inv := by
  unfold World.update
  split
  · next ran last read loaded hphase =>
    have hran : t.phase.ran = ran := by rw [hphase]; rfl
    have hlast : t.phase.last = last := by rw [hphase]; rfl
    have hmem : (read, loaded) ∈ t.phase.writing := by rw [hphase]; rfl
    split
    · next hor =>
      refine h.failed ht hran fun hdeleted howed => ?_
      obtain hok | hd := hor
      · exact hlast ▸ hfail hok (hran.trans howed)
      · exact absurd (hdeleted.symm.trans hd) Bool.false_ne_true
    · obtain ⟨hdue, -, hwriting⟩ := h.scanned t (List.mem_of_getElem? ht)
      obtain ⟨henabled, hle⟩ := hback _ hmem
      have hpast : t.occurrence < (w.advanced computeNextFire t read loaded).nextFireAt :=
        (hdue.trans_lt (hnext t.now)).trans_le (Schedule.le_update (hwriting _ hmem))
      have hmoved : ({ w with row := w.advanced computeNextFire t read loaded } : World).Inv := by
        refine h.moved hle fun hdeleted hstopped => ?_
        have hrow := h.stopped hdeleted hstopped
        exact Schedule.update_disabled hrow (henabled hrow)
      exact hmoved.goto ht (fun _ _ => .inr hpast) nofun
  · exact h

theorem Inv.commit (h : w.Inv) {x : Txn} {loaded : Schedule} {txns : List Txn}
    (hpause : x.command = .pause → w.row.enabled → loaded.enabled)
    (hrun : x.command = .runNow → w.row.enabled = false → x.read.enabled → loaded.enabled)
    (hback : w.row.nextFireAt ≤ (w.commanded computeNextFire x loaded).nextFireAt) :
    ({ w with
      row := w.commanded computeNextFire x loaded, stopped := w.stoppedBy x.command, txns } :
      World).Inv := by
  refine h.moved hback fun hdeleted hstopped => ?_
  unfold commanded
  cases hcommand : x.command with
  | pause =>
    cases hrow : w.row.enabled with
    | false => exact Schedule.update_disabled hrow nofun
    | true =>
      refine if_neg fun heq => ?_
      exact absurd (heq.trans (hpause hcommand hrow)) Bool.false_ne_true
  | resume =>
    rw [hcommand] at hstopped
    cases hstopped
  | runNow =>
    rw [hcommand] at hstopped
    have hrow := h.stopped hdeleted hstopped
    exact Schedule.update_disabled hrow (hrun hcommand hrow)

theorem Inv.step (hnext : ∀ time, time < computeNextFire time) (h : w.Inv) (a : Act)
    (halone : w.Alone computeNextFire a) : (w.step computeNextFire a).Inv := by
  cases a with
  | scan now =>
    rw [World.step]
    split
    · next hdue => exact h.scan ⟨hdue.1, hdue.2.1⟩ hdue.2.2
    · exact h
  | createRun i created returned =>
    rw [World.step]
    cases ht : w.ticks[i]? with
    | none => exact h
    | some t =>
      by_cases hphase : t.phase = .createRun
      · exact h.createRun ht hphase fun hcreated => halone hcreated t ht hphase
      · rw [Option.elim_some, World.createRun]
        split
        · contradiction
        · exact h
  | get i ok =>
    rw [World.step]
    cases ht : w.ticks[i]? with
    | none => exact h
    | some t => exact h.get ht fun hok => halone hok t ht
  | load i ok =>
    rw [World.step]
    cases ht : w.ticks[i]? with
    | none => exact h
    | some t => exact h.load ht fun hok => halone hok t ht
  | update i ok =>
    rw [World.step]
    cases ht : w.ticks[i]? with
    | none => exact h
    | some t => exact h.update hnext ht (halone t ht).1 (halone t ht).2
  | crash i =>
    rw [World.step]
    cases ht : w.ticks[i]? with
    | none => exact h
    | some t =>
      refine h.goto ht (fun _ howed => ?_) nofun
      exact absurd ((halone t ht).symm.trans howed) Bool.false_ne_true
  | start command time =>
    rw [World.step]
    split
    · exact h
    · exact h.moved le_rfl h.stopped
  | reload j =>
    rw [World.step]
    cases w.txns[j]? with
    | none => exact h
    | some x =>
      rw [Option.elim_some]
      split
      · exact h.moved le_rfl h.stopped
      · exact h.moved le_rfl h.stopped
  | commit j =>
    rw [World.step]
    cases hx : w.txns[j]? with
    | none => exact h
    | some x =>
      rw [Option.elim_some]
      cases hloaded : x.loaded with
      | none => exact h
      | some loaded =>
        obtain ⟨hpause, hrun, hback⟩ := halone x hx loaded hloaded
        rw [Option.elim_some]
        split
        · exact h.moved le_rfl h.stopped
        · exact h.commit hpause hrun hback
  | delete =>
    rw [World.step]
    split
    · exact h
    · exact ⟨h.firesOnce, (nomatch ·), h.scanned, (nomatch ·)⟩

end World

/-! ## The schedules of a scan -/

section Loop

variable {σ S R E : Type}

/-- The transactions that a tick makes for one schedule, on the database. -/
structure Calls (σ S R E : Type) where
  createRun : S → σ → Except E R × σ
  /-- the second transaction of `_fire_one` -/
  record : S → R → σ → Except E Unit × σ
  /-- the transaction of `_advance_only` -/
  advance : S → σ → Except E Unit × σ

namespace Calls

variable (d : Calls σ S R E)

/-- `_fire_one`. -/
def fireOne (sched : S) (db : σ) : Except E R × σ :=
  match d.createRun sched db with
  | (.error e, db) => (.error e, db)
  | (.ok run, db) =>
    match d.record sched run db with
    | (.error e, db) => (.error e, db)
    | (.ok (), db) => (.ok run, db)

/-- `_advance_only` logs its failure. -/
def advanceOnly (sched : S) (db : σ) : σ := (d.advance sched db).2

/-- The loop of `fire_due` over the schedules of its scan, with what each came to; `fired`
is the runs among them. -/
def fireDue : List S → σ → List (S × Except E R) × σ
  | [], db => ([], db)
  | sched :: due, db =>
    match d.fireOne sched db with
    | (.ok run, db) =>
      let (rest, db) := fireDue due db
      ((sched, .ok run) :: rest, db)
    | (.error e, db) =>
      let (rest, db) := fireDue due (d.advanceOnly sched db)
      ((sched, .error e) :: rest, db)

/-- Each schedule of the scan has its turn, whatever the others come to. -/
def EachFires (due : List S) (db : σ) : Prop :=
  (d.fireDue due db).1.map Prod.fst = due ∧
    ∀ x ∈ (d.fireDue due db).1, ∃ db, x.2 = (d.fireOne x.1 db).1

theorem eachFires (due : List S) (db : σ) : d.EachFires due db := by
  induction due generalizing db with
  | nil => exact ⟨rfl, nofun⟩
  | cons sched due ih =>
    unfold EachFires fireDue
    split
    · next run db' hfire =>
      obtain ⟨hall, hturn⟩ := ih db'
      refine ⟨congrArg (sched :: ·) hall, List.forall_mem_cons.mpr ⟨⟨db, ?_⟩, hturn⟩⟩
      rw [hfire]
    · next e db' hfire =>
      obtain ⟨hall, hturn⟩ := ih (d.advanceOnly sched db')
      refine ⟨congrArg (sched :: ·) hall, List.forall_mem_cons.mpr ⟨⟨db, ?_⟩, hturn⟩⟩
      rw [hfire]

end Calls

end Loop

/-! ## The result -/

namespace World

/-- Along a run whose steps do not overlap, each occurrence is fired at most once, and not
by a tick that scanned after the schedule was stopped; and a failure of one schedule does not
keep a tick from the others. -/
theorem fires_once {computeNextFire : NextFire} (hnext : ∀ time, time < computeNextFire time)
    (row : Schedule) (acts : List Act)
    (halone : Each (step computeNextFire) (Alone computeNextFire) (init row) acts)
    {σ S R E : Type} (d : Calls σ S R E) (due : List S) (db : σ) :
    Always (step computeNextFire) FiresOnce (init row) acts ∧ d.EachFires due db := by
  refine ⟨fun done hdone => ?_, d.eachFires due db⟩
  exact (always_of_each (fun w a h => h.step hnext a) (inv_init row) halone done hdone).firesOnce

/-- An hourly schedule, with a failed creation, a pause, a resume and the delete. -/
theorem fires_once_hourly : Always (step fun t => (t / 60 + 1) * 60) FiresOnce (init ⟨true, 60⟩)
      [.scan 61, .createRun 0 true true, .start .runNow 62, .get 0 true, .reload 0, .load 0 true,
        .commit 0, .update 0 false, .get 0 true, .load 0 true, .update 0 true, .scan 121,
        .createRun 1 false false, .get 1 true, .load 1 true, .update 1 true, .start .pause 170,
        .reload 0, .commit 0, .scan 185, .start .resume 190, .reload 0, .commit 0, .scan 245,
        .createRun 2 true true, .get 2 true, .load 2 true, .update 2 true, .delete] ∧
    Calls.EachFires (⟨fun s db => (if s = 1 then .error () else .ok s, db),
      fun _ _ db => (.ok (), db), fun _ db => (.error (), db)⟩ : Calls Unit Nat Nat Unit) [0, 1, 2]
      () :=
  fires_once (fun t => by omega) _ _ (by decide) _ _ _

/-- Two ticks that overlap, a crash before the advance, and a pause that is committed between
the two reads of a tick, which then writes back the row as it was. -/
theorem occurrences_fire_twice :
    ¬ FiresOnce (run (step fun t => (t / 60 + 1) * 60) (init ⟨true, 60⟩)
      [.scan 61, .scan 61, .createRun 0 true true, .createRun 1 true true]) ∧
    ¬ FiresOnce (run (step fun t => (t / 60 + 1) * 60) (init ⟨true, 60⟩)
      [.scan 61, .createRun 0 true true, .crash 0, .scan 70, .createRun 1 true true]) ∧
    ¬ FiresOnce (run (step fun t => (t / 60 + 1) * 60) (init ⟨true, 60⟩)
      [.scan 61, .createRun 0 true true, .get 0 true, .start .pause 62, .reload 0, .commit 0,
        .load 0 true, .update 0 true, .scan 121, .createRun 1 true true]) := by
  decide

end World

end Windrose.Pipelines.Schedules

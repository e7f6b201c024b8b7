/-
  Ingestions/Limits.lean --- how many jobs run at a time.

  Source: services/ingestion-service/app/domain/services/runner.py (_acquire_slot,
  _transition_retry, _transition_resume) and state_machine.py.

  The two limits are counts over the rows.  Only `_acquire_slot`, which checks both counts,
  and `_transition_resume`, which checks none, make a row running.
-/
import Windrose.Ingestions.Runner

set_option autoImplicit false

namespace Windrose.Ingestions

open Windrose.Foundation

variable {ρ V ι : Type}

/-- ING-FR-082 and BR-7: at most `max` running jobs of a tenant, and one running or
committing job of a dataset. -/
def Store.WithinLimits (max : Nat) (s : Store ρ) : Prop :=
  ∀ tenant, s.running tenant ≤ max ∧ ∀ urn, s.occupied tenant urn ≤ 1

/-- A job that waits to go on finds its dataset idle and its tenant below the cap. -/
def ResumesAlone (R : Runner ρ V) (s : Store ρ) : Cmd ρ V → Prop
  | .transitionResume tenant id =>
    ∀ ing, s.job tenant id = some ing → ing.status = .retrying →
      s.running tenant < R.maxRunningPerTenant ∧ s.occupied tenant ing.datasetURN = 0
  | _ => True

/-! ## The counts -/

variable {s : Store ρ}

theorem Store.job_eq_some {tenant id : Bytes} {ing : Ingestion}
    (h : s.job tenant id = some ing) : s.ingestions.lookup id = some ing ∧
      ing.tenantID = tenant := by
  unfold Store.job at h
  rw [Option.filter_eq_some_iff] at h
  exact ⟨h.1, by simpa using h.2⟩

section Counts

variable {s s' : Store ρ} {id : Bytes} {ing ing' : Ingestion}

theorem count_replaced (hlookup : s.ingestions.lookup id = some ing)
    (hs' : s'.ingestions = s.ingestions.insert id ing') (p : Ingestion → Bool) :
    s'.count p + (if p ing then 1 else 0) = s.count p + if p ing' then 1 else 0 := by
  unfold Store.count
  rw [hs']
  exact Dict.count_insert hlookup ing'

theorem count_inserted (hnew : id ∉ s.ingestions)
    (hs' : s'.ingestions = s.ingestions.insert id ing') (p : Ingestion → Bool) :
    s'.count p = s.count p + if p ing' then 1 else 0 := by
  unfold Store.count
  rw [hs']
  exact Dict.count_insert_new hnew ing'

variable {max : Nat}

theorem Store.WithinLimits.of_count_le (h : s.WithinLimits max)
    (hrunning : ∀ tenant, s'.running tenant ≤ s.running tenant)
    (hoccupied : ∀ tenant urn, s'.occupied tenant urn ≤ s.occupied tenant urn) :
    s'.WithinLimits max := fun tenant =>
  ⟨(hrunning tenant).trans (h tenant).1, fun urn => (hoccupied tenant urn).trans ((h tenant).2 urn)⟩

theorem Store.WithinLimits.leaves (h : s.WithinLimits max)
    (hlookup : s.ingestions.lookup id = some ing)
    (hs' : s'.ingestions = s.ingestions.insert id ing')
    (hrunning : ing'.status ≠ .running) (hcommitting : ing'.status ≠ .committing) :
    s'.WithinLimits max := by
  refine h.of_count_le (fun tenant => ?_) fun tenant urn => ?_
  · have hcount := count_replaced hlookup hs' fun ing =>
      ing.tenantID = tenant && ing.status = .running
    simp only [hrunning, decide_false, Bool.and_false, Bool.false_eq_true, if_false] at hcount
    exact (Nat.le_add_right _ _).trans hcount.le
  · have hcount := count_replaced hlookup hs' fun ing =>
      ing.tenantID = tenant && ing.datasetURN = urn &&
        (ing.status = .running || ing.status = .committing)
    simp only [hrunning, hcommitting, decide_false, Bool.or_false, Bool.and_false,
      Bool.false_eq_true, if_false] at hcount
    exact (Nat.le_add_right _ _).trans hcount.le

theorem Store.WithinLimits.commits (h : s.WithinLimits max)
    (hlookup : s.ingestions.lookup id = some ing) (hstatus : ing.status = .running)
    (hs' : s'.ingestions = s.ingestions.insert id { ing with status := .committing }) :
    s'.WithinLimits max := by
  refine h.of_count_le (fun tenant => ?_) fun tenant urn => ?_
  · have hcount := count_replaced hlookup hs' fun ing =>
      ing.tenantID = tenant && ing.status = .running
    simp only [reduceCtorEq, decide_false, Bool.and_false, Bool.false_eq_true, if_false] at hcount
    exact (Nat.le_add_right _ _).trans hcount.le
  · have hcount := count_replaced hlookup hs' fun ing =>
      ing.tenantID = tenant && ing.datasetURN = urn &&
        (ing.status = .running || ing.status = .committing)
    simp only [hstatus, decide_true, Bool.true_or, Bool.or_true] at hcount
    exact (Nat.add_right_cancel hcount).le

/-- A row that is not counted begins to run: exactly its two counts grow. -/
theorem Store.WithinLimits.runs_iff (h : s.WithinLimits max)
    (hlookup : s.ingestions.lookup id = some ing)
    (hrunning : ing.status ≠ .running) (hcommitting : ing.status ≠ .committing)
    (hs' : s'.ingestions = s.ingestions.insert id { ing with status := .running }) :
    s'.WithinLimits max ↔
      s.running ing.tenantID < max ∧ s.occupied ing.tenantID ing.datasetURN = 0 := by
  have hrun : ∀ tenant,
      s'.running tenant = s.running tenant + if ing.tenantID = tenant then 1 else 0 := by
    intro tenant
    have hcount := count_replaced hlookup hs' fun ing =>
      ing.tenantID = tenant && ing.status = .running
    simpa [Store.running, hrunning] using hcount
  have hoccupy : ∀ tenant urn, s'.occupied tenant urn =
      s.occupied tenant urn + if ing.tenantID = tenant ∧ ing.datasetURN = urn then 1 else 0 := by
    intro tenant urn
    have hcount := count_replaced hlookup hs' fun ing =>
      ing.tenantID = tenant && ing.datasetURN = urn &&
        (ing.status = .running || ing.status = .committing)
    simpa [Store.occupied, hrunning, hcommitting] using hcount
  constructor
  · intro hlimits
    have hone := (hlimits ing.tenantID).1
    have hother := (hlimits ing.tenantID).2 ing.datasetURN
    rw [hrun, if_pos rfl] at hone
    rw [hoccupy, if_pos ⟨rfl, rfl⟩] at hother
    exact ⟨hone, by omega⟩
  · rintro ⟨hfree, hidle⟩ tenant
    refine ⟨?_, fun urn => ?_⟩
    · rw [hrun]
      by_cases hsame : ing.tenantID = tenant
      · subst hsame
        rw [if_pos rfl]
        exact hfree
      · rw [if_neg hsame]
        exact (h tenant).1
    · rw [hoccupy]
      by_cases hsame : ing.tenantID = tenant ∧ ing.datasetURN = urn
      · obtain ⟨rfl, rfl⟩ := hsame
        rw [if_pos ⟨rfl, rfl⟩, hidle]
      · rw [if_neg hsame]
        exact (h tenant).2 urn

theorem Store.WithinLimits.inserted (h : s.WithinLimits max)
    (hnew : id ∉ s.ingestions) (hs' : s'.ingestions = s.ingestions.insert id ing')
    (hstatus : ing'.status = .created ∨ ing'.status = .queued) : s'.WithinLimits max := by
  refine h.of_count_le (fun tenant => ?_) fun tenant urn => ?_
  · unfold Store.running
    rw [count_inserted hnew hs']
    obtain hstatus | hstatus := hstatus <;> simp [hstatus]
  · unfold Store.occupied
    rw [count_inserted hnew hs']
    obtain hstatus | hstatus := hstatus <;> simp [hstatus]

theorem Store.WithinLimits.congr (h : s.WithinLimits max)
    (hs' : s'.ingestions = s.ingestions) : s'.WithinLimits max :=
  h.of_count_le (fun tenant => by unfold Store.running Store.count; rw [hs'])
    fun tenant urn => by unfold Store.occupied Store.count; rw [hs']

end Counts

/-! ## One command -/

/-- What a command does to the limits, `_transition_resume` of a waiting job apart. -/
theorem withinLimits_effect (R : Runner ρ V) (o : Cmd ρ V)
    (h : s.WithinLimits R.maxRunningPerTenant) (halone : ResumesAlone R s o) :
    (effect R o s).2.WithinLimits R.maxRunningPerTenant := by
  cases effect_rows R s o with
  | same hs' => exact h.congr hs'
  | inserted ing hnew hstatus hs' => exact h.inserted hnew hs' hstatus
  | edited tenant id ing ing' htarget hjob hedit hs' =>
    obtain ⟨hlookup, htenant⟩ := Store.job_eq_some hjob
    cases hedit with
    | acquireSlot hstatus hrunning hoccupied =>
      obtain ⟨rfl, rfl⟩ := Prod.mk.inj (Option.some.inj htarget)
      subst htenant
      exact (h.runs_iff hlookup (by simp [hstatus]) (by simp [hstatus]) hs').mpr
        ⟨hrunning, hoccupied⟩
    | transitionResume hstatus =>
      obtain ⟨rfl, rfl⟩ := Prod.mk.inj (Option.some.inj htarget)
      have hfree := halone ing hjob hstatus
      subst htenant
      exact (h.runs_iff hlookup (by simp [hstatus]) (by simp [hstatus]) hs').mpr hfree
    | committing hstatus => exact h.commits hlookup hstatus hs'
    | transitionRetry => exact h.leaves hlookup hs' (by simp) (by simp)
    | fail => exact h.leaves hlookup hs' (by simp) (by simp)
    | completed => exact h.leaves hlookup hs' (by simp) (by simp)
    | openUpload => exact h.leaves hlookup hs' (by simp) (by simp)
    | completeUpload => exact h.leaves hlookup hs' (by simp) (by simp)
    | expire => exact h.leaves hlookup hs' (by simp) (by simp)
    | cancel => exact h.leaves hlookup hs' (by simp) (by simp)

theorem effect_transitionResume (R : Runner ρ V) {tenant id : Bytes}
    {ing : Ingestion} (hjob : s.job tenant id = some ing) (hstatus : ing.status = .retrying) :
    (effect R (.transitionResume tenant id) s).2.ingestions =
      s.ingestions.insert id { ing with status := .running } := by
  have hto : ing.recordTransition .running {} = .ok { ing with status := .running } := by
    unfold Ingestion.recordTransition
    rw [hstatus]
    rfl
  simp only [effect, Store.change, hjob, hto]

theorem withinLimits_effect_iff (R : Runner ρ V) (o : Cmd ρ V)
    (h : s.WithinLimits R.maxRunningPerTenant) :
    (effect R o s).2.WithinLimits R.maxRunningPerTenant ↔ ResumesAlone R s o := by
  refine ⟨fun hlimits => ?_, withinLimits_effect R o h⟩
  cases o with
  | transitionResume tenant id =>
    intro ing hjob hstatus
    obtain ⟨hlookup, rfl⟩ := Store.job_eq_some hjob
    exact (h.runs_iff hlookup (by simp [hstatus]) (by simp [hstatus])
      (effect_transitionResume R hjob hstatus)).mp hlimits
  | _ => trivial

/-! ## Runs -/

variable [LT V] [DecidableLT V] [DecidableEq ι]

/-- The limits hold along a run exactly when every job that goes on after a transient
failure finds room. -/
theorem limits_kept_iff (R : Runner ρ V) {s : Store ρ}
    (hs : s.WithinLimits R.maxRunningPerTenant) (ms : List (Step ι ρ)) :
    Always (step R) (fun w => w.store.WithinLimits R.maxRunningPerTenant) (Pool.idle s) ms ↔
      Each (step R) (fun w m => ∀ o ∈ w.operation m, ResumesAlone R w.store o) (Pool.idle s) ms :=
  Pool.run_invariant_iff (program R) (effect R) outside
    (fun _ o h => withinLimits_effect_iff R o h)
    (fun s t h => h.congr (outside_ingestions t s)) hs ms

theorem withinLimits_empty (max : Nat) : ({} : Store ρ).WithinLimits max :=
  fun _ => ⟨Nat.zero_le _, fun _ => Nat.zero_le _⟩

/-! ## A job that goes on beside another -/

/-- A source that is the rows of a connection, with numbers for watermarks. -/
def sampleRunner : Runner Nat Nat :=
  { decode := fun _ _ content => .ok (content.map (·.toNat))
    columns := fun _ _ => [bytes "n"]
    answer := fun rows _ value => rows.filter fun row => value.all fun v => decide (v < row)
    cell := fun _ row => some row
    coerce := fun _ text => some (decVal text)
    serialize := itoa }

def sampleTenant : Bytes := List.replicate 36 48

def sampleURN : Bytes :=
  bytes "wr:" ++ sampleTenant ++ bytes ":dataset:dataset/" ++ List.replicate 36 49

/-- A query job over the connection `c`. -/
def sampleQuery : NewIngestion :=
  { ingestionMode := .query
    connectionID := some (bytes "c")
    datasetURN := some sampleURN
    statement := some (bytes "SELECT 1") }

/-- The first job meets a transient failure, the second takes the slot, and the first
goes on. -/
def besideMoves : List (Step Nat Nat) :=
  [.other (.addConnection (bytes "c") ⟨sampleTenant, false⟩),
    .start 0 (.create sampleTenant (bytes "a") [] sampleQuery),
    .go 0, .go 0, .go 0, .go 0, .go 0, .fail 0 (.transient .sourceUnreachable "outage"), .go 0,
    .start 1 (.create sampleTenant (bytes "b") [] sampleQuery), .go 1, .go 1,
    .go 0, .go 0]

theorem limits_kept_iff_empty : Always (step sampleRunner)
        (fun w => w.store.WithinLimits sampleRunner.maxRunningPerTenant)
        (Pool.idle {}) besideMoves ↔
      Each (step sampleRunner)
        (fun w m => ∀ o ∈ w.operation m, ResumesAlone sampleRunner w.store o) (Pool.idle {})
        besideMoves :=
  limits_kept_iff sampleRunner (withinLimits_empty _) besideMoves

theorem limits_exceeded : ¬ Always (step sampleRunner)
      (fun w => w.store.WithinLimits sampleRunner.maxRunningPerTenant)
      (Pool.idle {}) besideMoves := by
  intro h
  have htwo : (run (step sampleRunner) (Pool.idle {}) besideMoves).store.occupied sampleTenant
      (some sampleURN) = 2 := by decide
  have hone := (h besideMoves List.prefix_rfl sampleTenant).2 (some sampleURN)
  omega

end Windrose.Ingestions

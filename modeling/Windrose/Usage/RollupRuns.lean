/-
  Usage/RollupRuns.lean --- when the rollups are the sums of the raw usage.

  Source: services/usage-service/internal/store/rollups.go ("Idempotent: re-running
  yields identical totals"; "Finalized daily/monthly buckets are not overwritten in
  place") over internal/store/raw.go and internal/jobs/jobs.go.

  A refresh overwrites a bucket with the sum of its rows of the last 49 hours.  A run keeps
  what retention dropped, what came since the last refresh and which months were finalized.
-/
import Windrose.Foundation.Runs
import Windrose.Usage.Rollups

set_option autoImplicit false

namespace Windrose.Usage

open Windrose.Foundation

/-! ## Runs -/

/-- The store, and what has been done to it. -/
structure World where
  store : Store
  /-- raw rows that retention has dropped -/
  dropped : List MeterRecord
  /-- rows inserted since the last refresh -/
  fresh : List MeterRecord
  /-- months that have been finalized -/
  closed : List Instant

/-- A transaction of the jobs. -/
inductive Op where
  | insertRaw (now : Instant) (recs : List MeterRecord)
  | refreshRollups (now : Instant)
  | finalizeMonth (first : Instant)
  | enforceRetention (now : Instant)

namespace World

/-- Nothing yet. -/
def empty : World := ⟨⟨[], fun _ => []⟩, [], [], []⟩

/-- One step. -/
def step (w : World) : Op → World
  | .insertRaw _ recs =>
    match w.store.insertRaw recs with
    | some (store, _) => { w with store, fresh := w.fresh ++ store.raw.drop w.store.raw.length }
    | none => w
  | .refreshRollups now => { w with store := w.store.refreshRollups (since now), fresh := [] }
  | .finalizeMonth first =>
    { w with store := w.store.finalizeMonth first, closed := first :: w.closed }
  | .enforceRetention now =>
    { w with
      store := w.store.enforceRetention now
      dropped := w.dropped ++ w.store.raw.filter (· ∉ (w.store.enforceRetention now).raw) }

/-- The sum of all raw quantities that were ever inserted for a bucket. -/
def everSum (w : World) (tier : Tier) (k : RollupKey) : Int :=
  Table.sumOf (·.key tier) (·.quantity) (w.store.raw ++ w.dropped) k

/-- The total of a month for a tenant and a meter. -/
def monthTotal (w : World) (first : Instant) (tenant : Uuid) (meter : Bytes) : Int :=
  (((w.store.rollups .monthly).keep fun k =>
    k.bucket = first ∧ k.tenantID = tenant ∧ k.meterKey = meter).map (·.2.quantitySum)).sum

/-- The buckets that received usage since the last refresh are the sums of all their raw
usage, but for finalized months. -/
def Rolled (w w' : World) : Prop :=
  ∀ r ∈ w.fresh, ∀ tier, ∃ row, (w'.store.rollups tier).find (r.key tier) = some row ∧
    ((tier = .monthly ∧ row.finalized = true) ∨ row.quantitySum = w'.everSum tier (r.key tier))

/-- What is promised of one step. -/
structure Exact (w : World) (op : Op) : Prop where
  rolled : ∀ now, op = .refreshRollups now → Rolled w (w.step op)
  again : ∀ now, op = .refreshRollups now →
    ((w.step op).step op).store.rollups = (w.step op).store.rollups
  closed : ∀ first ∈ w.closed, ∀ tenant meter,
    (w.step op).monthTotal first tenant meter = w.monthTotal first tenant meter

/-! ## The condition -/

/-- All rows of a bucket are there and within the horizon. -/
def Whole (w : World) (now : Instant) (tier : Tier) (k : RollupKey) : Prop :=
  (∀ r ∈ w.store.raw, r.key tier = k → since now ≤ r.time) ∧ ∀ r ∈ w.dropped, r.key tier ≠ k

/-- The month of the bucket has been finalized with this row in it. -/
def Shut (w : World) (tier : Tier) (k : RollupKey) : Prop :=
  tier = .monthly ∧ (((w.store.rollups tier).find k).any (·.finalized)) = true

/-- A refresh finds the buckets it overwrites whole, and no bucket of a finalized month
that has no row; the months that retention drops were not finalized. -/
def Fits (w : World) : Op → Prop
  | .insertRaw _ _ => True
  | .refreshRollups now =>
    (∀ r ∈ w.fresh, ∀ tier, w.Shut tier (r.key tier) ∨ w.Whole now tier (r.key tier)) ∧
    ∀ r ∈ w.store.raw, since now ≤ r.time → (r.key .monthly).bucket ∈ w.closed →
      ((w.store.rollups .monthly).find (r.key .monthly)).isSome = true
  | .finalizeMonth _ => True
  | .enforceRetention now => ∀ first ∈ w.closed, Tier.monthly.retained now ≤ first

instance (w : World) (now : Instant) (tier : Tier) (k : RollupKey) :
    Decidable (w.Shut tier k ∨ w.Whole now tier k) :=
  inferInstanceAs (Decidable ((_ ∧ _) ∨ (_ ∧ _)))

instance (w : World) (op : Op) : Decidable (w.Fits op) :=
  match op with
  | .insertRaw _ _ => isTrue trivial
  | .refreshRollups _ => inferInstanceAs (Decidable (_ ∧ _))
  | .finalizeMonth _ => isTrue trivial
  | .enforceRetention now => inferInstanceAs
    (Decidable (∀ _ ∈ w.closed, Tier.monthly.retained now ≤ _))

/-! ## The invariant -/

/-- The invariant. -/
structure Good (w : World) : Prop where
  fresh_sub : ∀ r ∈ w.fresh, r ∈ w.store.raw ∨ r ∈ w.dropped
  shut_monthly : ∀ tier, tier ≠ .monthly → ∀ k row, (k, row) ∈ w.store.rollups tier →
    row.finalized = false
  shut_closed : ∀ k row, (k, row) ∈ w.store.rollups .monthly → k.bucket ∈ w.closed →
    row.finalized = true

theorem good_empty : Good empty where
  fresh_sub := nofun
  shut_monthly := nofun
  shut_closed := nofun

section Step

variable {w : World} {now : Instant}

/-! ### A refresh -/

theorem mem_recent {tier : Tier} {k : RollupKey} (hw : w.Whole now tier k) {r : MeterRecord}
    (hr : r ∈ w.store.raw) (hk : r.key tier = k) :
    k ∈ Table.groups (·.key tier) (w.store.raw.filter (since now ≤ ·.time)) := by
  refine Table.mem_groups.mpr ⟨r, List.mem_filter.mpr ⟨hr, ?_⟩, hk⟩
  exact decide_eq_true (hw.1 r hr hk)

theorem sum_recent {tier : Tier} {k : RollupKey} (hw : w.Whole now tier k) :
    Table.sumOf (·.key tier) (·.quantity) (w.store.raw.filter (since now ≤ ·.time)) k =
      w.everSum tier k := by
  rw [everSum, Table.sumOf_append, Table.sumOf_eq_zero hw.2, add_zero]
  exact Table.sumOf_filter fun r hr hk => decide_eq_true (hw.1 r hr hk)

theorem rolled_refresh (h : Good w) (hfits : w.Fits (.refreshRollups now)) :
    Rolled w (w.step (.refreshRollups now)) := by
  intro r hr tier
  have hdef : ((w.step (.refreshRollups now)).store.rollups tier) =
    refreshTier tier (w.store.raw.filter (since now ≤ ·.time)) (w.store.rollups tier) := rfl
  rw [hdef]
  rcases hfits.1 r hr tier with ⟨rfl, hshut⟩ | hwhole
  · -- the finalized row stays as it is
    obtain ⟨row, hrow, hfinal⟩ := Option.any_eq_true .. |>.mp hshut
    refine ⟨row, ?_, .inl ⟨rfl, hfinal⟩⟩
    by_cases hmem : r.key .monthly ∈
        Table.groups (·.key .monthly) (w.store.raw.filter (since now ≤ ·.time))
    · rw [find_refreshTier hmem, hrow, Option.elim_some, onConflict_of_finalized (by decide) hfinal]
    · rw [refreshTier, Table.find_upsertAll_of_not_mem hmem, hrow]
  · have hraw : r ∈ w.store.raw :=
      (h.fresh_sub r hr).resolve_right fun hd => hwhole.2 r hd rfl
    refine ⟨_, find_refreshTier (mem_recent hwhole hraw rfl), ?_⟩
    have hsum : (w.step (.refreshRollups now)).everSum tier (r.key tier) =
        w.everSum tier (r.key tier) := rfl
    rw [sum_recent hwhole, hsum]
    cases hold : (w.store.rollups tier).find (r.key tier) with
    | none => exact .inr rfl
    | some old =>
      rw [Option.elim_some]
      cases hfinal : old.finalized with
      | false => exact .inr (by rw [onConflict_of_open hfinal])
      | true =>
        refine .inl ⟨?_, by rw [onConflict_finalized, hfinal]⟩
        by_contra htier
        have hopen := h.shut_monthly tier htier _ old (Table.mem_of_find hold)
        rw [hfinal] at hopen
        cases hopen

theorem keep_refresh (h : Good w) (hfits : w.Fits (.refreshRollups now)) :
    ((w.step (.refreshRollups now)).store.rollups .monthly).keep (·.bucket ∈ w.closed) =
      (w.store.rollups .monthly).keep (·.bucket ∈ w.closed) := by
  refine Table.keep_upsertAll fun k hk hclosed => ?_
  obtain ⟨r, hr, rfl⟩ := Table.mem_groups.mp hk
  obtain ⟨hr, hrecent⟩ := List.mem_filter.mp hr
  have hsome := hfits.2 r hr (of_decide_eq_true hrecent) (of_decide_eq_true hclosed)
  obtain ⟨row, hrow⟩ := Option.isSome_iff_exists.mp hsome
  have hfinal := h.shut_closed _ row (Table.mem_of_find hrow) (of_decide_eq_true hclosed)
  exact ⟨row, hrow, onConflict_of_finalized (by decide) hfinal _⟩

/-! ### Every step -/

theorem step_insertRaw {recs : List MeterRecord} : w.step (.insertRaw now recs) = w ∨
      w.step (.insertRaw now recs) =
        { w with
          store := { w.store with raw := w.store.raw ++ newRows w.store.raw recs }
          fresh := w.fresh ++ newRows w.store.raw recs } := by
  cases recs with
  | nil =>
    refine .inl ?_
    simp [step, Store.insertRaw]
  | cons first recs =>
    simp only [step, Store.insertRaw]
    split
    · next h =>
      split at h
      · cases h
        exact .inr (by rw [List.drop_left])
      · cases h
    · exact .inl rfl

theorem mem_finalizeMonth {first : Instant} {k : RollupKey} {row : Rollup}
    (h : (k, row) ∈ (w.store.finalizeMonth first).rollups .monthly) :
    ∃ old, (k, old) ∈ w.store.rollups .monthly ∧
      row.finalized = (if k.bucket = first then true else old.finalized) := by
  obtain ⟨⟨k', old⟩, hold, heq⟩ := List.mem_map.mp h
  split at heq
  · next hfirst =>
    cases heq
    exact ⟨old, hold, (if_pos hfirst).symm⟩
  · next hfirst =>
    cases heq
    exact ⟨row, hold, (if_neg hfirst).symm⟩

theorem rollups_enforceRetention (tier : Tier) :
    (w.step (.enforceRetention now)).store.rollups tier =
      (w.store.rollups tier).keep (tier.retained now ≤ ·.bucket) := rfl

theorem good_step (h : Good w) {op : Op} (hfits : w.Fits op) : Good (w.step op) := by
  cases op with
  | insertRaw now recs =>
    rcases @step_insertRaw w now recs with heq | heq
    · rwa [heq]
    · rw [heq]
      refine ⟨fun r hr => ?_, h.shut_monthly, h.shut_closed⟩
      rcases List.mem_append.mp hr with hr | hr
      · exact (h.fresh_sub r hr).imp_left (List.mem_append_left _)
      · exact .inl (List.mem_append_right _ hr)
  | refreshRollups now =>
    refine ⟨nofun, fun tier htier => ?_, fun k row hrow hclosed => ?_⟩
    · refine Table.forall_mem_upsertAll (P := fun _ (row : Rollup) => row.finalized = false)
        (fun _ _ => rfl) (fun k row hrow => ?_) (h.shut_monthly tier htier)
      rw [onConflict_finalized, hrow]
    · have hmem : (k, row) ∈ ((w.step (.refreshRollups now)).store.rollups .monthly).keep
          (·.bucket ∈ w.closed) := Table.mem_keep.mpr ⟨hrow, decide_eq_true hclosed⟩
      rw [keep_refresh h hfits] at hmem
      exact h.shut_closed k row (Table.mem_keep.mp hmem).1 hclosed
  | finalizeMonth first =>
    refine ⟨h.fresh_sub, fun tier htier k row hrow => ?_, fun k row hrow hclosed => ?_⟩
    · have hsame : (w.store.finalizeMonth first).rollups tier = w.store.rollups tier :=
        if_neg htier
      exact h.shut_monthly tier htier k row (hsame ▸ hrow)
    · obtain ⟨old, hold, hfinal⟩ := mem_finalizeMonth hrow
      rw [hfinal]
      split
      · rfl
      · next hfirst =>
        exact h.shut_closed k old hold ((List.mem_cons.mp hclosed).resolve_left hfirst)
  | enforceRetention now =>
    refine ⟨fun r hr => ?_, fun tier htier k row hrow => ?_, fun k row hrow hclosed => ?_⟩
    · rcases h.fresh_sub r hr with hraw | hdropped
      · by_cases hkept : r ∈ (w.store.enforceRetention now).raw
        · exact .inl hkept
        · exact .inr (List.mem_append_right _ (List.mem_filter.mpr ⟨hraw, decide_eq_true hkept⟩))
      · exact .inr (List.mem_append_left _ hdropped)
    · rw [rollups_enforceRetention] at hrow
      exact h.shut_monthly tier htier k row (Table.mem_keep.mp hrow).1
    · rw [rollups_enforceRetention] at hrow
      exact h.shut_closed k row (Table.mem_keep.mp hrow).1 hclosed

theorem monthTotal_step (h : Good w) {op : Op} (hfits : w.Fits op) {first : Instant}
    (hfirst : first ∈ w.closed) (tenant : Uuid) (meter : Bytes) :
    (w.step op).monthTotal first tenant meter = w.monthTotal first tenant meter := by
  cases op with
  | insertRaw now recs =>
    rcases @step_insertRaw w now recs with heq | heq
    · rw [heq]
    · rw [heq]
      rfl
  | refreshRollups now =>
    have hkeep : ∀ t : Table RollupKey Rollup,
        (t.keep (·.bucket ∈ w.closed)).keep
            (fun k => k.bucket = first ∧ k.tenantID = tenant ∧ k.meterKey = meter) =
          t.keep (fun k => k.bucket = first ∧ k.tenantID = tenant ∧ k.meterKey = meter) :=
      Table.keep_keep fun k hk => by
        rw [decide_eq_true_eq] at hk ⊢
        exact hk.1 ▸ hfirst
    rw [monthTotal, monthTotal, ← hkeep, keep_refresh h hfits, hkeep]
  | finalizeMonth month =>
    rw [monthTotal, monthTotal]
    have hdef : (w.step (.finalizeMonth month)).store.rollups .monthly =
      (w.store.rollups .monthly).map fun row =>
        if row.1.bucket = month then (row.1, { row.2 with finalized := true }) else row := rfl
    rw [hdef, Table.keep, List.filter_map, List.map_map, Table.keep]
    have hkey : ∀ row : RollupKey × Rollup, (if row.1.bucket = month then
        (row.1, ({ row.2 with finalized := true } : Rollup)) else row).1 = row.1 := by
      intro row
      split <;> rfl
    simp only [Function.comp_def, hkey]
    refine congrArg List.sum (List.map_congr_left fun row _ => ?_)
    split <;> rfl
  | enforceRetention now =>
    rw [monthTotal, monthTotal, rollups_enforceRetention, Table.keep_keep]
    intro k hk
    rw [decide_eq_true_eq] at hk ⊢
    exact hk.1 ▸ hfits first hfirst

end Step

/-- Along a run whose refreshes see the buckets they overwrite as a whole and bring nothing
new to finalized months, the rollups are exact. -/
theorem rollups_exact {ops : List Op} (h : Each step Fits empty ops) :
    Each step Exact empty ops := by
  intro done op hdone
  have hgood : Good (run step empty done) :=
    always_of_each (P := Good) (C := Fits) (fun _ _ hs hc => good_step hs hc) good_empty h done
      ((List.prefix_append done [op]).trans hdone)
  have hfits := h done op hdone
  constructor
  · rintro now rfl
    exact rolled_refresh hgood hfits
  · rintro now rfl
    exact congrArg Store.rollups (Store.refreshRollups_again _ _)
  · exact fun first hfirst => monthTotal_step hgood hfits hfirst

/-! ## A tenant's scans -/

/-- A scan at an hour of January 2026. -/
def scan (dayOfMonth hours : Int) (event : UInt8) : MeterRecord where
  time := firstOf 2026 1 + (dayOfMonth - 1) * day + hours * hour
  tenantID := Uuid.ofByte 10
  meterKey := bytes "query_scan"
  quantity := 5000000
  workspaceID := none
  userID := some (bytes "u-1")
  agentID := none
  model := none
  cloud := bytes "aws"
  eventID := Uuid.ofByte event

/-- The insert of a scan as it happens, and a refresh in the same hour. -/
def scanned (r : MeterRecord) : List Op :=
  [.insertRaw r.time [r], .refreshRollups (r.time + hour / 2)]

/-- Two scans within one day, and a month that is finalized after them. -/
theorem rollups_exact_in_a_day : Each step Exact empty
    (scanned (scan 1 10 1) ++ scanned (scan 1 20 2) ++
      [.finalizeMonth (firstOf 2026 1), .refreshRollups (firstOf 2026 1 + 21 * hour)]) :=
  rollups_exact (by decide)

/-- The events of a run are at most 48 hours late. -/
def Timely (ops : List Op) : Prop :=
  ∀ now recs, .insertRaw now recs ∈ ops → ∀ r ∈ recs, r.time ≤ now ∧ now ≤ r.time + 48 * hour

theorem timely_scanned (r : MeterRecord) : Timely (scanned r) := by
  intro now recs hmem r' hr'
  simp only [scanned, List.mem_cons, Op.insertRaw.injEq, reduceCtorEq, List.not_mem_nil,
    or_false] at hmem
  obtain ⟨rfl, rfl⟩ := hmem
  rw [List.mem_singleton.mp hr']
  simp [hour, second]

/-- The refresh after a scan of 10 January forgets that of 1 January. -/
theorem month_forgets : ¬ ∀ ops, Timely ops → Each step Exact empty ops := by
  intro h
  have htimely : Timely (scanned (scan 1 10 1) ++ scanned (scan 10 10 2)) := by
    intro now recs hmem
    rcases List.mem_append.mp hmem with hmem | hmem
    · exact timely_scanned _ now recs hmem
    · exact timely_scanned _ now recs hmem
  have hexact := h _ htimely (scanned (scan 1 10 1) ++
      [.insertRaw (scan 10 10 2).time [scan 10 10 2]])
    (.refreshRollups ((scan 10 10 2).time + hour / 2)) List.prefix_rfl
  obtain ⟨row, hrow, hsum⟩ := hexact.rolled _ rfl (scan 10 10 2) (by decide) .monthly
  have hfound : ((run step empty (scanned (scan 1 10 1) ++ scanned (scan 10 10 2))).store.rollups
      .monthly).find ((scan 10 10 2).key .monthly) = some ⟨5000000, false⟩ := by decide
  obtain rfl : row = ⟨5000000, false⟩ := Option.some.inj (hrow.symm.trans hfound)
  rcases hsum with ⟨-, hfinal⟩ | hsum
  · cases hfinal
  · exact absurd hsum (by decide)

end World

end Windrose.Usage

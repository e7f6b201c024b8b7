/-
  Usage/Rollups.lean --- raw usage and its rollups.

  Source: services/usage-service/internal/store/raw.go (InsertRaw),
  internal/store/rollups.go (RefreshRollups, FinalizeMonth, EnforceRetention),
  internal/jobs/jobs.go (Runner.RefreshRollups) and migrations/000001_init.up.sql.

  An instant is the number of microseconds since the start of year 1, in UTC, which is
  the time zone of the sessions; a quantity is a number of millionths, as NUMERIC(20,6)
  has them.  The rows of `usage_raw` and the rollups carry what these functions read.
-/
import Windrose.Foundation.Time
import Windrose.Foundation.Upsert
import Windrose.Foundation.Uuid

set_option autoImplicit false

namespace Windrose.Usage

open Windrose.Foundation

/-! ## Instants -/

/-- A point in time. -/
abbrev Instant : Type := Int

def second : Int := 1000000
def hour : Int := 3600 * second
/-- 24 hours. -/
def day : Int := 24 * hour

/-- The calendar reading of an instant. -/
def reading (t : Instant) : Civil := civil (t / second)

/-- Midnight of the first of a month. -/
def firstOf (year : Int) (month : Nat) : Instant :=
  (365 * (year - 1) + (year - 1) / 4 - (year - 1) / 100 + (year - 1) / 400 +
    dayOfYear (isLeap year) (month, 1)) * day

/-- `AddDate`: the month and the day may leave their range. -/
def addDate (t : Instant) (years months days : Int) : Instant :=
  let c := reading t
  let n := (c.year + years) * 12 + (c.month - 1) + months
  firstOf (n / 12) (n % 12 + 1).toNat + (c.day - 1 + days) * day + t % day

/-- The tables that roll up the raw usage. -/
inductive Tier where
  | hourly
  | daily
  | monthly
  deriving DecidableEq

theorem Tier.forall_iff {P : Tier → Prop} : (∀ tier, P tier) ↔ P .hourly ∧ P .daily ∧
    P .monthly := by
  refine ⟨fun h => ⟨h _, h _, h _⟩, fun ⟨hhourly, hdaily, hmonthly⟩ tier => ?_⟩
  cases tier with
  | hourly => exact hhourly
  | daily => exact hdaily
  | monthly => exact hmonthly

instance {P : Tier → Prop} [DecidablePred P] : Decidable (∀ tier, P tier) :=
  decidable_of_iff _ Tier.forall_iff.symm

/-- `date_trunc('hour', time)`, `time::date` and `date_trunc('month', time)::date`. -/
def Tier.bucket : Tier → Instant → Instant
  | .hourly, t => t - t % hour
  | .daily, t => t - t % day
  | .monthly, t => t - t % day - ((reading t).day - 1) * day

/-! ## Rows -/

/-- `MeterRecord`, a row of `usage_raw`. -/
structure MeterRecord where
  time : Instant
  tenantID : Uuid
  meterKey : Bytes
  quantity : Int
  workspaceID : Option Bytes
  userID : Option Bytes
  agentID : Option Bytes
  model : Option Bytes
  cloud : Bytes
  eventID : Uuid
  deriving DecidableEq

/-- The unique constraint of `usage_raw`. -/
def MeterRecord.uniqueKey (r : MeterRecord) : Uuid × Uuid × Bytes × Instant :=
  (r.tenantID, r.eventID, r.meterKey, r.time)

/-- The primary key of a rollup. -/
structure RollupKey where
  bucket : Instant
  tenantID : Uuid
  meterKey : Bytes
  workspaceID : Bytes
  userID : Bytes
  agentID : Bytes
  model : Bytes
  cloud : Bytes
  deriving DecidableEq

/-- The bucket and the dimensions of a record; a missing dimension is the empty text. -/
def MeterRecord.key (tier : Tier) (r : MeterRecord) : RollupKey where
  bucket := tier.bucket r.time
  tenantID := r.tenantID
  meterKey := r.meterKey
  workspaceID := r.workspaceID.getD []
  userID := r.userID.getD []
  agentID := r.agentID.getD []
  model := r.model.getD []
  cloud := r.cloud

/-- A row of a rollup; `finalized_at` is never set in the hourly and the daily one. -/
structure Rollup where
  quantitySum : Int
  finalized : Bool
  deriving DecidableEq

/-- The raw rows and the rollups. -/
structure Store where
  raw : List MeterRecord
  rollups : Tier → Table RollupKey Rollup

/-! ## InsertRaw -/

/-- The records that are inserted: `ON CONFLICT DO NOTHING` skips the others. -/
def newRows (raw : List MeterRecord) : List MeterRecord → List MeterRecord
  | [] => []
  | r :: recs =>
    if raw.any (·.uniqueKey = r.uniqueKey) then newRows raw recs
    else r :: newRows (raw ++ [r]) recs

/-- `InsertRaw`, with the number of rows inserted; the row-level security of the tenant of
the first record refuses a batch with another tenant's. -/
def Store.insertRaw (s : Store) (recs : List MeterRecord) : Option (Store × Nat) :=
  match recs with
  | [] => some (s, 0)
  | first :: _ =>
    if recs.all (·.tenantID = first.tenantID) then
      some ({ s with raw := s.raw ++ newRows s.raw recs }, (newRows s.raw recs).length)
    else none

/-! ## RefreshRollups -/

/-- `DO UPDATE`: the daily and the monthly upsert leave a finalized row. -/
def Tier.onConflict (tier : Tier) (sum : Int) (old : Rollup) : Rollup :=
  match tier with
  | .hourly => { old with quantitySum := sum }
  | .daily | .monthly => if old.finalized then old else { old with quantitySum := sum }

/-- The recent rows, grouped and summed into a tier. -/
def refreshTier (tier : Tier) (recent : List MeterRecord) (t : Table RollupKey Rollup) :
    Table RollupKey Rollup :=
  t.upsertAll (fun k => ⟨Table.sumOf (·.key tier) (·.quantity) recent k, false⟩)
    (fun k => tier.onConflict (Table.sumOf (·.key tier) (·.quantity) recent k))
    (Table.groups (·.key tier) recent)

/-- `PG.RefreshRollups`. -/
def Store.refreshRollups (s : Store) (since : Instant) : Store :=
  { s with rollups := fun tier =>
      refreshTier tier (s.raw.filter (since ≤ ·.time)) (s.rollups tier) }

/-- The horizon of the job. -/
def since (now : Instant) : Instant := now - 49 * hour

/-! ## FinalizeMonth and EnforceRetention -/

/-- `FinalizeMonth`; `first` is what `time.Parse` makes of the month. -/
def Store.finalizeMonth (s : Store) (first : Instant) : Store :=
  { s with rollups := fun tier =>
      if tier = .monthly then
        (s.rollups .monthly).map fun row =>
          if row.1.bucket = first then (row.1, { row.2 with finalized := true }) else row
      else s.rollups tier }

/-- The beginning of what a tier retains: 13 months, 3 years and 7 years. -/
def Tier.retained (tier : Tier) (now : Instant) : Instant :=
  match tier with
  | .hourly => addDate now 0 (-13) 0
  | .daily => addDate now (-3) 0 0
  | .monthly => addDate now (-7) 0 0

/-- `EnforceRetention`. -/
def Store.enforceRetention (s : Store) (now : Instant) : Store where
  raw := s.raw.filter (addDate now 0 0 (-90) ≤ ·.time)
  rollups tier := (s.rollups tier).keep (tier.retained now ≤ ·.bucket)

/-! ## What a refresh makes of a row -/

section Refresh

variable {tier : Tier} {recent : List MeterRecord} {t : Table RollupKey Rollup} {k : RollupKey}

@[simp] theorem onConflict_finalized (sum : Int) (old : Rollup) :
    (tier.onConflict sum old).finalized = old.finalized := by
  cases tier with
  | hourly => rfl
  | daily | monthly =>
    obtain ⟨_, finalized⟩ := old
    cases finalized <;> rfl

theorem onConflict_of_finalized {old : Rollup} (htier : tier ≠ .hourly)
    (h : old.finalized = true) (sum : Int) : tier.onConflict sum old = old := by
  cases tier with
  | hourly => exact absurd rfl htier
  | daily | monthly => exact if_pos h

theorem onConflict_of_open {old : Rollup} (h : old.finalized = false) (sum : Int) :
    tier.onConflict sum old = ⟨sum, false⟩ := by
  obtain ⟨_, finalized⟩ := old
  cases h
  cases tier <;> rfl

theorem onConflict_again (sum : Int) (old : Rollup) :
    tier.onConflict sum (tier.onConflict sum old) = tier.onConflict sum old := by
  cases tier with
  | hourly => rfl
  | daily | monthly =>
    obtain ⟨_, finalized⟩ := old
    cases finalized <;> rfl

theorem find_refreshTier (h : k ∈ Table.groups (·.key tier) recent) :
    (refreshTier tier recent t).find k =
      some ((t.find k).elim ⟨Table.sumOf (·.key tier) (·.quantity) recent k, false⟩
        (tier.onConflict (Table.sumOf (·.key tier) (·.quantity) recent k))) :=
  Table.find_upsertAll (Table.groups_nodup recent) h

theorem refreshTier_again : refreshTier tier recent (refreshTier tier recent t) =
    refreshTier tier recent t := by
  refine Table.upsertAll_eq_self fun k hk => ⟨_, find_refreshTier hk, ?_⟩
  cases t.find k with
  | none => exact onConflict_of_open rfl _
  | some old => exact onConflict_again _ old

theorem Store.refreshRollups_again (s : Store) (start : Instant) :
    (s.refreshRollups start).refreshRollups start = s.refreshRollups start := by
  unfold Store.refreshRollups
  congr 1
  funext tier
  exact refreshTier_again

end Refresh

end Windrose.Usage

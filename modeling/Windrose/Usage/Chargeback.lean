/-
  Usage/Chargeback.lean --- rate cards, adjustments and the chargeback of a month.

  Source: services/usage-service/internal/store/rollups.go (Chargeback),
  internal/store/recon.go (RecordAdjustment, adjustmentsUSD), internal/store/ratecards.go
  (ResolvePrices, effectiveCard) and migrations/000001_init.up.sql.

  `Billing` holds the tables these functions read and write.  Prices and dollars are
  exact rationals; a quantity and a `usd_delta` are numbers of millionths.
-/
import Windrose.Usage.Budgets

set_option autoImplicit false

namespace Windrose.Usage

open Windrose.Foundation

/-! ## Rate cards -/

/-- The status of a rate card. -/
inductive CardStatus where
  | draft
  | active
  | superseded
  deriving DecidableEq

/-- A row of `rate_cards` with its rows of `rate_card_items`; the card without a tenant is
the platform's. -/
structure RateCard where
  id : Uuid
  tenantID : Option Uuid
  version : Int
  effectiveFrom : Instant
  status : CardStatus
  items : Table Bytes ℚ

/-- `ORDER BY effective_from DESC, version DESC`. -/
def RateCard.before (c d : RateCard) : Prop :=
  d.effectiveFrom < c.effectiveFrom ∨ (d.effectiveFrom = c.effectiveFrom ∧ d.version ≤ c.version)

instance (c d : RateCard) : Decidable (c.before d) := inferInstanceAs (Decidable (_ ∨ _))

/-- `effectiveCard`: the card of a scope in force at an instant, with its items. -/
def effectiveCard (cards : List RateCard) (tenant : Option Uuid) (time : Instant) :
    Uuid × Table Bytes ℚ :=
  let inForce := cards.filter fun c =>
    c.tenantID = tenant ∧ (c.status = .active ∨ c.status = .superseded) ∧ c.effectiveFrom ≤ time
  match (inForce.insertionSort RateCard.before).head? with
  | none => (Uuid.ofByte 0, [])
  | some c => (c.id, c.items)

/-- The items of a card over those that are there. -/
def overlay {ν : Type} (value : ℚ → ν) (items : Table Bytes ℚ) (t : Table Bytes ν) :
    Table Bytes ν :=
  items.foldl (fun t item => t.upsert item.1 (value item.2) fun _ => value item.2) t

/-- `ResolvePrices`: the price of each meter and the card it is from. -/
def resolvePrices (cards : List RateCard) (tenant : Uuid) (time : Instant) :
    Table Bytes ℚ × Table Bytes Uuid :=
  let (defID, defItems) := effectiveCard cards none time
  let (ovID, ovItems) := effectiveCard cards (some tenant) time
  (overlay id ovItems (overlay id defItems []),
    overlay (fun _ => ovID) ovItems (overlay (fun _ => defID) defItems []))

/-! ## Adjustments -/

/-- A row of the adjustments. -/
structure Adjustment where
  id : Uuid
  tenantID : Uuid
  meterKey : Bytes
  month : Bytes
  quantityDelta : Int
  usdDelta : Int
  reason : Bytes
  actor : Bytes
  deriving DecidableEq

/-- The tables of the billing. -/
structure Billing where
  monthly : Table RollupKey Rollup
  rateCards : List RateCard
  adjustments : List Adjustment
  /-- the adjustments that `adjustment.recorded` was written for -/
  outbox : List Adjustment

/-- `time.Parse("2006-01", month)`. -/
def parseMonth : Bytes → Option Instant
  | [y₁, y₂, y₃, y₄, dash, m₁, m₂] =>
    let month := decVal [m₁, m₂]
    if [y₁, y₂, y₃, y₄, m₁, m₂].all isDigit ∧ dash = 45 ∧ 1 ≤ month ∧ month ≤ 12 then
      some (firstOf (decVal [y₁, y₂, y₃, y₄]) month)
    else none
  | _ => none

/-- How a transaction fails. -/
inductive BillingError where
  | validation
  | conflict
  deriving DecidableEq

namespace Billing

/-- The rows of a tenant's month. -/
def rows (b : Billing) (tenant : Uuid) (first : Instant) : Table RollupKey Rollup :=
  b.monthly.keep fun k => k.tenantID = tenant ∧ k.bucket = first

/-- The adjustments of a tenant's month. -/
def adjustmentsOf (b : Billing) (tenant : Uuid) (month : Bytes) : List Adjustment :=
  b.adjustments.filter fun a => a.tenantID = tenant ∧ a.month = month

/-- `RecordAdjustment`, with the tenant of the operation. -/
def recordAdjustment (b : Billing) (tenant : Uuid) (a : Adjustment) : Except BillingError Billing :=
  let a := { a with tenantID := tenant }
  match parseMonth a.month with
  | none => .error .validation
  | some first =>
    if (b.rows tenant first).any (·.2.finalized) then
      .ok { b with adjustments := b.adjustments ++ [a], outbox := b.outbox ++ [a] }
    else .error .conflict

/-- `adjustmentsUSD`. -/
def adjustmentsUSD (b : Billing) (tenant : Uuid) (month : Bytes) : Table Bytes ℚ :=
  let adjustments := b.adjustmentsOf tenant month
  (Table.groups (·.meterKey) adjustments).map fun meter =>
    (meter, amount (Table.sumOf (·.meterKey) (·.usdDelta) adjustments meter))

end Billing

/-! ## The chargeback -/

/-- A line of the chargeback. -/
structure ChargebackLine where
  tenantID : Uuid
  workspaceID : Option Bytes
  month : Bytes
  meterKey : Bytes
  quantity : ℚ
  rateCardID : Bytes
  pricePerUnit : ℚ
  usd : ℚ
  adjustmentsUSD : ℚ
  totalUSD : ℚ

/-- `NULLIF(workspace_id,'')`. -/
def nullif (b : Bytes) : Option Bytes := if b = [] then none else some b

/-- What the rows of a chargeback are grouped by. -/
def lineKey (row : RollupKey × Rollup) : Option Bytes × Bytes :=
  (nullif row.1.workspaceID, row.1.meterKey)

namespace Billing

variable (b : Billing) (tenant : Uuid) (month : Bytes) (first : Instant)

/-- `prices[mk]`: a meter without a price has the zero value. -/
def priceOf (meter : Bytes) : ℚ := ((resolvePrices b.rateCards tenant first).1.find meter).getD 0

/-- The line of one group of rows. -/
def line (key : Option Bytes × Bytes) : ChargebackLine :=
  let quantity := amount (Table.sumOf lineKey (·.2.quantitySum) (b.rows tenant first) key)
  let price := b.priceOf tenant first key.2
  let adjustments := ((b.adjustmentsUSD tenant month).find key.2).getD 0
  let card := (resolvePrices b.rateCards tenant first).2.find key.2
  { tenantID := tenant
    workspaceID := key.1
    month := month
    meterKey := key.2
    quantity := quantity
    rateCardID := match card with
      | some id => if id ≠ Uuid.ofByte 0 then id.text else []
      | none => []
    pricePerUnit := price
    usd := quantity * price
    adjustmentsUSD := adjustments
    totalUSD := quantity * price + adjustments }

/-- `Chargeback`. -/
def chargeback : Except BillingError (List ChargebackLine) :=
  match parseMonth month with
  | none => .error .validation
  | some first =>
    .ok (((Table.groups lineKey (b.rows tenant first)).insertionSort (·.2 ≤ ·.2)).map
      (b.line tenant month first))

/-! ## What a month costs -/

/-- The quantity of each meter at the price of the month's start. -/
def usageUSD : ℚ :=
  ((Table.groups (·.1.meterKey) (b.rows tenant first)).map fun meter =>
    amount (Table.sumOf (·.1.meterKey) (·.2.quantitySum) (b.rows tenant first) meter) *
      b.priceOf tenant first meter).sum

/-- All adjustments of the month, each once. -/
def recordedUSD : ℚ := ((b.adjustmentsOf tenant month).map (amount ·.usdDelta)).sum

/-- The workspaces with rows of a meter; those without a workspace count as one. -/
def workspaces (meter : Bytes) : List (Option Bytes) :=
  Table.groups (nullif ·.1.workspaceID) ((b.rows tenant first).filter (·.1.meterKey = meter))

/-- The adjustments are counted as often as they should be: what the further workspaces of
their meters repeat is what is left out with the meters without usage. -/
def AdjustmentsBalance : Prop :=
  ((b.adjustmentsOf tenant month).map fun a =>
    ((b.workspaces tenant first a.meterKey).length - 1 : ℚ) * amount a.usdDelta).sum = 0

theorem amount_eq (n : Int) : amount n = (n : ℚ) * (1 / 1000000) := div_eq_mul_one_div _ _

section Sums

variable (b : Billing) (tenant : Uuid) (month : Bytes) (first : Instant)

theorem find_adjustmentsUSD (meter : Bytes) : ((b.adjustmentsUSD tenant month).find meter).getD 0 =
      amount (Table.sumOf (·.meterKey) (·.usdDelta) (b.adjustmentsOf tenant month) meter) := by
  rw [adjustmentsUSD, Table.find_map]
  split
  · rfl
  · next h =>
    rw [Table.sumOf_eq_zero fun a ha heq => h (Table.mem_groups.mpr ⟨a, ha, heq⟩)]
    exact (zero_div _).symm

theorem count_lines (meter : Bytes) :
    ((Table.groups lineKey (b.rows tenant first)).map (·.2)).countP (· = meter) =
      (b.workspaces tenant first meter).length := by
  rw [List.countP_map, List.countP_eq_length_filter]
  have hperm : (((Table.groups lineKey (b.rows tenant first)).filter (·.2 = meter)).map (·.1)).Perm
      (b.workspaces tenant first meter) := by
    refine (List.perm_ext_iff_of_nodup ?_ (Table.groups_nodup _)).mpr fun ws => ?_
    · refine ((Table.groups_nodup _).filter _).map_on fun x hx y hy heq => ?_
      have hx := of_decide_eq_true (List.mem_filter.mp hx).2
      have hy := of_decide_eq_true (List.mem_filter.mp hy).2
      exact Prod.ext heq (hx.trans hy.symm)
    · rw [Table.mem_groups, List.mem_map]
      constructor
      · rintro ⟨key, hkey, rfl⟩
        obtain ⟨hkey, hmeter⟩ := List.mem_filter.mp hkey
        obtain ⟨row, hrow, rfl⟩ := Table.mem_groups.mp hkey
        exact ⟨row, List.mem_filter.mpr ⟨hrow, hmeter⟩, rfl⟩
      · rintro ⟨row, hrow, rfl⟩
        obtain ⟨hrow, hmeter⟩ := List.mem_filter.mp hrow
        exact ⟨lineKey row,
          List.mem_filter.mpr ⟨Table.mem_groups.mpr ⟨row, hrow, rfl⟩, hmeter⟩, rfl⟩
  rw [← hperm.length_eq, List.length_map]
  rfl

theorem sum_usd :
    ((Table.groups lineKey (b.rows tenant first)).map (b.line tenant month first · |>.usd)).sum =
      b.usageUSD tenant first := by
  have hline (key : Option Bytes × Bytes) : (b.line tenant month first key).usd =
      b.priceOf tenant first key.2 / 1000000 *
        (Table.sumOf lineKey (·.2.quantitySum) (b.rows tenant first) key : ℚ) := by
    rw [line, amount]
    ring
  have hmeter (meter : Bytes) :
      amount (Table.sumOf (·.1.meterKey) (·.2.quantitySum) (b.rows tenant first) meter) *
        b.priceOf tenant first meter = b.priceOf tenant first meter / 1000000 *
          (Table.sumOf (·.1.meterKey) (·.2.quantitySum) (b.rows tenant first) meter : ℚ) := by
    rw [amount]
    ring
  rw [usageUSD, List.map_congr_left fun key _ => hline key,
    List.map_congr_left fun meter _ => hmeter meter,
    Table.sum_groups fun key : Option Bytes × Bytes => b.priceOf tenant first key.2 / 1000000,
    Table.sum_groups fun meter => b.priceOf tenant first meter / 1000000]
  rfl

theorem sum_adjustments : ((Table.groups lineKey (b.rows tenant first)).map
        (b.line tenant month first · |>.adjustmentsUSD)).sum =
      ((b.adjustmentsOf tenant month).map fun a =>
        ((b.workspaces tenant first a.meterKey).length : ℚ) * amount a.usdDelta).sum := by
  have hline (key : Option Bytes × Bytes) : (b.line tenant month first key).adjustmentsUSD =
      1 / 1000000 * (Table.sumOf (·.meterKey) (·.usdDelta) (b.adjustmentsOf tenant month)
        key.2 : ℚ) := by
    have hline : (b.line tenant month first key).adjustmentsUSD =
        ((b.adjustmentsUSD tenant month).find key.2).getD 0 := rfl
    rw [hline, find_adjustmentsUSD, amount_eq, mul_comm]
  have hsum := Table.sum_sumOf Adjustment.meterKey Adjustment.usdDelta
    (fun _ => (1 / 1000000 : ℚ)) ((Table.groups lineKey (b.rows tenant first)).map (·.2))
    (b.adjustmentsOf tenant month)
  rw [List.map_map] at hsum
  rw [List.map_congr_left fun key _ => hline key]
  refine hsum.trans (congrArg List.sum (List.map_congr_left fun a _ => ?_))
  rw [amount_eq, mul_comm (a.usdDelta : ℚ), ← count_lines]

theorem sum_totalUSD :
    ((Table.groups lineKey (b.rows tenant first)).map
      (b.line tenant month first · |>.totalUSD)).sum =
      b.usageUSD tenant first + ((b.adjustmentsOf tenant month).map fun a =>
        ((b.workspaces tenant first a.meterKey).length : ℚ) * amount a.usdDelta).sum := by
  rw [← sum_usd b tenant month first, ← sum_adjustments b tenant month first, ← List.sum_map_add]
  rfl

theorem sum_repeated : ((b.adjustmentsOf tenant month).map fun a =>
        ((b.workspaces tenant first a.meterKey).length : ℚ) * amount a.usdDelta).sum =
      b.recordedUSD tenant month + ((b.adjustmentsOf tenant month).map fun a =>
        ((b.workspaces tenant first a.meterKey).length - 1 : ℚ) * amount a.usdDelta).sum := by
  rw [recordedUSD, ← List.sum_map_add]
  refine congrArg List.sum (List.map_congr_left fun a _ => ?_)
  ring

theorem adjustmentsBalance_of_one
    (h : ∀ a ∈ b.adjustmentsOf tenant month, (b.workspaces tenant first a.meterKey).length = 1) :
    b.AdjustmentsBalance tenant month first := by
  rw [AdjustmentsBalance]
  refine List.sum_eq_zero fun x hx => ?_
  obtain ⟨a, ha, rfl⟩ := List.mem_map.mp hx
  rw [h a ha, Nat.cast_one, sub_self, zero_mul]

theorem sum_chargeback (hmonth : parseMonth month = some first) :
    ∃ lines, b.chargeback tenant month = .ok lines ∧ (lines.map (·.totalUSD)).sum =
      b.usageUSD tenant first + b.recordedUSD tenant month +
        ((b.adjustmentsOf tenant month).map fun a =>
          ((b.workspaces tenant first a.meterKey).length - 1 : ℚ) * amount a.usdDelta).sum := by
  refine ⟨_, by rw [chargeback, hmonth], ?_⟩
  rw [add_assoc, ← sum_repeated, ← sum_totalUSD, List.map_map]
  exact ((List.perm_insertionSort _ _).map _).sum_eq

end Sums

/-- The lines of a chargeback add up to the priced usage and the recorded adjustments
exactly when the adjustments balance. -/
theorem chargeback_conserves_iff (b : Billing) (tenant : Uuid) (month : Bytes) (first : Instant)
    (hmonth : parseMonth month = some first) : (∃ lines, b.chargeback tenant month = .ok lines ∧
        (lines.map (·.totalUSD)).sum = b.usageUSD tenant first + b.recordedUSD tenant month) ↔
      b.AdjustmentsBalance tenant month first := by
  obtain ⟨lines, hlines, hsum⟩ := b.sum_chargeback tenant month first hmonth
  constructor
  · rintro ⟨lines', hlines', hsum'⟩
    cases hlines.symm.trans hlines'
    exact left_eq_add.mp (hsum'.symm.trans hsum)
  · intro h
    exact ⟨lines, hlines, hsum.trans (add_eq_left.mpr h)⟩

/-! ## A month with a credit -/

section Credit

def acme : Uuid := Uuid.ofByte 7

def january : Bytes := bytes "2026-01"

def apiCalls : Bytes := bytes "api_calls"

/-- A finalized row of a workspace's calls. -/
def calls (workspace : String) (quantity : Int) : RollupKey × Rollup :=
  (⟨firstOf 2026 1, acme, apiCalls, bytes workspace, [], [], [], []⟩, ⟨quantity, true⟩)

/-- A month of the given rows with a card of two dollars a call. -/
def monthOf (rows : Table RollupKey Rollup) : Billing where
  monthly := rows
  rateCards := [⟨Uuid.ofByte 1, none, 1, firstOf 2025 1, .active, [(apiCalls, 2)]⟩]
  adjustments := []
  outbox := []

/-- Ten dollars back. -/
def credit : Adjustment where
  id := Uuid.ofByte 9
  tenantID := acme
  meterKey := apiCalls
  month := january
  quantityDelta := 0
  usdDelta := -10000000
  reason := bytes "goodwill"
  actor := bytes "billing"

/-- With one workspace the credit is given once. -/
theorem chargeback_conserves_one :
    ∃ b lines, (monthOf [calls "ws-1" 5000000]).recordAdjustment acme credit = .ok b ∧
      b.chargeback acme january = .ok lines ∧
      (lines.map (·.totalUSD)).sum = b.usageUSD acme (firstOf 2026 1) +
        b.recordedUSD acme january := by
  have hbalance : Billing.AdjustmentsBalance
      { monthOf [calls "ws-1" 5000000] with adjustments := [credit], outbox := [credit] }
        acme january
        (firstOf 2026 1) :=
    adjustmentsBalance_of_one _ _ _ _ (List.forall_mem_singleton.mpr rfl)
  obtain ⟨lines, hlines, hsum⟩ := (chargeback_conserves_iff _ acme january _ rfl).mpr hbalance
  exact ⟨_, lines, rfl, hlines, hsum⟩

/-- With two workspaces the credit is given twice. -/
theorem chargeback_repeats_credit :
    ∃ b, (monthOf [calls "ws-1" 5000000, calls "ws-2" 3000000]).recordAdjustment acme
      credit = .ok b ∧
      ¬ ∃ lines, b.chargeback acme january = .ok lines ∧ (lines.map (·.totalUSD)).sum =
        b.usageUSD acme (firstOf 2026 1) + b.recordedUSD acme january := by
  refine ⟨_, rfl, fun ⟨lines, hlines, hsum⟩ => ?_⟩
  obtain ⟨lines', hlines', hsum'⟩ := sum_chargeback
    { monthOf [calls "ws-1" 5000000, calls "ws-2" 3000000] with
      adjustments := [credit], outbox := [credit] } acme january (firstOf 2026 1) rfl
  cases hlines.symm.trans hlines'
  have hzero := left_eq_add.mp (hsum.symm.trans hsum')
  change ((2 : Nat) - 1 : ℚ) * amount (-10000000) + 0 = 0 at hzero
  rw [amount] at hzero
  norm_num at hzero

end Credit

end Billing

end Windrose.Usage

/-
  Semantic/Filtered.lean --- measures with a filter.

  Source: services/semantic-service/app/compiler/compiler.py (_measure_sql) and
  app/compiler/dialects.py (first, count_distinct).

  A filter stands in the aggregate as `CASE WHEN cond THEN expr END`, so that a row which
  is left out gives NULL.  Aggregates over values ignore NULL, and so does `arg_min`.
  `min_by` ignores a row whose order is NULL, and `array_agg` none: they may pick a row
  that the filter leaves out.
-/
import Mathlib.Data.List.ReduceOption
import Windrose.Semantic.Fanout

set_option autoImplicit false

namespace Windrose.Semantic

open Windrose.Foundation
open Windrose.Foundation.Relation

/-! ## Engines that ignore NULL -/

/-- An engine with the aggregates of SQL: over the values that are not NULL. -/
structure Sql (α : Type) extends Engine α where
  count : Nat → α
  fold : AggName → List α → Option α
  /-- The order of ORDER BY. -/
  le : α → α → Bool
  le_total : ∀ a b, le a b = true ∨ le b a = true
  le_trans : ∀ a b c, le a b = true → le b c = true → le a c = true
  like : α → α → Bool
  param : Param → Option α

namespace Sql

variable {α : Type} [DecidableEq α] (S : Sql α)

def aggregate (agg : AggName) (values : List (Option α)) : Option α :=
  match agg with
  | .count => some (S.count values.reduceOption.length)
  | .countDistinct => some (S.count values.reduceOption.dedup.length)
  | agg => S.fold agg values.reduceOption

/-- NULL stands first. -/
def keyLe : Option α → Option α → Bool
  | none, _ => true
  | some _, none => false
  | some a, some b => S.le a b

/-- The pairs of a value and its order that a template looks at. -/
def considered : FirstTemplate → Option α × Option α → Bool
  | .argMin, p => p.1.isSome && p.2.isSome
  | .minBy, p => p.2.isSome
  | .arrayAgg, _ => true

/-- `arg_min`, `min_by` and `array_agg(x ORDER BY y LIMIT 1)[OFFSET(0)]`. -/
def first (template : FirstTemplate) (pairs : List (Option α × Option α)) : Option α :=
  (least (fun p q => S.keyLe p.2 q.2) (pairs.filter (considered template))).bind Prod.fst

/-- The engine of a dialect. -/
def warehouse (d : Dialect) : Warehouse α where
  toEngine := S.toEngine
  aggregate := S.aggregate
  countAll n := some (S.count n)
  first pairs :=
    match d.first with
    | .ok template => S.first template pairs
    | .error _ => none
  like := S.like
  param := S.param

end Sql

namespace Sql

variable {α : Type} {S : Sql α}

theorem keyLe_total (a b : Option α) : S.keyLe a b = true ∨ S.keyLe b a = true := by
  match a, b with
  | none, _ => exact .inl rfl
  | some a, none => exact .inr rfl
  | some a, some b => exact S.le_total a b

theorem keyLe_trans (a b c : Option α) (hab : S.keyLe a b = true) (hbc : S.keyLe b c = true) :
    S.keyLe a c = true := by
  match a, b, c with
  | none, _, _ => rfl
  | some a, none, _ => cases hab
  | some a, some b, none => cases hbc
  | some a, some b, some c => exact S.le_trans a b c hab hbc

end Sql

/-! ## What a filter leaves -/

/-- The row of an entity in a joined row. -/
def entityRow {α : Type} (aliases : List (Name × Bytes)) (entity : Name) (w : Joined α) : Row α :=
  fun column => (aliases.lookup entity).bind fun a => w a column

section Measure

variable {α : Type} [DecidableEq α] (S : Sql α)

/-- The filter of a measure holds of a row. -/
def BaseMeasure.admits (b : BaseMeasure) (r : Row α) : Bool :=
  match b.filters with
  | some f => f.eval S.toEngine r = some true
  | none => true

/-- The expression of a measure. -/
def BaseMeasure.value (b : BaseMeasure) (r : Row α) : Option α :=
  b.expr.bind fun e => e.eval S.toEngine r

/-- The measure without its filter. -/
def Measure.unfiltered (m : Measure) : Measure :=
  { m with
    kind := match m.kind with
      | .base b => .base { b with filters := none }
      | kind => kind }

/-- The row that `min_by` or `array_agg` picks: NULL in the order is ignored, or first. -/
def pickedRow (template : FirstTemplate) (order : Name) (rows : List (Row α)) : Option (Row α) :=
  least (fun r s => S.keyLe (r order) (s order))
    (rows.filter fun r => template = .arrayAgg || (r order).isSome)

/-- A row that is picked and left out has no part: nothing is left to be picked, or only a
row without a value. -/
def PickAdmitted (C : Compiler) (d : Dialect) (b : BaseMeasure) (owg : Option Name)
    (rows : List (Row α)) : Prop :=
  ∀ template order, d.first = .ok template → template ≠ .argMin →
    C.orderColumn b owg = some order →
    ∀ r, pickedRow S template order rows = some r → b.admits S r = false →
      ∀ r', pickedRow S template order (rows.filter (b.admits S)) = some r' → b.value S r' = none

end Measure

/-! ## The calls of a measure -/

/-- The call of a measure, and the call with its filter. -/
inductive FilteredCall (C : Compiler) (d : Dialect) (b : BaseMeasure)
    (aliases : List (Name × Bytes)) (owg : Option Name) (cond : Cond ColRef) :
    Option (Expr ColRef) → AggCall → AggCall → Prop where
  | countAll (hagg : b.agg ≠ .first) :
      FilteredCall C d b aliases owg cond none .countAll (.call .count (.case cond one .done))
  | countDistinct (hagg : b.agg ≠ .first) (e : Expr ColRef) :
      FilteredCall C d b aliases owg cond (some e) (.countDistinct e)
        (.countDistinct (.case cond e .done))
  | call (hagg : b.agg ≠ .first) (agg : AggName) (e : Expr ColRef) :
      FilteredCall C d b aliases owg cond (some e) (.call agg e) (.call agg (.case cond e .done))
  | first {template : FirstTemplate} {order : ColRef} (htemplate : d.first = .ok template)
      (horder : C.orderColumn b owg = some order.column)
      (halias : aliases.lookup b.entity = some order.alias) (e : Expr ColRef) :
      FilteredCall C d b aliases owg cond (some e) (.first template e order)
        (.first template (.case cond e .done) order)

variable {owg : Option Name} {cond : Cond ColRef} {call : AggCall}

namespace Compiler

variable {C : Compiler}

theorem aggSql_filtered {m : Measure} (m' : Measure) (b b' : BaseMeasure) {d : Dialect}
    {aliases : List (Name × Bytes)} {expr : Option (Expr ColRef)}
    (hagg : b'.agg = b.agg) (hentity : b'.entity = b.entity)
    (hname : m'.name = m.name) (hexpr : b.agg ≠ .count → expr.isSome = true)
    (h : C.aggSql m b d aliases owg (some (.case cond (expr.getD one) .done)) = .ok call) :
    ∃ plain, C.aggSql m' b' d aliases owg expr = .ok plain ∧
      FilteredCall C d b aliases owg cond expr plain call := by
  cases expr with
  | none =>
    have hcount : b.agg = .count := by
      by_contra hne
      cases hexpr hne
    simp only [aggSql, hcount] at h
    cases h
    exact ⟨.countAll, by simp [aggSql, hagg, hcount], .countAll (by simp [hcount])⟩
  | some e =>
    have hsame : C.firstOrder m' b' owg = C.firstOrder m b owg := by
      rw [firstOrder, firstOrder, hentity, hname]
    simp only [aggSql, hagg, hentity, hsame, Option.getD_some] at h ⊢
    cases hb : b.agg with
    | first =>
      simp only [hb] at h ⊢
      obtain ⟨order, horder, h⟩ := bind_eq_ok.mp h
      obtain ⟨o, hcol, h⟩ := bind_eq_ok.mp h
      obtain ⟨t, ht, h⟩ := bind_eq_ok.mp h
      cases h
      obtain ⟨halias, hcolumn⟩ := col_eq_ok hcol
      refine ⟨.first t e o, ?_, .first ht (hcolumn ▸ firstOrder_ok horder hb) halias e⟩
      rw [horder, ht]
      simp only [bind, Except.bind, hcol]
      rfl
    | countDistinct =>
      simp only [hb] at h ⊢
      cases h
      exact ⟨_, rfl, .countDistinct (by simp [hb]) e⟩
    | sum | avg | min | max | count =>
      simp only [hb] at h ⊢
      cases h
      exact ⟨_, rfl, .call (by simp [hb]) _ e⟩

theorem measureSql_filtered {m : Measure} {b : BaseMeasure} (hkind : m.kind = .base b)
    {f : Cond Name} (hfilters : b.filters = some f) {d : Dialect} {aliases : List (Name × Bytes)}
    (h : C.measureSql m d aliases owg = .ok call) :
    ∃ expr cond plain, exprSql aliases b.entity b.expr = .ok expr ∧
      f.subst (resolve aliases b.entity) = .ok cond ∧
      C.measureSql m.unfiltered d aliases owg = .ok plain ∧
      FilteredCall C d b aliases owg cond expr plain call := by
  unfold measureSql at h
  rw [hkind] at h
  obtain ⟨filtered, hmeasure, h⟩ := bind_eq_ok.mp h
  obtain ⟨expr, hexpr, hfiltered⟩ := bind_eq_ok.mp hmeasure
  rw [hfilters] at hfiltered
  obtain ⟨cond, hcond, rfl⟩ := map_eq_ok.mp hfiltered
  have hsome : b.agg ≠ .count → expr.isSome = true := by
    intro hne
    obtain ⟨e, he⟩ := Option.isSome_iff_exists.mp (b.expr_ok hne)
    rw [he] at hexpr
    obtain ⟨e', -, rfl⟩ := map_eq_ok.mp hexpr
    rfl
  obtain ⟨plain, hplain, hcall⟩ := aggSql_filtered m.unfiltered b { b with filters := none }
    rfl rfl rfl hsome h
  refine ⟨expr, cond, plain, hexpr, hcond, ?_, hcall⟩
  unfold measureSql Measure.unfiltered
  rw [hkind]
  have hsame : measureExpr { b with filters := none } aliases = .ok expr := by
    simp only [measureExpr, hexpr, bind, Except.bind, filteredSql]
  exact (congrArg (· >>= _) hsame).trans hplain

end Compiler

/-! ## Values under a filter -/

theorem reduceOption_map_ite {ρ α : Type} (p : ρ → Bool) (f : ρ → Option α) (rows : List ρ) :
    (rows.map fun r => if p r = true then f r else none).reduceOption =
      ((rows.filter p).map f).reduceOption := by
  induction rows with
  | nil => rfl
  | cons r rows ih =>
    cases hp : p r with
    | true =>
      rw [List.filter_cons_of_pos hp, List.map_cons, List.map_cons, if_pos hp]
      cases f r with
      | none => rw [List.reduceOption_cons_of_none, List.reduceOption_cons_of_none, ih]
      | some v => rw [List.reduceOption_cons_of_some, List.reduceOption_cons_of_some, ih]
    | false =>
      have hneg : ¬ p r = true := by simp [hp]
      rw [List.filter_cons_of_neg hneg, List.map_cons, if_neg hneg,
        List.reduceOption_cons_of_none, ih]

theorem filter_argMin {ρ α : Type} (p : ρ → Bool) (f key : ρ → Option α) (rows : List ρ) :
    (rows.map fun r => (if p r = true then f r else none, key r)).filter
        (Sql.considered .argMin) =
      ((rows.filter p).map fun r => (f r, key r)).filter (Sql.considered .argMin) := by
  induction rows with
  | nil => rfl
  | cons r rows ih =>
    cases hp : p r with
    | true =>
      rw [List.filter_cons_of_pos hp, List.map_cons, List.map_cons, if_pos hp,
        List.filter_cons, List.filter_cons, ih]
    | false =>
      have hneg : ¬ p r = true := by simp [hp]
      rw [List.filter_cons_of_neg hneg, List.map_cons, if_neg hneg, List.filter_cons, ih]
      rfl

theorem bind_least_iff {ρ α : Type} (le : ρ → ρ → Bool)
    (htotal : ∀ r s, le r s = true ∨ le s r = true)
    (htrans : ∀ r s t, le r s = true → le s t = true → le r t = true) (p : ρ → Bool)
    (f : ρ → Option α) (rows : List ρ) :
    ((least le rows).bind fun r => if p r = true then f r else none) =
        (least le (rows.filter p)).bind f ↔
      ∀ r, least le rows = some r → p r = false →
        ∀ r', least le (rows.filter p) = some r' → f r' = none := by
  cases hleast : least le rows with
  | none =>
    obtain rfl := (least_eq_none htotal htrans).mp hleast
    exact iff_of_true rfl nofun
  | some r =>
    cases hp : p r with
    | true =>
      rw [least_filter htrans hleast hp]
      refine iff_of_true ?_ fun r' hr' hpr' => ?_
      · simp [hp]
      · rw [← Option.some.inj hr', hp] at hpr'
        cases hpr'
    | false =>
      simp only [Option.bind_some, hp, Bool.false_eq_true, if_false, Option.some.injEq,
        forall_eq', true_implies]
      rw [eq_comm, Option.bind_eq_none_iff]

section Values

variable {α : Type} [DecidableEq α] {S : Sql α} {d : Dialect} {cond : Cond ColRef}
  {sat : Joined α → Bool} {rows : List (Joined α)}

theorem eval_case (hsat : ∀ w : Joined α, cond.eval S.toEngine w.col = some true ↔ sat w = true)
    (e : Expr ColRef) (w : Joined α) : (Expr.case cond e .done).eval S.toEngine w.col =
      if sat w = true then e.eval S.toEngine w.col else none := by
  rw [Expr.eval]
  exact if_congr (hsat w) rfl rfl

theorem reduceOption_case
    (hsat : ∀ w : Joined α, cond.eval S.toEngine w.col = some true ↔ sat w = true)
    (e : Expr ColRef) (rows : List (Joined α)) :
    (rows.map fun w => (Expr.case cond e .done).eval S.toEngine w.col).reduceOption =
      ((rows.filter sat).map fun w => e.eval S.toEngine w.col).reduceOption := by
  simp only [eval_case hsat]
  exact reduceOption_map_ite sat _ rows

theorem aggregate_congr (agg : AggName) {vs ws : List (Option α)}
    (h : vs.reduceOption = ws.reduceOption) : S.aggregate agg vs = S.aggregate agg ws := by
  cases agg <;> simp only [Sql.aggregate, h]

end Values

theorem considered_pick {α : Type} {template : FirstTemplate} (hne : template ≠ .argMin)
    (p : Option α × Option α) :
    Sql.considered template p = (decide (template = .arrayAgg) || p.2.isSome) := by
  cases template with
  | argMin => exact absurd rfl hne
  | minBy => rfl
  | arrayAgg => rfl

theorem first_eq_picked {α : Type} {S : Sql α} {template : FirstTemplate} (hne : template ≠ .argMin)
    (order : Name)
    (value : Row α → Option α) (rows : List (Row α)) :
    S.first template (rows.map fun r => (value r, r order)) =
      (pickedRow S template order rows).bind value := by
  have hsame : ∀ r : Row α, (Sql.considered template ∘ fun r => (value r, r order)) r =
      (decide (template = .arrayAgg) || (r order).isSome) := fun r => considered_pick hne _
  unfold Sql.first pickedRow
  rw [List.filter_map, least_map, Option.bind_map, List.filter_congr fun r _ => hsame r]
  rfl

section Rows

variable {α : Type} [DecidableEq α] {S : Sql α} {C : Compiler} {b : BaseMeasure}
  {aliases : List (Name × Bytes)}

theorem resolvedValue_resolve (entity : Name) (w : Joined α) :
    resolvedValue S.toEngine w.col (resolve aliases entity) = entityRow aliases entity w := by
  funext column
  unfold resolvedValue entityRow resolve col
  cases aliases.lookup entity with
  | none => rfl
  | some a => rfl

theorem eval_filter {f : Cond Name} (hfilters : b.filters = some f)
    (hcond : f.subst (resolve aliases b.entity) = .ok cond) (w : Joined α) :
    cond.eval S.toEngine w.col = some true ↔ b.admits S (entityRow aliases b.entity w) = true := by
  unfold BaseMeasure.admits
  rw [hfilters, (Cond.subst_spec hcond).2.2, resolvedValue_resolve]
  exact decide_eq_true_iff.symm

theorem eval_value {e : Expr ColRef} (hexpr : exprSql aliases b.entity b.expr = .ok (some e))
    (w : Joined α) : e.eval S.toEngine w.col = b.value S (entityRow aliases b.entity w) := by
  unfold BaseMeasure.value
  cases hb : b.expr with
  | none =>
    rw [hb] at hexpr
    cases hexpr
  | some e' =>
    rw [hb] at hexpr
    obtain ⟨x, hx, heq⟩ := map_eq_ok.mp hexpr
    obtain rfl := Option.some.inj heq
    rw [(Expr.subst_spec hx).2.2, resolvedValue_resolve]
    rfl

theorem picked_iff (template : FirstTemplate) (order : Name) (rows : List (Row α)) :
    ((pickedRow S template order rows).bind fun r =>
        if b.admits S r = true then b.value S r else none) =
        (pickedRow S template order (rows.filter (b.admits S))).bind (b.value S) ↔
      ∀ r, pickedRow S template order rows = some r → b.admits S r = false →
        ∀ r', pickedRow S template order (rows.filter (b.admits S)) = some r' →
          b.value S r' = none := by
  have hcomm : (rows.filter (b.admits S)).filter
      (fun r => decide (template = .arrayAgg) || (r order).isSome) =
      (rows.filter fun r => decide (template = .arrayAgg) || (r order).isSome).filter
        (b.admits S) := by
    rw [List.filter_filter, List.filter_filter]
    exact List.filter_congr fun r _ => Bool.and_comm _ _
  unfold pickedRow
  rw [hcomm]
  exact bind_least_iff (fun r s : Row α => S.keyLe (r order) (s order))
    (fun r s => Sql.keyLe_total _ _) (fun r s t => Sql.keyLe_trans _ _ _) _ _ _

/-- The values of a call with its filter and of the call without it over the rows that are
admitted. -/
theorem FilteredCall.eval_iff {d : Dialect}
    {f : Cond Name} {expr : Option (Expr ColRef)} {plain : AggCall}
    (h : FilteredCall C d b aliases owg cond expr plain call)
    (hfilters : b.filters = some f) (hexpr : exprSql aliases b.entity b.expr = .ok expr)
    (hcond : f.subst (resolve aliases b.entity) = .ok cond) (rows : List (Joined α)) :
    call.eval (S.warehouse d) rows = plain.eval (S.warehouse d)
        (rows.filter fun w => b.admits S (entityRow aliases b.entity w)) ↔
      PickAdmitted S C d b owg (rows.map (entityRow aliases b.entity)) := by
  have hsat := eval_filter (S := S) hfilters hcond
  have hnever : b.agg ≠ .first →
      PickAdmitted S C d b owg (rows.map (entityRow aliases b.entity)) := by
    intro hagg template order _ _ horder
    rw [Compiler.orderColumn, if_neg hagg] at horder
    cases horder
  cases h with
  | countAll hagg =>
    refine iff_of_true ?_ (hnever hagg)
    have hones := reduceOption_case hsat one rows
    have hall : ((rows.filter fun w => b.admits S (entityRow aliases b.entity w)).map fun w =>
        one.eval S.toEngine w.col).reduceOption.length =
        (rows.filter fun w => b.admits S (entityRow aliases b.entity w)).length := by
      rw [List.reduceOption_length_eq_iff.mpr, List.length_map]
      intro v hv
      obtain ⟨w, -, rfl⟩ := List.mem_map.mp hv
      rfl
    exact congrArg some (congrArg S.count ((congrArg List.length hones).trans hall))
  | countDistinct hagg e =>
    exact iff_of_true (aggregate_congr .countDistinct (reduceOption_case hsat e rows))
      (hnever hagg)
  | call hagg agg e =>
    exact iff_of_true (aggregate_congr agg (reduceOption_case hsat e rows)) (hnever hagg)
  | @first template order htemplate horder halias e =>
    have hkey : ∀ w : Joined α, w.col order = entityRow aliases b.entity w order.column :=
      fun w => by rw [entityRow, halias, Option.bind_some, Joined.col]
    have hcall : (AggCall.first template (.case cond e .done) order).eval (S.warehouse d) rows =
        S.first template ((rows.map (entityRow aliases b.entity)).map fun r =>
          (if b.admits S r = true then b.value S r else none, r order.column)) := by
      rw [List.map_map]
      simp only [AggCall.eval, Sql.warehouse, htemplate, eval_case hsat, eval_value hexpr, hkey]
      rfl
    have hplain : (AggCall.first template e order).eval (S.warehouse d)
        (rows.filter fun w => b.admits S (entityRow aliases b.entity w)) =
        S.first template (((rows.map (entityRow aliases b.entity)).filter (b.admits S)).map
          fun r => (b.value S r, r order.column)) := by
      rw [List.filter_map, List.map_map]
      simp only [AggCall.eval, Sql.warehouse, htemplate, eval_value hexpr, hkey]
      rfl
    rw [hcall, hplain]
    by_cases htake : template = .argMin
    · subst htake
      refine iff_of_true ?_ fun t o ht hne => absurd (Except.ok.inj (ht.symm.trans htemplate)) hne
      unfold Sql.first
      rw [filter_argMin]
    · rw [first_eq_picked htake, first_eq_picked htake, picked_iff]
      constructor
      · intro h t o ht _ ho
        obtain rfl := Except.ok.inj (htemplate.symm.trans ht)
        obtain rfl := Option.some.inj (horder.symm.trans ho)
        exact h
      · intro h
        exact h template order.column htemplate htake horder

end Rows

/-! ## Filtered measures -/

/-- **A filtered measure aggregates the rows of its filter, exactly.**  The value of its SQL
is that of the measure without the filter over the rows that satisfy it, if and only if
`min_by` or `array_agg` does not pick a row that is left out where a row with a value is
left.  For the other aggregates and for `arg_min` this is always so. -/
theorem filtered_measure_iff (C : Compiler) {m : Measure} {b : BaseMeasure}
    (hkind : m.kind = .base b) {d : Dialect} {aliases : List (Name × Bytes)} {owg : Option Name}
    {call : AggCall} (h : C.measureSql m d aliases owg = .ok call) {α : Type} [DecidableEq α]
    (S : Sql α) (rows : List (Joined α)) :
    ∃ plain, C.measureSql m.unfiltered d aliases owg = .ok plain ∧
      (call.eval (S.warehouse d) rows = plain.eval (S.warehouse d)
          (rows.filter fun w => b.admits S (entityRow aliases b.entity w)) ↔
        PickAdmitted S C d b owg (rows.map (entityRow aliases b.entity))) := by
  cases hfilters : b.filters with
  | none =>
      have hadmits : ∀ r : Row α, b.admits S r = true := fun r => by
        rw [BaseMeasure.admits, hfilters]
      have hsame : m.unfiltered = m := by
        unfold Measure.unfiltered
        rw [hkind]
        obtain ⟨name, kind, format, synonyms, deprecated, successor⟩ := m
        obtain rfl : kind = .base b := hkind
        obtain ⟨entity, agg, expr, filters, expr_ok⟩ := b
        obtain rfl : filters = none := hfilters
        rfl
      refine ⟨call, by rw [hsame]; exact h, iff_of_true ?_ ?_⟩
      · rw [List.filter_eq_self.mpr fun w _ => hadmits _]
      · intro template order _ _ _ r _ hnot
        rw [hadmits r] at hnot
        cases hnot
  | some f =>
      obtain ⟨expr, cond, plain, hexpr, hcond, hplain, hcall⟩ :=
        Compiler.measureSql_filtered hkind hfilters h
      exact ⟨plain, hplain, hcall.eval_iff hfilters hexpr hcond rows⟩

/-! ### In the shop -/

namespace Shop

/-- Integers in their order. -/
def integers : Sql Int where
  toEngine := warehouse.toEngine
  count n := n
  fold agg values := warehouse.aggregate agg (values.map some)
  le m n := decide (m ≤ n)
  le_total m n := by simpa using Int.le_total m n
  le_trans a b c hab hbc := by
    rw [decide_eq_true_eq] at hab hbc ⊢
    exact hab.trans hbc
  like := warehouse.like
  param := warehouse.param

/-- The first amount above 10. -/
def aboveTen : BaseMeasure where
  entity := orders
  agg := .first
  expr := some (.col amount)
  filters := some (.cmp .gt (.col amount) (.lit (.num ⟨[49, 48], by simp [isDigit]⟩)))
  expr_ok := fun _ => rfl

def aboveTenMeasure : Measure := measure opening (.base aboveTen)

/-- Two orders, of 10 and of 20. -/
def twoOrders : List (Joined Int) :=
  [[(id, 1), (amount, 10)], [(id, 2), (amount, 20)]].map fun cells _ => row cells

def orderAliases : List (Name × Bytes) := [(orders, bytes "t0")]

/-- What a dialect returns for the first amount above 10. -/
def firstAboveTen (m : Measure) (d : Dialect) (rows : List (Joined Int)) : Option (Option Int) :=
  match compiler.measureSql m d orderAliases none with
  | .ok call => some (call.eval (integers.warehouse d) rows)
  | .error _ => none

/-- On Trino the order of 10 is picked, which the filter leaves out: the result is NULL,
where the filtered rows give 20. -/
theorem filtered_first_loses : firstAboveTen aboveTenMeasure .trino twoOrders = some none ∧
      firstAboveTen aboveTenMeasure.unfiltered .trino (twoOrders.filter fun w =>
        aboveTen.admits integers (entityRow orderAliases orders w)) = some (some 20) ∧
      firstAboveTen aboveTenMeasure .duckdb twoOrders = some (some 20) := by
  decide

/-- The same orders, the other way round. -/
def turnedOrders : List (Joined Int) :=
  [[(id, 1), (amount, 20)], [(id, 2), (amount, 10)]].map fun cells _ => row cells

/-- For the two orders, and for the turned ones, where the order of 20 is picked. -/
theorem filtered_measure_iff_sample :
    ∃ call plain, compiler.measureSql aboveTenMeasure .bigquery orderAliases none = .ok call ∧
      compiler.measureSql aboveTenMeasure.unfiltered .bigquery orderAliases none = .ok plain ∧
      (call.eval (integers.warehouse .bigquery) twoOrders =
          plain.eval (integers.warehouse .bigquery) (twoOrders.filter fun w =>
            aboveTen.admits integers (entityRow orderAliases orders w)) ↔
        PickAdmitted integers compiler .bigquery aboveTen none
          (twoOrders.map (entityRow orderAliases orders))) ∧
      call.eval (integers.warehouse .bigquery) turnedOrders = some 20 ∧
      PickAdmitted integers compiler .bigquery aboveTen none
        (turnedOrders.map (entityRow orderAliases orders)) := by
  have hcall : compiler.measureSql aboveTenMeasure .bigquery orderAliases none = .ok _ := rfl
  obtain ⟨plain, hplain, hiff⟩ := filtered_measure_iff compiler rfl hcall integers twoOrders
  obtain ⟨plain', hplain', hturned⟩ := filtered_measure_iff compiler rfl hcall integers turnedOrders
  refine ⟨_, plain, hcall, hplain, hiff, by decide, hturned.mp ?_⟩
  obtain rfl := Except.ok.inj hplain'
  decide

end Shop

end Windrose.Semantic

/-
  Semantic/Meaning.lean --- what compiled SQL returns.

  Source: the SQL texts of services/semantic-service/app/compiler/compiler.py, read as SQL
  (tests/unit/test_duckdb_execution.py runs them).

  A database instance has a list of rows for each dataset, and a `Warehouse` what the
  engine makes of operators, aggregates and bound values.  The joins, the grouping and the
  comparison with NULL are those of SQL.  A result is a list of rows before ORDER BY and
  LIMIT.
-/
import Windrose.Foundation.Relation
import Windrose.Semantic.Compiler

set_option autoImplicit false

namespace Windrose.Semantic

open Windrose.Foundation
open Windrose.Foundation.Relation

/-! ## Engines and instances -/

/-- An engine with its aggregates and what it reads from a bound parameter. -/
structure Warehouse (α : Type) extends Engine α where
  aggregate : AggName → List (Option α) → Option α
  countAll : Nat → Option α
  first : List (Option α × Option α) → Option α
  like : α → α → Bool
  param : Param → Option α

/-- The values of a row, by column. -/
abbrev Row (α : Type) : Type := Name → Option α

/-- A database instance: the rows of each dataset. -/
abbrev Tables (α : Type) : Type := Bytes → List (Row α)

/-- A joined row: the row under each alias. -/
abbrev Joined (α : Type) : Type := Bytes → Row α

/-- A row of a result. -/
abbrev OutRow (α : Type) : Type := List (Name × Option α)

variable {α : Type}

def nullRow : Row α := fun _ => none

/-- A column under an alias. -/
def Joined.col (w : Joined α) (c : ColRef) : Option α := w c.alias c.column

/-- The joined row with a row, or none, under one more alias. -/
def Joined.place (w : Joined α) (a : Bytes) (r : Option (Row α)) : Joined α :=
  fun b => if b = a then r.getD nullRow else w b

theorem Joined.place_self (w : Joined α) (a : Bytes) (r : Option (Row α)) :
    w.place a r a = r.getD nullRow := if_pos rfl

theorem Joined.place_ne (w : Joined α) {a b : Bytes} (r : Option (Row α)) (h : b ≠ a) :
    w.place a r b = w b := if_neg h

variable [DecidableEq α] (W : Warehouse α) (tables : Tables α)

/-! ## FROM -/

/-- Every pair of an ON clause is equal. -/
def onHolds (on : List (ColRef × ColRef)) (w : Joined α) : Bool :=
  on.all fun p => W.cmp .eq (w.col p.1) (w.col p.2) = some true

def Hop.join (left : List (Joined α)) (h : Hop) : List (Joined α) :=
  let on := fun w t => onHolds W h.on (Joined.place w h.alias (some t))
  let pair := fun w o => Joined.place w h.alias o
  match h.joinType with
  | .left => leftJoin on pair left (tables (datasetRef h.entity))
  | .inner => innerJoin on pair left (tables (datasetRef h.entity))

/-- The rows of a table alone. -/
def From.baseRows (f : From) : List (Joined α) :=
  (tables (datasetRef f.base)).map fun r => Joined.place (fun _ => nullRow) f.alias (some r)

/-- The joined relation. -/
def From.rows (f : From) : List (Joined α) := f.hops.foldl (Hop.join W tables) (f.baseRows tables)

/-! ## WHERE -/

section Where

variable (params : List Param)

/-- The value of a placeholder. -/
def bound (n : Nat) : Option α := (params[n - 1]?).bind W.param

/-- The three-valued OR of a list. -/
def anyOf : List (Option Bool) → Option Bool
  | [] => some false
  | b :: bs => Engine.logic .or b (anyOf bs)

def Clause.eval (w : Joined α) (c : Clause) : Option Bool :=
  let t := c.target.eval W.toEngine w.col
  match c with
  | .null _ negated => some (t.isNone != negated)
  | .isIn _ negated phs =>
    (anyOf (phs.map fun n => W.cmp .eq t (bound W params n))).map (· != negated)
  | .between _ lo hi =>
    Engine.logic .and (W.cmp .ge t (bound W params lo)) (W.cmp .le t (bound W params hi))
  | .cmp _ op n => W.cmp op t (bound W params n)
  | .like _ n =>
    match t, bound W params n with
    | some v, some p => some (W.like v p)
    | _, _ => none
  | .range _ lo hi =>
    Engine.logic .and (W.cmp .ge t (bound W params lo)) (W.cmp .lt t (bound W params hi))

def Select.rows (s : Select) : List (Joined α) :=
  (s.source.rows W tables).filter fun w => s.filters.all fun c => c.eval W params w = some true

end Where

/-! ## GROUP BY and aggregates -/

def AggCall.eval (rows : List (Joined α)) : AggCall → Option α
  | .countAll => W.countAll rows.length
  | .countDistinct e => W.aggregate .countDistinct (rows.map fun w => e.eval W.toEngine w.col)
  | .first _ e order => W.first (rows.map fun w => (e.eval W.toEngine w.col, w.col order))
  | .call agg e => W.aggregate agg (rows.map fun w => e.eval W.toEngine w.col)

/-- The value of an expression over aggregates. -/
def aggValue (rows : List (Joined α)) (e : Expr AggCall) : Option α :=
  e.eval W.toEngine (AggCall.eval W rows)

/-- The expressions that a scope groups by. -/
def Select.keyExprs (s : Select) : List (Expr ColRef) :=
  match s.groupBy with
  | .none => []
  | .ordinals n => (s.dims.take n).map Item.expr
  | .exprs keys => keys

def keyOf (exprs : List (Expr ColRef)) (w : Joined α) : List (Option α) :=
  exprs.map fun e => e.eval W.toEngine w.col

/-- The groups of the rows; one, if nothing is grouped by. -/
def Select.groups (s : Select) (params : List Param) : List (List (Joined α)) :=
  let rows := s.rows W tables params
  match s.groupBy with
  | .none => [rows]
  | _ => (keys (keyOf W s.keyExprs) rows).map (group (keyOf W s.keyExprs) rows)

/-- The row of a group: its dimensions, and its measures over all rows of the group. -/
def Select.outRow (s : Select) (g : List (Joined α)) : OutRow α :=
  (s.dims.map fun i => (i.name, g.head?.bind fun w => i.expr.eval W.toEngine w.col)) ++
    s.measures.map fun i => (i.name, aggValue W g i.expr)

def Select.result (s : Select) (params : List Param) : List (OutRow α) :=
  (s.groups W tables params).map (s.outRow W)

/-! ## Common table expressions -/

/-- The value of a column of a result row. -/
def OutRow.value (r : OutRow α) (name : Name) : Option α := (r.lookup name).bind id

/-- The value of a column in a wide row. -/
def cteValue (w : List (Option (OutRow α))) (c : CteRef) : Option α :=
  (w[c.cte]?.bind id).bind fun r => OutRow.value r c.column

def coalesceValue (w : List (Option (OutRow α))) (refs : List CteRef) : Option α :=
  (refs.map (cteValue w)).findSome? id

/-- The condition of a full join holds for a wide row and a row of the next expression. -/
def fullHolds (on : List (CteRef × List CteRef)) (w : List (Option (OutRow α)))
    (r : OutRow α) : Bool :=
  on.all fun p => W.cmp .eq (cteValue (w ++ [some r]) p.1) (coalesceValue w p.2) = some true

/-- The joins after the first expression, of which `k` are done. -/
def joinCtes : Nat → List (List (Option (OutRow α))) → List (CteJoin × List (OutRow α)) →
    List (List (Option (OutRow α)))
  | _, left, [] => left
  | k, left, (.full on, table) :: rest => joinCtes (k + 1)
    (fullJoin (fullHolds W on) k left table) rest
  | k, left, (.cross, table) :: rest => joinCtes (k + 1) (crossJoin left table) rest

def Outer.wideRows (o : Outer) : List (List (OutRow α)) → List (List (Option (OutRow α)))
  | [] => []
  | table :: tables => joinCtes W 1 (table.map (placed 0)) (o.joins.zip tables)

def Outer.outRow (o : Outer) (w : List (Option (OutRow α))) : OutRow α :=
  (o.dims.map fun d => (d.2, coalesceValue w d.1)) ++
    o.measures.map fun i => (i.name, i.expr.eval W.toEngine (cteValue w))

/-! ## Queries -/

def HavingClause.eval {τ : Type} (params : List Param) (env : τ → Option α) (h : HavingClause τ) :
    Option Bool :=
  W.cmp h.op (h.target.eval W.toEngine env) (bound W params h.ph)

/-- The rows that a query returns, before ORDER BY and LIMIT. -/
def Query.result (params : List Param) : Query → List (OutRow α)
  | .single s having _ =>
    ((s.groups W tables params).filter fun g =>
      having.all fun h => h.eval W params (AggCall.eval W g) = some true).map (s.outRow W)
  | .multi ctes o _ =>
    ((o.wideRows W (ctes.map fun s => s.result W tables params)).filter fun w =>
      o.filters.all fun h => h.eval W params (cteValue w) = some true).map (o.outRow W)

/-! ## Values depend on the columns -/

mutual

variable {E : Engine α} {γ : Type} {env env' : γ → Option α}

/-- The value of an expression depends on its columns only. -/
theorem Expr.eval_congr {e : Expr γ}
    (h : ∀ c ∈ e.columns, env c = env' c) : e.eval E env = e.eval E env' := by
  cases e with
  | col name => exact h name (List.mem_singleton_self name)
  | lit v => rfl
  | bin op l r =>
    rw [Expr.columns, List.forall_mem_append] at h
    simp only [Expr.eval, Expr.eval_congr h.1, Expr.eval_congr h.2]
  | func name args => simp only [Expr.eval, Args.eval_congr h]
  | cast inner type => simp only [Expr.eval, Expr.eval_congr (e := inner) h]
  | extract part inner => simp only [Expr.eval, Expr.eval_congr (e := inner) h]
  | dateTrunc grain inner => simp only [Expr.eval, Expr.eval_congr (e := inner) h]
  | case c t rest =>
    rw [Expr.columns, List.forall_mem_append, List.forall_mem_append] at h
    simp only [Expr.eval, Cond.eval_congr h.1.1, Expr.eval_congr h.1.2, Branches.eval_congr h.2]

theorem Args.eval_congr {es : Args γ}
    (h : ∀ c ∈ es.columns, env c = env' c) : es.eval E env = es.eval E env' := by
  cases es with
  | nil => rfl
  | cons e es =>
    rw [Args.columns, List.forall_mem_append] at h
    simp only [Args.eval, Expr.eval_congr h.1, Args.eval_congr h.2]

theorem Cond.eval_congr {p : Cond γ}
    (h : ∀ c ∈ p.columns, env c = env' c) : p.eval E env = p.eval E env' := by
  cases p with
  | isNull negated l => simp only [Cond.eval, Expr.eval_congr (e := l) h]
  | cmp op l r =>
    rw [Cond.columns, List.forall_mem_append] at h
    simp only [Cond.eval, Expr.eval_congr h.1, Expr.eval_congr h.2]
  | logic op l r =>
    rw [Cond.columns, List.forall_mem_append] at h
    simp only [Cond.eval, Cond.eval_congr h.1, Cond.eval_congr h.2]
  | not inner => simp only [Cond.eval, Cond.eval_congr (p := inner) h]

theorem Branches.eval_congr {b : Branches γ}
    (h : ∀ c ∈ b.columns, env c = env' c) : b.eval E env = b.eval E env' := by
  cases b with
  | done => rfl
  | otherwise e => simp only [Branches.eval, Expr.eval_congr (e := e) h]
  | when c t rest =>
    rw [Branches.columns, List.forall_mem_append, List.forall_mem_append] at h
    simp only [Branches.eval, Cond.eval_congr h.1.1, Expr.eval_congr h.1.2, Branches.eval_congr h.2]

end

theorem AggCall.eval_congr {W : Warehouse α} {rows rows' : List (Joined α)} {call : AggCall}
    (h : List.Forall₂ (fun w w' => ∀ c ∈ call.columns, Joined.col w c = Joined.col w' c)
      rows rows') :
    call.eval W rows = call.eval W rows' := by
  have hmap : ∀ {β : Type} (f : Joined α → β),
      (∀ w w' : Joined α, (∀ c ∈ call.columns, w.col c = w'.col c) → f w = f w') →
      rows.map f = rows'.map f := by
    intro β f hf
    induction h with
    | nil => rfl
    | cons hw _ ih => rw [List.map_cons, List.map_cons, hf _ _ hw, ih]
  cases call with
  | countAll => rw [AggCall.eval, AggCall.eval, h.length_eq]
  | countDistinct e => rw [AggCall.eval, AggCall.eval, hmap _ fun w w' hw => Expr.eval_congr hw]
  | first t e order =>
    rw [AggCall.eval, AggCall.eval, hmap _ fun w w' hw => ?_]
    rw [AggCall.columns, List.forall_mem_append] at hw
    exact Prod.ext (Expr.eval_congr hw.1) (hw.2 order (List.mem_singleton_self order))
  | call agg e => rw [AggCall.eval, AggCall.eval, hmap _ fun w w' hw => Expr.eval_congr hw]

end Windrose.Semantic

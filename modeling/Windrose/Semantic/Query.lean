/-
  Semantic/Query.lean --- the SQL that the compiler assembles.

  Source: services/semantic-service/app/compiler/compiler.py (the texts of _measure_sql,
  _where_sql, _from_sql, _having_sql, _group_by, _order_limit, _compile_single and
  _compile_multi) and app/compiler/dialects.py (first).

  The compiler puts texts together.  Here it builds the parts of a query, and `render`
  writes them as the source does.  A filter value is not part of a query: its clause has
  the number of a placeholder.
-/
import Windrose.Semantic.Request

set_option autoImplicit false

namespace Windrose.Semantic

open Windrose.Foundation

/-! ## Columns and aggregates -/

/-- A column of a table in a FROM clause, under the alias of the table. -/
structure ColRef where
  «alias» : Bytes
  column : Name
  deriving DecidableEq

/-- A column of the result of a common table expression. -/
structure CteRef where
  cte : Nat
  column : Name
  deriving DecidableEq

/-- How a dialect writes `first`. -/
inductive FirstTemplate where
  | minBy | argMin | arrayAgg
  deriving DecidableEq

/-- `first` of the dialect. -/
def Dialect.first : Dialect → Except Exn FirstTemplate
  | .trino => .ok .minBy
  | .athena => .ok .minBy
  | .duckdb => .ok .argMin
  | .bigquery => .ok .arrayAgg
  | .synapse => .error (.firstNotSupported .synapse)

/-- The call of an aggregate. -/
inductive AggCall where
  | countAll
  | countDistinct (expr : Expr ColRef)
  | first (template : FirstTemplate) (expr : Expr ColRef) (order : ColRef)
  | call (agg : AggName) (expr : Expr ColRef)

def AggCall.columns : AggCall → List ColRef
  | .countAll => []
  | .countDistinct e => e.columns
  | .first _ e order => e.columns ++ [order]
  | .call _ e => e.columns

/-! ## Queries -/

/-- A condition on a dimension; values are numbers of placeholders. -/
inductive Clause where
  | null (target : Expr ColRef) (negated : Bool)
  | isIn (target : Expr ColRef) (negated : Bool) (phs : List Nat)
  | between (target : Expr ColRef) (lo hi : Nat)
  | cmp (target : Expr ColRef) (op : CmpOp) (ph : Nat)
  | like (target : Expr ColRef) (ph : Nat)
  | range (target : Expr ColRef) (lo hi : Nat)

/-- A condition on a measure. -/
structure HavingClause (τ : Type) where
  target : Expr τ
  op : CmpOp
  ph : Nat

/-- An item of a SELECT list. -/
structure Item (τ : Type) where
  expr : Expr τ
  name : Name

/-- One more table of a FROM clause. -/
structure Hop where
  joinType : JoinType
  entity : Entity
  «alias» : Bytes
  on : List (ColRef × ColRef)

/-- A FROM clause. -/
structure From where
  base : Entity
  «alias» : Bytes
  hops : List Hop

/-- A GROUP BY clause. -/
inductive GroupBy where
  | none
  | ordinals (n : Nat)
  | exprs (keys : List (Expr ColRef))

/-- What is selected from the tables of one entity group. -/
structure Select where
  dims : List (Item ColRef)
  measures : List (Item AggCall)
  source : From
  filters : List Clause
  groupBy : GroupBy

/-- ORDER BY and LIMIT. -/
structure Tail where
  order : List (Nat × Bool)
  limit : Option Limit

/-- How a common table expression is joined to those before it. -/
inductive CteJoin where
  | full (on : List (CteRef × List CteRef))
  | cross

/-- What is selected from the common table expressions. -/
structure Outer where
  dims : List (List CteRef × Name)
  measures : List (Item CteRef)
  joins : List CteJoin
  filters : List (HavingClause CteRef)

/-- One SELECT, or several that are joined. -/
inductive Query where
  | single (select : Select) (having : List (HavingClause AggCall)) (tail : Tail)
  | multi (ctes : List Select) (outer : Outer) (tail : Tail)

/-- The SELECTs over tables. -/
def Query.selects : Query → List Select
  | .single s _ _ => [s]
  | .multi ctes _ _ => ctes

/-! ### The columns of a query -/

def Clause.target : Clause → Expr ColRef
  | .null t _ => t
  | .isIn t _ _ => t
  | .between t _ _ => t
  | .cmp t _ _ => t
  | .like t _ => t
  | .range t _ _ => t

/-- The numbers of the placeholders, as they are written. -/
def Clause.placeholders : Clause → List Nat
  | .null _ _ => []
  | .isIn _ _ phs => phs
  | .between _ lo hi => [lo, hi]
  | .cmp _ _ ph => [ph]
  | .like _ ph => [ph]
  | .range _ lo hi => [lo, hi]

def GroupBy.columns : GroupBy → List ColRef
  | .exprs keys => keys.flatMap Expr.columns
  | _ => []

def From.columns (f : From) : List ColRef :=
    f.hops.flatMap fun h => h.on.flatMap fun p => [p.1, p.2]

def aggColumns (e : Expr AggCall) : List ColRef := e.columns.flatMap AggCall.columns

/-- Every column of a table that the scope refers to. -/
def Select.columns (s : Select) : List ColRef :=
  s.dims.flatMap (fun i => i.expr.columns) ++ s.measures.flatMap (fun i => aggColumns i.expr) ++
    s.source.columns ++ s.filters.flatMap (fun c => c.target.columns) ++ s.groupBy.columns

/-- The scopes of a query, each with the columns it refers to. -/
def Query.scopes : Query → List (From × List ColRef)
  | .single s having _ => [(s.source, s.columns ++ having.flatMap fun h => aggColumns h.target)]
  | .multi ctes _ _ => ctes.map fun s => (s.source, s.columns)

def Select.placeholders (s : Select) : List Nat := s.filters.flatMap Clause.placeholders

/-- The numbers of the placeholders of a query, as they are written. -/
def Query.placeholders : Query → List Nat
  | .single s having _ => s.placeholders ++ having.map HavingClause.ph
  | .multi ctes outer _ => ctes.flatMap Select.placeholders ++ outer.filters.map HavingClause.ph

/-! ## Texts -/

section Render

variable (d : Dialect)

def ColRef.render (c : ColRef) : Bytes := d.quote c.alias ++ bytes "." ++ d.quote c.column.bytes

def cteName (i : Nat) : Bytes := bytes "m" ++ itoa i

def CteRef.render (c : CteRef) : Bytes :=
  d.quote (cteName c.cte) ++ bytes "." ++ d.quote c.column.bytes

def AggName.text : AggName → String
  | .sum => "sum" | .avg => "avg" | .min => "min" | .max => "max" | .count => "count"
  | .countDistinct => "count_distinct" | .first => "first"

def FirstTemplate.render (expr order : Bytes) : FirstTemplate → Bytes
  | .minBy => bytes "min_by(" ++ expr ++ bytes ", " ++ order ++ bytes ")"
  | .argMin => bytes "arg_min(" ++ expr ++ bytes ", " ++ order ++ bytes ")"
  | .arrayAgg =>
    bytes "array_agg(" ++ expr ++ bytes " ORDER BY " ++ order ++ bytes " LIMIT 1)[OFFSET(0)]"

def AggCall.render : AggCall → Bytes
  | .countAll => bytes "count(*)"
  | .countDistinct e => Dialect.countDistinct (e.render d (ColRef.render d))
  | .first t e order => t.render (e.render d (ColRef.render d)) (order.render d)
  | .call agg e => bytes agg.text ++ bytes "(" ++ e.render d (ColRef.render d) ++ bytes ")"

/-- `$n`. -/
def placeholder (n : Nat) : Bytes := 36 :: itoa n

def Clause.render (c : Clause) : Bytes :=
  let target := c.target.render d (ColRef.render d)
  match c with
  | .null _ false => target ++ bytes " IS NULL"
  | .null _ true => target ++ bytes " IS NOT NULL"
  | .isIn _ negated phs =>
    target ++ (if negated then bytes " NOT IN (" else bytes " IN (") ++
      joined (bytes ", ") (phs.map placeholder) ++ bytes ")"
  | .between _ lo hi =>
    target ++ bytes " BETWEEN " ++ placeholder lo ++ bytes " AND " ++ placeholder hi
  | .cmp _ op ph => target ++ bytes " " ++ bytes op.text ++ bytes " " ++ placeholder ph
  | .like _ ph => target ++ bytes " LIKE " ++ placeholder ph
  | .range _ lo hi =>
    target ++ bytes " >= " ++ placeholder lo ++ bytes " AND " ++ target ++ bytes " < " ++
      placeholder hi

def HavingClause.render {τ : Type} (column : τ → Bytes) (h : HavingClause τ) : Bytes :=
  h.target.render d column ++ bytes " " ++ bytes h.op.text ++ bytes " " ++ placeholder h.ph

def Item.render {τ : Type} (column : τ → Bytes) (i : Item τ) : Bytes :=
  i.expr.render d column ++ bytes " AS " ++ d.quote i.name.bytes

/-- The part of the table name after its last point. -/
def Entity.slug (e : Entity) : String := String.ofList ((e.table.toList.splitOn '.').getLastD [])

/-- `_dataset_ref`: a macro, that query-service replaces. -/
def datasetRef (e : Entity) : Bytes :=
  match e.datasetVersionPolicy with
  | .pinned versionNo =>
    if versionNo ≠ 0 then
      bytes "\x7b\x7bdataset('" ++ bytes e.slug ++ bytes "', version=" ++ intText versionNo ++
        bytes ")\x7d\x7d"
    else bytes "\x7b\x7bdataset('" ++ bytes e.slug ++ bytes "')\x7d\x7d"
  | .latest => bytes "\x7b\x7bdataset('" ++ bytes e.slug ++ bytes "')\x7d\x7d"

def onRender (p : ColRef × ColRef) : Bytes := p.1.render d ++ bytes " = " ++ p.2.render d

def Hop.render (h : Hop) : Bytes :=
  (match h.joinType with
    | .left => bytes "LEFT JOIN "
    | .inner => bytes "INNER JOIN ") ++
    datasetRef h.entity ++ bytes " " ++ d.quote h.alias ++ bytes " ON " ++
    joined (bytes " AND ") (h.on.map (onRender d))

/-- `_from_sql`. -/
def From.render (f : From) : Bytes :=
  joined (bytes " ") ((datasetRef f.base ++ bytes " " ++ d.quote f.alias) ::
    f.hops.map (Hop.render d))

def whereRender (keyword : Bytes) (clauses : List Bytes) : Bytes :=
  if clauses = [] then [] else keyword ++ joined (bytes " AND ") clauses

def GroupBy.render : GroupBy → Bytes
  | .none => []
  | .ordinals n =>
    bytes " GROUP BY " ++ joined (bytes ", ") ((List.range n).map fun i => itoa (i + 1))
  | .exprs keys =>
    bytes " GROUP BY " ++ joined (bytes ", ") (keys.map fun k => k.render d (ColRef.render d))

/-- The items, and what follows them up to the grouping. -/
def Select.render (s : Select) : Bytes :=
  joined (bytes ", ")
      (s.dims.map (Item.render d (ColRef.render d)) ++
        s.measures.map (Item.render d (AggCall.render d))) ++
    bytes " FROM " ++ s.source.render d ++
    whereRender (bytes " WHERE ") (s.filters.map (Clause.render d)) ++ s.groupBy.render d

def Limit.text : Limit → Bytes
  | .bool => bytes "True"
  | .int n => itoa n

/-- T-SQL has `TOP` in the place of `LIMIT`. -/
def Tail.prefixRender (t : Tail) : Bytes :=
  match d, t.limit with
  | .synapse, some limit => bytes "TOP " ++ limit.text ++ bytes " "
  | _, _ => []

def orderRender (o : Nat × Bool) : Bytes := if o.2 then itoa o.1 ++ bytes " DESC" else itoa o.1

def Tail.render (t : Tail) : Bytes :=
  (if t.order = [] then []
    else bytes " ORDER BY " ++ joined (bytes ", ") (t.order.map orderRender)) ++
    match d, t.limit with
    | .synapse, _ => []
    | _, some limit => bytes " LIMIT " ++ limit.text
    | _, none => []

def coalesceRender (refs : List CteRef) : Bytes :=
  match refs with
  | [r] => r.render d
  | refs => bytes "coalesce(" ++ joined (bytes ", ") (refs.map (CteRef.render d)) ++ bytes ")"

def CteJoin.render (i : Nat) : CteJoin → Bytes
  | .full on =>
    bytes "FULL JOIN " ++ d.quote (cteName i) ++ bytes " ON " ++
      joined (bytes " AND ") (on.map fun p => p.1.render d ++ bytes " = " ++ coalesceRender d p.2)
  | .cross => bytes "CROSS JOIN " ++ d.quote (cteName i)

def Outer.render (o : Outer) : Bytes :=
  joined (bytes ", ")
      (o.dims.map (fun i => coalesceRender d i.1 ++ bytes " AS " ++ d.quote i.2.bytes) ++
        o.measures.map (Item.render d (CteRef.render d))) ++
    bytes " FROM " ++
    joined (bytes " ")
      (d.quote (cteName 0) :: o.joins.zipIdx.map (fun j => CteJoin.render d (j.2 + 1) j.1)) ++
    whereRender (bytes " WHERE ") (o.filters.map (HavingClause.render d (CteRef.render d)))

def cteRender (cte : Select × Nat) : Bytes :=
  d.quote (cteName cte.2) ++ bytes " AS (SELECT " ++ cte.1.render d ++ bytes ")"

/-- The text of a query. -/
def Query.render : Query → Bytes
  | .single s having t =>
    bytes "SELECT " ++ t.prefixRender d ++ s.render d ++
      whereRender (bytes " HAVING ") (having.map (HavingClause.render d (AggCall.render d))) ++
      t.render d
  | .multi ctes outer t =>
    bytes "WITH " ++ joined (bytes ", ") (ctes.zipIdx.map (cteRender d)) ++ bytes " SELECT " ++
      t.prefixRender d ++ outer.render d ++ t.render d

end Render

end Windrose.Semantic

/-
  Semantic/Compiler.lean --- from a request to SQL.

  Source: services/semantic-service/app/compiler/compiler.py (Compiler).

  A request over measures of one entity is one SELECT; over several, one common table
  expression for each entity, joined on the dimensions.  Tables are reached over declared
  join paths only, and a target with several paths is an error.

  The source puts every filter in the order of its key.  Here the ordered filters are an
  argument (`compileWith`), which `compile` sorts.  The warnings depend on nothing but the
  names that are looked up, so they are computed apart.
-/
import Windrose.Foundation.Paths
import Windrose.Semantic.Query
import Windrose.Semantic.RelativeRange

set_option autoImplicit false

namespace Windrose.Semantic

open Windrose.Foundation

/-! ## Parameters -/

/-- The type of a bound value. -/
inductive ParamType where
  | boolean | integer | number | date | timestamp | string
  deriving DecidableEq

/-- An item of `params`. -/
structure Param where
  type : ParamType
  value : Value

/-- `_ptype`. -/
def ptype (value : Scalar) (dim : Option Dimension) : ParamType :=
  match value with
  | .bool _ => .boolean
  | .num (.int _) => .integer
  | .num (.float _) => .number
  | .str s =>
    if dim.any fun d => d.dimType = .time then if s.length = 10 then .date else .timestamp
    else .string
  | .null => .string

/-- What Python knows of texts: the value of a decimal digit, and the length of the text
of a list or a dict. -/
structure PythonText where
  digit : Char → Option Nat
  containerLength : Value → Nat

/-- `len(str(value))`. -/
def PythonText.strLength (py : PythonText) (v : Value) : Nat :=
  match v.tree with
  | .str s => s.length
  | .null => 4
  | .bool true => 4
  | .bool false => 5
  | .num n => n.text.length
  | _ => py.containerLength v

/-- A bound as a parameter. -/
def rangeParam (py : PythonText) (v : Value) : Param :=
  ⟨if py.strLength v = 10 then .date else .timestamp, v⟩

/-! ## Compiler -/

/-- A definition, with what compiling it rests on. -/
structure Compiler where
  py : PythonText
  defn : Definition
  broken : List Name
  /-- The date of now in the timezone, if the timezone is known. -/
  today : Option Int
  timezone : String

/-- `time_range_resolved`. -/
structure ResolvedRange where
  dimension : Name
  start : Value
  «end» : Value
  timezone : String

/-- A column of the result. -/
structure OutputColumn where
  name : Name
  type : String
  isDimension : Bool
  deriving DecidableEq

/-- What the compiler returns. -/
structure Compiled where
  query : Query
  params : List Param
  dialect : Dialect
  outputSchema : List OutputColumn
  measures : List Name
  dimensions : List Name
  joinPaths : List Name
  timeRangeResolved : Option ResolvedRange
  warnings : List String

/-- The SQL text. -/
def Compiled.sql (c : Compiled) : Bytes := c.query.render c.dialect

/-- `name[0]` and then `name[0]2`, `name[0]3`, .... -/
def aliasCandidate (name : Name) : Nat → Bytes
  | 0 => name.bytes.take 1
  | n + 1 => name.bytes.take 1 ++ itoa (n + 2)

/-- The loop of `_aliases`. -/
def aliasLoop (aliases : List (Name × Bytes)) : List Name → List (Name × Bytes)
  | [] => aliases
  | name :: names =>
    let used := aliases.map Prod.snd
    aliasLoop (aliases ++ [(name, fresh (aliasCandidate name) used used.length 0)]) names

/-- `_aliases`. -/
def aliasesOf (base : Name) (hops : List JoinPath) : List (Name × Bytes) :=
  aliasLoop [] (addAllNew id [base] (hops.flatMap fun jp => [jp.fromEntity, jp.toEntity]))

/-- `_col`. -/
def col (aliases : List (Name × Bytes)) (entity column : Name) : Except Exn ColRef :=
  match aliases.lookup entity with
  | none => .error (.notJoined entity)
  | some a => .ok ⟨a, column⟩

/-- `resolve` of `_dim_sql` and `_measure_sql`. -/
def resolve (aliases : List (Name × Bytes)) (entity column : Name) : Except Exn (Expr ColRef) :=
  (col aliases entity column).map .col

/-- `d[key]`. -/
def getKey {α : Type} : Option α → Except Exn α
  | none => .error .python
  | some a => .ok a

@[simp] theorem getKey_eq_ok {α : Type} {o : Option α} {a : α} : getKey o = .ok a ↔ o = some a := by
  cases o <;> simp [getKey]

/-- The checks of a grain. -/
def checkGrain (dim : Dimension) : Option TimeGrain → Except Exn Unit
  | none => .ok ()
  | some grain =>
    if dim.dimType ≠ .time then .error (.notATimeDimension dim.name)
    else if grain ∉ dim.timeGrains then .error (.grainNotOffered dim.name grain)
    else .ok ()

/-- The column or the expression. -/
def sourceSql (aliases : List (Name × Bytes)) (entity : Name) : DimSource → Except Exn (Expr ColRef)
  | .column column => resolve aliases entity column
  | .expr ast => ast.subst (resolve aliases entity)

/-- With the time grain, if any. -/
def truncated (inner : Expr ColRef) : Option TimeGrain → Expr ColRef
  | none => inner
  | some grain => .dateTrunc grain inner

/-- `_dim_sql`. -/
def dimSql (dim : Dimension) (grain : Option TimeGrain) (aliases : List (Name × Bytes)) :
    Except Exn (Expr ColRef) := do
  checkGrain dim grain
  let inner ← sourceSql aliases dim.entity dim.source
  return truncated inner grain

/-- `1`. -/
def one : Expr ColRef := .lit (.num ⟨[49], by simp [isDigit]⟩)

/-- The expression of a measure, if it has one. -/
def exprSql (aliases : List (Name × Bytes)) (entity : Name) :
    Option (Expr Name) → Except Exn (Option (Expr ColRef))
  | none => .ok none
  | some e => (e.subst (resolve aliases entity)).map some

/-- The expression under the filters of the measure. -/
def filteredSql (aliases : List (Name × Bytes)) (entity : Name) (expr : Option (Expr ColRef)) :
    Option (Cond Name) → Except Exn (Option (Expr ColRef))
  | none => .ok expr
  | some c =>
    (c.subst (resolve aliases entity)).map fun cond => some (.case cond (expr.getD one) .done)

/-- What is aggregated, filtered. -/
def measureExpr (b : BaseMeasure) (aliases : List (Name × Bytes)) :
    Except Exn (Option (Expr ColRef)) := do
  let expr ← exprSql aliases b.entity b.expr
  filteredSql aliases b.entity expr b.filters

/-- What follows the clause of one filter: the parameters it binds. -/
def boundValues (f : FilterSpec) (dim : Dimension) : List Param :=
  f.values.map fun v => ⟨ptype v (some dim), v.value⟩

/-- The clause of a filter, when `n` parameters are bound before it. -/
def filterClause (target : Expr ColRef) (f : FilterSpec) (n : Nat) : Clause :=
  match f.op with
  | .isNull => .null target false
  | .isNotNull => .null target true
  | .in => .isIn target false (List.range' (n + 1) f.values.length)
  | .notIn => .isIn target true (List.range' (n + 1) f.values.length)
  | .between => .between target (n + 1) (n + 2)
  | .cmp op => .cmp target op (n + 1)
  | .like => .like target (n + 1)

namespace Compiler

variable (C : Compiler)

/-- `_measure`. -/
def measure (name : Name) : Except Exn Measure :=
  match C.defn.measure? name with
  | none => .error (.unknownMetric name)
  | some m => if name ∈ C.broken then .error (.modelUnhealthy name) else .ok m

/-- `_dimension`. -/
def dimension (name : Name) : Except Exn Dimension :=
  match C.defn.dimension? name with
  | none => .error (.unknownDimension name)
  | some d => if name ∈ C.broken then .error (.modelUnhealthy name) else .ok d

/-- More than a chain of derived measures can be long. -/
def depth : Nat := C.defn.measures.length + 1

/-- `_base_measures`. -/
def baseMeasures : Nat → List Name → Name → Except Exn (List Name)
  | 0, _, _ => .error .python
  | fuel + 1, seen, name =>
    if name ∈ seen then .error (.derivedCycle name)
    else do
      let m ← C.measure name
      match m.kind with
      | .base _ => return [name]
      | .derived d => do
          let parts ← (sortedColumns d.exprMetric.columns).mapM (baseMeasures fuel (name :: seen))
          if parts.flatten = [] then .error (.derivedWithoutMeasures name)
          else return addAllNew id [] parts.flatten

/-! ### Joins -/

/-- The declared join paths, or those of them that the request pins. -/
def edges (pinned : List Name) : List JoinPath :=
  C.defn.joinPaths.filter fun jp => pinned = [] ∨ jp.name ∈ pinned

/-- `_paths_between`. -/
def pathsBetween (source target : Name) (pinned : List Name) : List (List JoinPath) :=
  paths JoinPath.fromEntity JoinPath.toEntity (C.edges pinned) target
    (C.defn.joinPaths.length + 1) source [source]

/-- `_resolve_joins`. -/
def resolveJoins (base : Name) (targets pinned : List Name) : Except Exn (List JoinPath) :=
  targets.foldlM (fun hops target =>
    if target = base then .ok hops
    else
      match C.pathsBetween base target pinned with
      | [] => .error (.noJoinPath base target)
      | [path] => .ok (addAllNew JoinPath.name hops path)
      | candidates =>
        .error (.ambiguousJoinPath base target (candidates.map (·.map JoinPath.name)))) []

/-- A pair of columns of an ON clause. -/
def onSql (aliases : List (Name × Bytes)) (jp : JoinPath) (p : Name × Name) :
    Except Exn (ColRef × ColRef) := do
  return (← col aliases jp.fromEntity p.1, ← col aliases jp.toEntity p.2)

/-- One table of `_from_sql`. -/
def hop (aliases : List (Name × Bytes)) (jp : JoinPath) : Except Exn Hop := do
  let toEntity ← getKey (C.defn.entity? jp.toEntity)
  let on ← jp.on.mapM (onSql aliases jp)
  return ⟨jp.joinType, toEntity, ← getKey (aliases.lookup jp.toEntity), on⟩

/-- `_from_sql`. -/
def fromSql (base : Name) (hops : List JoinPath) (aliases : List (Name × Bytes)) :
    Except Exn From := do
  let entity ← getKey (C.defn.entity? base)
  return ⟨entity, ← getKey (aliases.lookup base), ← hops.mapM (C.hop aliases)⟩

/-! ### Expressions -/

/-- The column that orders `first`: that of the request, or of the primary key. -/
def firstOrder (m : Measure) (b : BaseMeasure) (owg : Option Name) : Except Exn Name :=
  match C.defn.entity? b.entity with
  | none => .error .python
  | some entity =>
    match owg <|> entity.primaryKey.head? with
    | none => .error (.firstNeedsOrder m.name)
    | some order => .ok order

/-- The call of the aggregate of a base measure. -/
def aggSql (m : Measure) (b : BaseMeasure) (dialect : Dialect) (aliases : List (Name × Bytes))
    (owg : Option Name) : Option (Expr ColRef) → Except Exn AggCall
  | none => if b.agg = .count then .ok .countAll else .error (.aggRequiresExpr m.name)
  | some e =>
    match b.agg with
    | .countDistinct => .ok (.countDistinct e)
    | .first => do
        let order ← C.firstOrder m b owg
        let order ← col aliases b.entity order
        let template ← dialect.first
        return .first template e order
    | agg => .ok (.call agg e)

/-- `_measure_sql`. -/
def measureSql (m : Measure) (dialect : Dialect) (aliases : List (Name × Bytes))
    (owg : Option Name) : Except Exn AggCall :=
  match m.kind with
  | .derived _ => .error (.aggRequiresExpr m.name)
  | .base b => measureExpr b aliases >>= C.aggSql m b dialect aliases owg

/-- `resolve_metric`: a measure over the texts of base measures. -/
def metricExpr {τ : Type} (leaf : Measure → Except Exn (Expr τ)) : Nat → Name → Except Exn (Expr τ)
  | 0, _ => .error .python
  | fuel + 1, ref =>
    match C.defn.measure? ref with
    | none => .error .python
    | some m =>
      match m.kind with
      | .base _ => leaf m
      | .derived d => d.exprMetric.subst (metricExpr leaf fuel)

/-- A base measure of a single scope. -/
def aggLeaf (dialect : Dialect) (aliases : List (Name × Bytes)) (owg : Option Name) (m : Measure) :
    Except Exn (Expr AggCall) :=
  (C.measureSql m dialect aliases owg).map .col

/-! ### Clauses -/

/-- The clauses of the filters, and the parameters after them. -/
def filterClauses (aliases : List (Name × Bytes)) :
    List FilterSpec → List Param → Except Exn (List Clause × List Param)
  | [], params => .ok ([], params)
  | f :: fs, params => do
      let dim ← C.dimension f.dimension
      let target ← dimSql dim none aliases
      let rest ← filterClauses aliases fs (params ++ boundValues f dim)
      return (filterClause target f params.length :: rest.1, rest.2)

/-- The bounds of a time range. -/
def rangeBounds (tr : TimeRange) : Except Exn (Value × Value) :=
  if truthy tr.relative.tree then
    match tr.relative.tree with
    | .str relative =>
      (resolveRelative C.py.digit relative C.today).map fun bounds =>
        (Value.str (isoformat bounds.1), Value.str (isoformat bounds.2))
    | _ => .error .python
  else .ok (tr.start, tr.end)

/-- The time range of `_where_sql`: its clause, its parameters and its resolved form. -/
def rangeSql (aliases : List (Name × Bytes)) (n : Nat) :
    Option TimeRange → Except Exn (List Clause × List Param × Option ResolvedRange)
  | none => .ok ([], [], none)
  | some tr => do
      let dim ← C.dimension tr.dimension
      if dim.dimType = .time then do
        let bounds ← C.rangeBounds tr
        let target ← dimSql dim none aliases
        return ([.range target (n + 1) (n + 2)],
          [rangeParam C.py bounds.1, rangeParam C.py bounds.2],
          some ⟨dim.name, bounds.1, bounds.2, C.timezone⟩)
      else .error (.notATimeDimension dim.name)

/-- `_where_sql`. -/
def whereSql (ordered : List FilterSpec) (req : CompileRequest) (aliases : List (Name × Bytes))
    (params : List Param) : Except Exn (List Clause × List Param × Option ResolvedRange) := do
  let filters ← C.filterClauses aliases ordered params
  let range ← C.rangeSql aliases filters.2.length req.timeRange
  return (filters.1 ++ range.1, filters.2 ++ range.2.1, range.2.2)

/-- The expression of a requested dimension. -/
def dimRefSql (aliases : List (Name × Bytes)) (d : DimRef) : Except Exn (Expr ColRef) := do
  let dim ← C.dimension d.name
  dimSql dim d.grain aliases

/-- The items of the dimensions. -/
def dimItems (req : CompileRequest) (aliases : List (Name × Bytes)) :
    Except Exn (List (Item ColRef)) :=
  req.dimensions.mapM fun d => (C.dimRefSql aliases d).map fun e => ⟨e, d.name⟩

/-- The entity of a dimension. -/
def dimensionEntity (name : Name) : Except Exn Name := (C.dimension name).map Dimension.entity

/-- `_scope_targets`. -/
def scopeTargets (ordered : List FilterSpec) (req : CompileRequest) : Except Exn (List Name) := do
  let dims ← req.dimensions.mapM fun d => C.dimensionEntity d.name
  let filters ← ordered.mapM fun f => C.dimensionEntity f.dimension
  let range ← req.timeRange.toList.mapM fun tr => C.dimensionEntity tr.dimension
  return addAllNew id [] (dims ++ filters ++ range)

/-- `_group_by`. -/
def groupBySql (req : CompileRequest) (dialect : Dialect) (aliases : List (Name × Bytes)) :
    Except Exn GroupBy :=
  if req.dimensions = [] then .ok .none
  else if dialect.groupByOrdinals then .ok (.ordinals req.dimensions.length)
  else (req.dimensions.mapM (C.dimRefSql aliases)).map .exprs

/-- The measure of a HAVING metric. -/
def havingMeasure (name : Name) : Except Exn Measure :=
  match C.defn.measure? name with
  | none => .error (.unknownHavingMetric name)
  | some m => .ok m

/-- The value it is compared with. -/
def havingParam (h : HavingSpec) : Param := ⟨ptype h.value none, h.value.value⟩

/-- The clauses of HAVING and the parameters after them. -/
def havingClauses {τ : Type} (target : Measure → Except Exn (Expr τ)) :
    List HavingSpec → List Param → Except Exn (List (HavingClause τ) × List Param)
  | [], params => .ok ([], params)
  | h :: hs, params => do
      let m ← C.havingMeasure h.metric
      let expr ← target m
      let rest ← havingClauses target hs (params ++ [havingParam h])
      return (⟨expr, h.op, params.length + 1⟩ :: rest.1, rest.2)

/-- The target of `_having_sql`: derived measures over base measures only. -/
def havingTarget (dialect : Dialect) (aliases : List (Name × Bytes)) (owg : Option Name)
    (m : Measure) :
    Except Exn (Expr AggCall) :=
  match m.kind with
  | .base _ => C.aggLeaf dialect aliases owg m
  | .derived d =>
    d.exprMetric.subst fun ref => getKey (C.defn.measure? ref) >>= C.aggLeaf dialect aliases owg

/-- The ordinal of an item to order by. -/
def ordinal (selectNames : List Name) (o : OrderSpec) : Except Exn (Nat × Bool) :=
  if o.name ∈ selectNames then .ok (selectNames.idxOf o.name + 1, o.desc)
  else .error (.orderByNotSelected o.name)

/-- `order_parts`: time dimensions, if the request names nothing. -/
def orderParts (req : CompileRequest) : Except Exn (List (Nat × Bool)) :=
  if req.orderBy ≠ [] then
    req.orderBy.mapM (ordinal (req.dimensions.map DimRef.name ++ req.metrics))
  else
    (req.dimensions.mapM fun d => C.dimension d.name).map fun dims =>
      (dims.zipIdx.filter fun d => d.1.dimType = .time).map fun d => (d.2 + 1, false)

/-- `_order_limit`. -/
def orderLimit (req : CompileRequest) : Except Exn Tail :=
  (C.orderParts req).map fun order => ⟨order, req.limit⟩

/-- The items of the metrics. -/
def metricItems {τ : Type} (leaf : Measure → Except Exn (Expr τ)) (names : List Name) :
    Except Exn (List (Item τ)) :=
  names.mapM fun name => (C.metricExpr leaf C.depth name).map fun e => ⟨e, name⟩

/-- The item of a base measure in its group. -/
def groupItem (dialect : Dialect) (aliases : List (Name × Bytes)) (owg : Option Name)
    (name : Name) :
    Except Exn (Item AggCall) := do
  let m ← getKey (C.defn.measure? name)
  let e ← C.aggLeaf dialect aliases owg m
  return ⟨e, name⟩

/-! ### Plans -/

/-- What a scope has apart from its measures. -/
structure ScopeParts where
  hops : List JoinPath
  aliases : List (Name × Bytes)

/-- The tables that a scope needs, under their aliases. -/
def scopeParts (ordered : List FilterSpec) (req : CompileRequest) (base : Name) :
    Except Exn ScopeParts := do
  let targets ← C.scopeTargets ordered req
  let hops ← C.resolveJoins base targets req.joinPaths
  return ⟨hops, aliasesOf base hops⟩

/-- `_compile_single`. -/
def compileSingle (ordered : List FilterSpec) (req : CompileRequest) (dialect : Dialect)
    (base : Name) : Except Exn (Query × List Param × Option ResolvedRange × List JoinPath) := do
  let scope ← C.scopeParts ordered req base
  let dims ← C.dimItems req scope.aliases
  let measures ← C.metricItems (C.aggLeaf dialect scope.aliases req.orderWithinGroup) req.metrics
  let filters ← C.whereSql ordered req scope.aliases []
  let groupBy ← C.groupBySql req dialect scope.aliases
  let having ← C.havingClauses (C.havingTarget dialect scope.aliases req.orderWithinGroup)
    req.having filters.2.1
  let tail ← C.orderLimit req
  let source ← C.fromSql base scope.hops scope.aliases
  return (.single ⟨dims, measures, source, filters.1, groupBy⟩ having.1 tail, having.2,
    filters.2.2, scope.hops)

/-- One common table expression of `_compile_multi`. -/
def compileGroup (ordered : List FilterSpec) (req : CompileRequest) (dialect : Dialect)
    (group : Name × List Name) (params : List Param) :
    Except Exn (Select × List Param × Option ResolvedRange × List JoinPath) := do
  let scope ← C.scopeParts ordered req group.1
  let dims ← C.dimItems req scope.aliases
  let measures ← group.2.mapM (C.groupItem dialect scope.aliases req.orderWithinGroup)
  let filters ← C.whereSql ordered req scope.aliases params
  let groupBy ← C.groupBySql req dialect scope.aliases
  let source ← C.fromSql group.1 scope.hops scope.aliases
  return (⟨dims, measures, source, filters.1, groupBy⟩, filters.2.1, filters.2.2, scope.hops)

/-- The loop over the groups: their SELECTs, the parameters after them, the last resolved
range and the hops in order of appearance. -/
def compileGroups (ordered : List FilterSpec) (req : CompileRequest) (dialect : Dialect) :
    List (Name × List Name) → List Param → Option ResolvedRange → List JoinPath →
      Except Exn (List Select × List Param × Option ResolvedRange × List JoinPath)
  | [], params, range, hops => .ok ([], params, range, hops)
  | group :: groups, params, _, hops => do
      let own ← C.compileGroup ordered req dialect group params
      let rest ← compileGroups ordered req dialect groups own.2.1 own.2.2.1
        (addAllNew JoinPath.name hops own.2.2.2)
      return (own.1 :: rest.1, rest.2)

/-- `cte_of_measure` of the groups. -/
def cteOf (groups : List (Name × List Name)) (name : Name) : Option Nat :=
  groups.findIdx? fun g => name ∈ g.2

/-- A base measure of the outer scope. -/
def cteLeaf (groups : List (Name × List Name)) (m : Measure) : Except Exn (Expr CteRef) :=
  (getKey (cteOf groups m.name)).map fun i => .col ⟨i, m.name⟩

/-- The joins of the common table expressions after the first. -/
def cteJoins (req : CompileRequest) (n : Nat) : List CteJoin :=
  (List.range' 1 (n - 1)).map fun k =>
    if req.dimensions = [] then .cross
    else .full (req.dimensions.map fun d => (⟨k, d.name⟩, (List.range k).map (⟨·, d.name⟩)))

/-- The dimensions of the outer SELECT, from whichever group has them. -/
def outerDims (req : CompileRequest) (n : Nat) : List (List CteRef × Name) :=
  req.dimensions.map fun d => ((List.range n).map fun i => ⟨i, d.name⟩, d.name)

/-- `_compile_multi`. -/
def compileMulti (ordered : List FilterSpec) (req : CompileRequest) (dialect : Dialect)
    (groups : List (Name × List Name)) :
    Except Exn (Query × List Param × Option ResolvedRange × List JoinPath) := do
  let ctes ← C.compileGroups ordered req dialect groups [] none []
  let measures ← C.metricItems (cteLeaf groups) req.metrics
  let having ← C.havingClauses (fun m => C.metricExpr (cteLeaf groups) C.depth m.name) req.having
    ctes.2.1
  let tail ← C.orderLimit req
  return (.multi ctes.1
    ⟨outerDims req groups.length, measures, cteJoins req groups.length, having.1⟩ tail,
    having.2, ctes.2.2.1, ctes.2.2.2)

/-! ### What is returned next to the SQL -/

/-- `_output_schema`. -/
def outputSchema (dims : List (Dimension × Option TimeGrain)) (measures : List Measure) :
    List OutputColumn :=
  (dims.map fun d =>
    ⟨d.1.name,
      match d.1.dimType with
      | .time => if d.2 = none ∨ d.2 = some .hour then "timestamp" else "date"
      | .categorical => "string"
      | .numeric => "numeric"
      | .boolean => "boolean"
      | .geo => "string",
      true⟩) ++
  measures.map fun m =>
    let format := m.format.filter (!·.isEmpty)
    ⟨m.name,
      match m.kind with
      | .derived _ => format.getD "decimal"
      | .base b =>
        match b.agg with
        | .count => "bigint"
        | .countDistinct => "bigint"
        | .first => format.getD "string"
        | _ => format.getD "decimal",
      false⟩

/-- The warning about a deprecated object. -/
def deprecation (kind : String) (name : Name) (deprecated : Bool) (successor : Option String) :
    List String :=
  if deprecated then
    ["DEPRECATED: " ++ kind ++ " " ++ name.text ++
      match successor.filter (!·.isEmpty) with
      | some s => " (successor: " ++ s ++ ")"
      | none => ""]
  else []

/-- The measure is deprecated. -/
def measureWarning (name : Name) : List String :=
  match C.defn.measure? name with
  | some m => deprecation "measure" name m.deprecated m.successor
  | none => []

/-- The dimension is deprecated. -/
def dimensionWarning (name : Name) : List String :=
  match C.defn.dimension? name with
  | some d => deprecation "dimension" name d.deprecated d.successor
  | none => []

/-- The measures that `_base_measures` looks up. -/
def visited : Nat → Name → List Name
  | 0, _ => []
  | fuel + 1, name =>
    name ::
      match (C.defn.measure? name).map Measure.kind with
      | some (.derived d) => (sortedColumns d.exprMetric.columns).flatMap (visited fuel)
      | _ => []

/-- The warnings of the look-ups, each once. -/
def warnings (ordered : List FilterSpec) (req : CompileRequest) : List String :=
  addAllNew id [] ((req.metrics ++ req.metrics.flatMap (C.visited C.depth)).flatMap
    C.measureWarning ++
    (req.dimensions.map DimRef.name ++ ordered.map FilterSpec.dimension ++
      (req.timeRange.map TimeRange.dimension).toList).flatMap C.dimensionWarning)

/-! ### Compile -/

/-- The entity of a base measure. -/
def entityOf (name : Name) : Except Exn Name :=
  match (C.defn.measure? name).map Measure.kind with
  | some (.base b) => .ok b.entity
  | _ => .error .python

/-- Base measures by entity, in the order of first appearance. -/
def groupsOf (bases : List (Name × Name)) : List (Name × List Name) :=
  (addAllNew id [] (bases.map Prod.snd)).map fun entity =>
    (entity, (bases.filter fun b => b.2 = entity).map Prod.fst)

/-- The base measures of a request, in order of appearance, each with its entity. -/
def bases (req : CompileRequest) : Except Exn (List (Name × Name)) := do
  let parts ← req.metrics.mapM (C.baseMeasures C.depth [])
  (addAllNew id [] parts.flatten).mapM fun name => (C.entityOf name).map (name, ·)

/-- One SELECT for one group, a joined plan for several. -/
def plan (ordered : List FilterSpec) (req : CompileRequest) (dialect : Dialect) :
    List (Name × List Name) → Except Exn (Query × List Param × Option ResolvedRange × List JoinPath)
  | [group] => C.compileSingle ordered req dialect group.1
  | groups => C.compileMulti ordered req dialect groups

/-- `compile`, where the filters are in this order. -/
def compileWith (ordered : List FilterSpec) (req : CompileRequest) (dialect : Dialect) :
    Except Exn Compiled := do
  let requested ← req.metrics.mapM C.measure
  let bases ← C.bases req
  let dims ← req.dimensions.mapM fun d => (C.dimension d.name).map (·, d.grain)
  let out ← C.plan ordered req dialect (groupsOf bases)
  return {
    query := out.1, params := out.2.1, dialect
    outputSchema := outputSchema dims requested
    measures := req.metrics
    dimensions := req.dimensions.map DimRef.name
    joinPaths := out.2.2.2.map JoinPath.name
    timeRangeResolved := out.2.2.1
    warnings := C.warnings ordered req }

/-- `compile`. -/
def compile (req : CompileRequest) (dialect : Dialect) : Except Exn Compiled :=
  C.compileWith req.orderedFilters req dialect

end Compiler

end Windrose.Semantic

/-
  Semantic/Request.lean --- compile requests.

  Source: services/semantic-service/app/compiler/compiler.py (normalize_request,
  CompileRequest, _ptype) and app/utils.py (canonical_json).

  `normalizeRequest` reads a request body without looking at any model; what it checks is
  in the types of what it returns.  The canonical form of a request determines it up to
  the order of its filters (`canonicalJson_eq_iff`), and filters are read in the order of
  their keys everywhere.
-/
import Mathlib.Data.Prod.Lex
import Windrose.Foundation.Dumps
import Windrose.Foundation.Fresh
import Windrose.Semantic.Definition
import Windrose.ToolPlane.ArgsDigest

set_option autoImplicit false

namespace Windrose.Semantic

open Windrose.Foundation
open Windrose.ToolPlane (PyNumber codeLE)

/-! ## Values -/

theorem codeLE_total (s t : String) : codeLE s t = true ∨ codeLE t s = true := by
  simp only [codeLE, Bool.not_eq_true', decide_eq_false_iff_not, not_lt]
  exact le_total s t

theorem codeLE_trans (s t u : String) (hst : codeLE s t = true) (htu : codeLE t u = true) :
    codeLE s u = true := by
  simp only [codeLE, Bool.not_eq_true', decide_eq_false_iff_not, not_lt] at *
  exact le_trans hst htu

/-- A JSON value as Python holds it.  A dict has no order; its fields stand in that of
their names. -/
structure Value where
  tree : JsonTree PyNumber
  sorted : tree.sorted codeLE = tree

def Value.of (v : JsonTree PyNumber) : Value :=
  ⟨v.sorted codeLE, JsonTree.sorted_sorted codeLE_total codeLE_trans v⟩

def Value.str (s : String) : Value := ⟨.str s, rfl⟩

theorem Value.ext {v w : Value} (h : v.tree = w.tree) : v = w := by
  cases v
  cases w
  cases h
  rfl

/-- `canonical_json`. -/
def canonicalJson (v : JsonTree PyNumber) : Bytes :=
  (pyWriter false).write ((v.sorted codeLE).toJson PyNumber.number)

theorem canonicalJson_eq_iff {v w : JsonTree PyNumber} :
    canonicalJson v = canonicalJson w ↔ v.sorted codeLE = w.sorted codeLE := by
  constructor
  · intro h
    exact JsonTree.toJson_injective ToolPlane.PyNumber.number_injective _ _
      ((pyWriter false).write_injective h)
  · intro h
    rw [canonicalJson, canonicalJson, h]

/-- A filter value. -/
inductive Scalar where
  | bool (b : Bool)
  | num (n : PyNumber)
  | str (s : String)
  | null
  deriving DecidableEq

namespace Scalar

def tree : Scalar → JsonTree PyNumber
  | bool b => .bool b
  | num n => .num n
  | str s => .str s
  | null => .null

def value (v : Scalar) : Value := ⟨v.tree, by cases v <;> rfl⟩

theorem tree_injective : Function.Injective tree := by
  intro v w h
  cases v <;> cases w <;> cases h <;> rfl

end Scalar

/-- The truth value of a Python value. -/
def truthy : JsonTree PyNumber → Bool
  | .null => false
  | .bool b => b
  | .num (.int n) => n ≠ 0
  | .num (.float x) => x.mag ≠ 0
  | .str s => !s.isEmpty
  | .arr vs => !vs.isEmpty
  | .obj fs => !fs.isEmpty

/-! ## Errors -/

/-- What the texts of `_gate` call a name. -/
inductive Gated where
  | metric | dimension | filterDimension | timeRangeDimension | orderBy | havingMetric
  | joinPath | orderWithinGroup
  deriving DecidableEq

/-- `FILTER_OPS`. -/
inductive FilterOp where
  | cmp (op : CmpOp)
  | «in» | notIn | between | like | isNull | isNotNull
  deriving DecidableEq

/-- The exceptions of the compiler, with what their texts quote. -/
inductive Exn where
  | metricsRequired
  | notName (what : Gated) (value : JsonTree PyNumber)
  | tooManyMetrics (cap : Nat)
  | tooManyDimensions (cap : Nat)
  | grainNotAllowed (value : JsonTree PyNumber)
  | filterOpNotAllowed (value : JsonTree PyNumber)
  | filterNotScalar (dimension : Name)
  | filterValues (op : FilterOp)
  | timeRangeRequired
  | havingOpNotAllowed (value : JsonTree PyNumber)
  | havingNotScalar
  | limitNotPositive
  | limitCapped (cap : Nat)
  | unknownDialect (value : JsonTree PyNumber)
  | unknownMetric (name : Name)
  | unknownDimension (name : Name)
  | modelUnhealthy (name : Name)
  | derivedCycle (name : Name)
  | derivedWithoutMeasures (name : Name)
  | noJoinPath (base target : Name)
  | ambiguousJoinPath (base target : Name) (candidates : List (List Name))
  | notJoined (entity : Name)
  | notATimeDimension (name : Name)
  | grainNotOffered (name : Name) (grain : TimeGrain)
  | aggRequiresExpr (name : Name)
  | firstNeedsOrder (name : Name)
  | firstNotSupported (dialect : Dialect)
  | unknownTimezone
  | emptyRelativeRange
  | unknownRelativeRange (relative : String)
  | orderByNotSelected (name : Name)
  | unknownHavingMetric (name : Name)
  /-- An exception of Python itself: TypeError, AttributeError, KeyError, OverflowError. -/
  | python

/-! ## Requests -/

/-- The limits of a request. -/
structure Settings where
  compileMaxMetrics : Nat
  compileMaxDimensions : Nat
  compileLimitCap : Nat

/-- A dimension that is asked for. -/
structure DimRef where
  name : Name
  grain : Option TimeGrain
  deriving DecidableEq

/-- How many values an operator takes; the pattern of LIKE is a text. -/
def FilterOp.takes : FilterOp → List Scalar → Bool
  | .isNull, vs => vs.isEmpty
  | .isNotNull, vs => vs.isEmpty
  | .between, vs => vs.length == 2
  | .in, vs => !vs.isEmpty
  | .notIn, vs => !vs.isEmpty
  | .cmp _, vs => vs.length == 1
  | .like, [.str _] => true
  | .like, _ => false

/-- A filter on a dimension. -/
structure FilterSpec where
  dimension : Name
  op : FilterOp
  values : List Scalar
  values_ok : op.takes values = true
  deriving DecidableEq

/-- A condition on a measure. -/
structure HavingSpec where
  metric : Name
  op : CmpOp
  value : Scalar
  deriving DecidableEq

/-- A key of the order. -/
structure OrderSpec where
  name : Name
  desc : Bool
  deriving DecidableEq

/-- The time range, as it is sent. -/
structure TimeRange where
  dimension : Name
  start : Value
  «end» : Value
  relative : Value

/-- `limit`: a positive integer, or `True`, which Python counts as one. -/
inductive Limit where
  | bool
  | int (n : Nat)
  deriving DecidableEq

/-- A normalized request; names are unique. -/
structure CompileRequest where
  metrics : List Name
  metrics_nodup : metrics.Nodup
  dimensions : List DimRef
  dimensions_nodup : (dimensions.map DimRef.name).Nodup
  filters : List FilterSpec
  timeRange : Option TimeRange
  orderBy : List OrderSpec
  limit : Option Limit
  having : List HavingSpec
  joinPaths : List Name
  orderWithinGroup : Option Name

/-! ## Reading a request -/

section Normalize

/-- The fields of a body. -/
abbrev Fields : Type := List (String × JsonTree PyNumber)

def getField (fields : Fields) (key : String) : JsonTree PyNumber := (fields.lookup key).getD .null

/-- `v.get(key)`: of a dict only. -/
def get (v : JsonTree PyNumber) (key : String) : Except Exn (JsonTree PyNumber) :=
  match v with
  | .obj fields => .ok (getField fields key)
  | _ => .error .python

/-- `for x in v or []`. -/
def items (v : JsonTree PyNumber) : Except Exn (List (JsonTree PyNumber)) :=
  if truthy v then
    match v with
    | .arr vs => .ok vs
    | .str s => .ok (s.toList.map fun c => .str (String.singleton c))
    | .obj fields => .ok (fields.map fun f => .str f.1)
    | _ => .error .python
  else .ok []

/-- `_gate`. -/
def gate (what : Gated) (v : JsonTree PyNumber) : Except Exn Name :=
  match v with
  | .str s =>
    match Name.of? s with
    | some name => .ok name
    | none => .error (.notName what v)
  | v => .error (.notName what v)

/-- `_scalar`. -/
def scalar (exn : Exn) : JsonTree PyNumber → Except Exn Scalar
  | .bool b => .ok (.bool b)
  | .num n => .ok (.num n)
  | .str s => .ok (.str s)
  | .null => .ok .null
  | _ => .error exn

def timeGrains : List TimeGrain := [.hour, .day, .week, .month, .quarter, .year]

def cmpOps : List CmpOp := [.eq, .ne, .gt, .ge, .lt, .le]

def FilterOp.text : FilterOp → String
  | .cmp op => op.text
  | .in => "IN"
  | .notIn => "NOT IN"
  | .between => "BETWEEN"
  | .like => "LIKE"
  | .isNull => "IS NULL"
  | .isNotNull => "IS NOT NULL"

/-- `FILTER_OPS`. -/
def filterOps : List FilterOp :=
  cmpOps.map .cmp ++ [.in, .notIn, .between, .like, .isNull, .isNotNull]

/-- The word that a value is, if it is one. -/
def word {α : Type} (words : List α) (text : α → String) (exn : JsonTree PyNumber → Exn)
    (v : JsonTree PyNumber) : Except Exn α :=
  match v with
  | .str s =>
    match words.find? (text · == s) with
    | some w => .ok w
    | none => .error (exn v)
  | v => .error (exn v)

def normalizeMetrics (settings : Settings) (v : JsonTree PyNumber) :
    Except Exn { ms : List Name // ms.Nodup } := do
  let ms ← if truthy v then
      match v with
      | .arr vs => .ok vs
      | _ => .error .metricsRequired
    else .error .metricsRequired
  let names ← ms.mapM (gate .metric)
  let metrics := addAllNew id [] names
  if settings.compileMaxMetrics < metrics.length then
    .error (.tooManyMetrics settings.compileMaxMetrics)
  else .ok ⟨metrics, nodup_addAllNew_id List.nodup_nil names⟩

def normalizeDimension (d : JsonTree PyNumber) : Except Exn DimRef := do
  let d := match d with
    | .str s => .obj [("name", .str s)]
    | d => d
  let name ← gate .dimension (← get d "name")
  let grain ← match ← get d "grain" with
    | .null => .ok none
    | v => some <$> word timeGrains TimeGrain.text .grainNotAllowed v
  return ⟨name, grain⟩

def normalizeDimensions (settings : Settings) (v : JsonTree PyNumber) :
    Except Exn { ds : List DimRef // (ds.map DimRef.name).Nodup } := do
  let refs ← (← items v).mapM normalizeDimension
  let dims := addAllNew DimRef.name [] refs
  if settings.compileMaxDimensions < dims.length then
    .error (.tooManyDimensions settings.compileMaxDimensions)
  else .ok ⟨dims, nodup_addAllNew (by simp) refs⟩

def normalizeFilter (f : JsonTree PyNumber) : Except Exn FilterSpec := do
  let dimension ← gate .filterDimension (← get f "dimension")
  let op ← word filterOps FilterOp.text .filterOpNotAllowed (← get f "op")
  let values := match ← get f "values" with
    | .null => []
    | .arr vs => vs
    | v => [v]
  let values ← values.mapM (scalar (.filterNotScalar dimension))
  if h : op.takes values = true then .ok ⟨dimension, op, values, h⟩ else .error (.filterValues op)

def normalizeTimeRange (tr : JsonTree PyNumber) : Except Exn (Option TimeRange) :=
  if truthy tr then do
    let range : TimeRange := {
      dimension := ← gate .timeRangeDimension (← get tr "dimension")
      start := Value.of (← get tr "start")
      «end» := Value.of (← get tr "end")
      relative := Value.of (← get tr "relative") }
    match range.relative.tree with
    | .null =>
      if truthy range.start.tree && truthy range.end.tree then .ok (some range)
      else .error .timeRangeRequired
    | _ => .ok (some range)
  else .ok none

def normalizeOrder (o : JsonTree PyNumber) : Except Exn OrderSpec := do
  let o := match o with
    | .str s =>
      .obj [("name", .str (String.ofList (s.toList.dropWhile (· == '-')))),
        ("desc", .bool (s.toList.head? == some '-'))]
    | o => o
  return ⟨← gate .orderBy (← get o "name"), truthy (← get o "desc")⟩

def normalizeHaving (h : JsonTree PyNumber) : Except Exn HavingSpec := do
  let op ← word cmpOps CmpOp.text .havingOpNotAllowed (← get h "op")
  return ⟨← gate .havingMetric (← get h "metric"), op, ← scalar .havingNotScalar (← get h "value")⟩

def normalizeLimit (settings : Settings) : JsonTree PyNumber → Except Exn (Option Limit)
  | .null => .ok none
  | .bool b =>
    if b then if settings.compileLimitCap < 1 then .error (.limitCapped settings.compileLimitCap)
      else .ok (some .bool)
    else .error .limitNotPositive
  | .num (.int n) =>
    if n < 1 then .error .limitNotPositive
    else if settings.compileLimitCap < n then .error (.limitCapped settings.compileLimitCap)
    else .ok (some (.int n.toNat))
  | _ => .error .limitNotPositive

def normalizeOrderWithinGroup : JsonTree PyNumber → Except Exn (Option Name)
  | .null => .ok none
  | v => some <$> gate .orderWithinGroup v

/-- `normalize_request`. -/
def normalizeRequest (settings : Settings) (body : Fields) : Except Exn CompileRequest := do
  let metrics ← normalizeMetrics settings (getField body "metrics")
  let dims ← normalizeDimensions settings (getField body "dimensions")
  let filters ← (← items (getField body "filters")).mapM normalizeFilter
  let timeRange ← normalizeTimeRange (getField body "time_range")
  let orderBy ← (← items (getField body "order_by")).mapM normalizeOrder
  let having ← (← items (getField body "having")).mapM normalizeHaving
  let limit ← normalizeLimit settings (getField body "limit")
  let joinPaths ← (← items (getField body "join_paths")).mapM (gate .joinPath)
  let owg ← normalizeOrderWithinGroup (getField body "order_within_group")
  return {
    metrics := metrics.1, metrics_nodup := metrics.2, dimensions := dims.1
    dimensions_nodup := dims.2, filters, timeRange, orderBy, limit, having, joinPaths
    orderWithinGroup := owg }

end Normalize

/-! ## The order of filters -/

namespace FilterSpec

def valuesTree (f : FilterSpec) : JsonTree PyNumber := .arr (f.values.map Scalar.tree)

/-- The key that filters are sorted by. -/
def key (f : FilterSpec) : Lex (String × Lex (String × List Nat)) :=
  toLex (f.dimension.text, toLex (f.op.text, (canonicalJson f.valuesTree).map UInt8.toNat))

end FilterSpec

theorem mem_filterOps (op : FilterOp) : op ∈ filterOps := by
  cases op with
  | cmp op => cases op <;> decide
  | _ => decide

theorem FilterOp.text_injective : Function.Injective FilterOp.text := by
  have htexts : ∀ op ∈ filterOps, ∀ op' ∈ filterOps, op.text = op'.text → op = op' := by decide
  exact fun op op' => htexts op (mem_filterOps op) op' (mem_filterOps op')

namespace CompileRequest

/-- `sorted(filters, key=...)`. -/
def orderedFilters (req : CompileRequest) : List FilterSpec :=
  req.filters.insertionSort fun f g => f.key ≤ g.key

theorem orderedFilters_perm (req : CompileRequest) : req.orderedFilters.Perm req.filters :=
  List.perm_insertionSort _ _

end CompileRequest

end Windrose.Semantic

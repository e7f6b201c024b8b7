/-
  Semantic/Canonical.lean --- the canonical form of a request.

  Source: services/semantic-service/app/compiler/compiler.py (CompileRequest.canonical,
  request_hash) and app/utils.py (canonical_json, sha256_hex).

  The canonical form is a JSON value with the filters in the order of their keys.  Its text
  determines every field of the request, the filters up to their order
  (`eq_of_canonicalJson`), so requests with one text compile to one query.
-/
import Windrose.Semantic.Compiler

set_option autoImplicit false

namespace Windrose.Semantic

open Windrose.Foundation
open Windrose.ToolPlane (PyNumber codeLE)

/-! ## The trees of the parts -/

/-- `None`, or the tree of a value. -/
def optionTree {α : Type} (tree : α → JsonTree PyNumber) : Option α → JsonTree PyNumber
  | none => .null
  | some a => tree a

def listTree {α : Type} (tree : α → JsonTree PyNumber) (as : List α) : JsonTree PyNumber :=
  .arr (as.map tree)

def Name.tree (n : Name) : JsonTree PyNumber := .str n.text

def TimeGrain.tree (g : TimeGrain) : JsonTree PyNumber := .str g.text

def DimRef.tree (d : DimRef) : JsonTree PyNumber :=
  .obj [("name", d.name.tree), ("grain", optionTree TimeGrain.tree d.grain)]

def FilterSpec.tree (f : FilterSpec) : JsonTree PyNumber :=
  .obj [("dimension", f.dimension.tree), ("op", .str f.op.text), ("values", f.valuesTree)]

def TimeRange.tree (tr : TimeRange) : JsonTree PyNumber :=
  .obj [("dimension", tr.dimension.tree), ("start", tr.start.tree), ("end", tr.end.tree),
    ("relative", tr.relative.tree)]

def OrderSpec.tree (o : OrderSpec) : JsonTree PyNumber :=
  .obj [("name", o.name.tree), ("desc", .bool o.desc)]

def HavingSpec.tree (h : HavingSpec) : JsonTree PyNumber :=
  .obj [("metric", h.metric.tree), ("op", .str h.op.text), ("value", h.value.tree)]

def Limit.tree : Limit → JsonTree PyNumber
  | .bool => .bool true
  | .int n => .num (.int n)

/-- `canonical`. -/
def CompileRequest.canonical (req : CompileRequest) : JsonTree PyNumber :=
  .obj [("metrics", listTree Name.tree req.metrics),
    ("dimensions", listTree DimRef.tree req.dimensions),
    ("filters", listTree FilterSpec.tree req.orderedFilters),
    ("time_range", optionTree TimeRange.tree req.timeRange),
    ("order_by", listTree OrderSpec.tree req.orderBy),
    ("limit", optionTree Limit.tree req.limit),
    ("having", listTree HavingSpec.tree req.having),
    ("join_paths", listTree Name.tree req.joinPaths),
    ("order_within_group", optionTree Name.tree req.orderWithinGroup)]

/-! ## What a tree determines -/

/-- The tree of a value determines it, whatever the order of the fields. -/
def Determines {α : Type} (tree : α → JsonTree PyNumber) : Prop :=
  Function.Injective fun a => (tree a).sorted codeLE

section Determines

variable {α : Type} {tree : α → JsonTree PyNumber}

theorem Determines.option (h : Determines tree) (hnull : ∀ a, (tree a).sorted codeLE ≠ .null) :
    Determines (optionTree tree) := by
  intro a b hab
  cases a with
  | none =>
    cases b with
    | none => rfl
    | some b => exact absurd hab.symm (hnull b)
  | some a =>
    cases b with
    | none => exact absurd hab (hnull a)
    | some b => exact congrArg some (h hab)

theorem Determines.list (h : Determines tree) : Determines (listTree tree) := by
  intro as bs hab
  have hitems := JsonTree.arr.inj hab
  rw [JsonTree.sortedItems_eq, JsonTree.sortedItems_eq, List.map_map, List.map_map] at hitems
  exact h.list_map hitems

theorem Determines.field (h : Determines tree) {fs gs : List (String × JsonTree PyNumber)}
    (heq : ∀ key, (fs.lookup key).map (JsonTree.sorted codeLE) =
      (gs.lookup key).map (JsonTree.sorted codeLE)) (key : String) {a b : α}
    (ha : fs.lookup key = some (tree a)) (hb : gs.lookup key = some (tree b)) : a = b := by
  have hkey := heq key
  rw [ha, hb, Option.map_some, Option.map_some, Option.some.injEq] at hkey
  exact h hkey

theorem determines_text {text : α → String} (h : Function.Injective text) :
    Determines fun a => .str (text a) :=
  fun _ _ hab => h (JsonTree.str.inj hab)

end Determines

theorem determines_name : Determines Name.tree := determines_text fun _ _ h => Name.ext h

theorem CmpOp.text_injective : Function.Injective CmpOp.text := by
  intro op op' h
  cases op <;> cases op' <;> first | rfl | exact absurd h (by decide)

theorem determines_grain : Determines TimeGrain.tree := by
  apply determines_text
  intro g g' h
  cases g <;> cases g' <;> first | rfl | exact absurd h (by decide)

theorem determines_value : Determines Value.tree := by
  intro v w h
  have h : v.tree.sorted codeLE = w.tree.sorted codeLE := h
  rw [v.sorted, w.sorted] at h
  exact Value.ext h

theorem determines_scalar : Determines Scalar.tree := by
  intro v w h
  have h : v.value.tree.sorted codeLE = w.value.tree.sorted codeLE := h
  rw [v.value.sorted, w.value.sorted] at h
  exact Scalar.tree_injective h

theorem determines_limit : Determines Limit.tree := by
  intro l l' h
  cases l <;> cases l' <;> cases h <;> rfl

theorem determines_bool : Determines JsonTree.bool := fun _ _ h => JsonTree.bool.inj h

theorem determines_dimRef : Determines DimRef.tree := by
  intro d e h
  have h := JsonTree.lookup_of_sorted_eq (by simp) h
  have hname := determines_name.field h "name" rfl rfl
  have hgrain := (determines_grain.option fun _ h => nomatch h).field h "grain" rfl rfl
  cases d
  cases hname
  cases hgrain
  rfl

theorem determines_filter : Determines FilterSpec.tree := by
  intro f g h
  have h := JsonTree.lookup_of_sorted_eq (by simp) h
  have hdim := determines_name.field h "dimension" rfl rfl
  have hop := (determines_text FilterOp.text_injective).field h "op" rfl rfl
  have hvalues := (determines_scalar.list).field h "values" rfl rfl
  cases f
  cases g
  cases hdim
  cases hop
  cases hvalues
  rfl

theorem determines_timeRange : Determines TimeRange.tree := by
  intro tr tr' h
  have h := JsonTree.lookup_of_sorted_eq (by simp) h
  have hdim := determines_name.field h "dimension" rfl rfl
  have hstart := determines_value.field h "start" rfl rfl
  have hend := determines_value.field h "end" rfl rfl
  have hrelative := determines_value.field h "relative" rfl rfl
  cases tr
  cases hdim
  cases hstart
  cases hend
  cases hrelative
  rfl

theorem determines_order : Determines OrderSpec.tree := by
  intro o o' h
  have h := JsonTree.lookup_of_sorted_eq (by simp) h
  have hname := determines_name.field h "name" rfl rfl
  have hdesc := determines_bool.field h "desc" rfl rfl
  cases o
  cases hname
  cases hdesc
  rfl

theorem determines_having : Determines HavingSpec.tree := by
  intro k k' h
  have h := JsonTree.lookup_of_sorted_eq (by simp) h
  have hmetric := determines_name.field h "metric" rfl rfl
  have hop := (determines_text CmpOp.text_injective).field h "op" rfl rfl
  have hvalue := determines_scalar.field h "value" rfl rfl
  cases k
  cases hmetric
  cases hop
  cases hvalue
  rfl

/-! ## Requests with one text -/

/-- The text of the canonical form determines the request, but for the order of filters. -/
theorem CompileRequest.eq_of_canonicalJson {req req' : CompileRequest}
    (h : canonicalJson req.canonical = canonicalJson req'.canonical) :
    req.orderedFilters = req'.orderedFilters ∧ req = { req' with filters := req.filters } := by
  have h := JsonTree.lookup_of_sorted_eq (by simp) (canonicalJson_eq_iff.mp h)
  have hmetrics := determines_name.list.field h "metrics" rfl rfl
  have hdims := determines_dimRef.list.field h "dimensions" rfl rfl
  have hfilters := determines_filter.list.field h "filters" rfl rfl
  have hrange := (determines_timeRange.option fun _ h => nomatch h).field h "time_range" rfl rfl
  have horder := determines_order.list.field h "order_by" rfl rfl
  have hlimit := (determines_limit.option fun l h => by cases l <;> cases h).field h "limit" rfl rfl
  have hhaving := determines_having.list.field h "having" rfl rfl
  have hpaths := determines_name.list.field h "join_paths" rfl rfl
  have howg := (determines_name.option fun _ h => nomatch h).field h "order_within_group" rfl rfl
  refine ⟨hfilters, ?_⟩
  cases req
  cases hmetrics
  cases hdims
  cases hrange
  cases horder
  cases hlimit
  cases hhaving
  cases hpaths
  cases howg
  rfl

/-! ## What a compile depends on

The clock enters through the bounds of the time range, and the filters through their order. -/

namespace Compiler

/-- The compiler at another time. -/
def «at» (C : Compiler) (today : Option Int) : Compiler := { C with today }

variable {C : Compiler} {today : Option Int} {ordered fs : List FilterSpec} {req : CompileRequest}
  {dialect : Dialect}

theorem baseMeasures_at (fuel : Nat) : (C.at today).baseMeasures fuel = C.baseMeasures fuel := by
  delta baseMeasures
  rfl

theorem filterClauses_at (aliases : List (Name × Bytes)) :
    (C.at today).filterClauses aliases = C.filterClauses aliases := by
  delta filterClauses
  rfl

theorem metricExpr_at {τ : Type} (leaf : Measure → Except Exn (Expr τ)) (fuel : Nat) :
    (C.at today).metricExpr leaf fuel = C.metricExpr leaf fuel := by
  delta metricExpr
  rfl

theorem havingClauses_at {τ : Type} (target : Measure → Except Exn (Expr τ)) :
    (C.at today).havingClauses target = C.havingClauses target := by
  delta havingClauses
  rfl

theorem warnings_at :
    (C.at today).warnings ordered { req with filters := fs } = C.warnings ordered req := by
  delta warnings visited
  rfl

theorem bases_at : (C.at today).bases { req with filters := fs } = C.bases req := by
  rw [bases, baseMeasures_at]
  rfl

theorem rangeSql_at {aliases : List (Name × Bytes)} {n : Nat} {range : Option TimeRange}
    (h : ∀ tr, range = some tr → (C.at today).rangeBounds tr = C.rangeBounds tr) :
    (C.at today).rangeSql aliases n range = C.rangeSql aliases n range := by
  cases range with
  | none => rfl
  | some tr =>
    rw [rangeSql, h tr rfl]
    rfl

variable (h : ∀ tr, req.timeRange = some tr → (C.at today).rangeBounds tr = C.rangeBounds tr)

include h

theorem whereSql_at (aliases : List (Name × Bytes)) (params : List Param) :
    (C.at today).whereSql ordered { req with filters := fs } aliases params =
      C.whereSql ordered req aliases params := by
  simp only [whereSql, filterClauses_at, rangeSql_at h]

theorem compileSingle_at (base : Name) :
    (C.at today).compileSingle ordered { req with filters := fs } dialect base =
      C.compileSingle ordered req dialect base := by
  simp only [compileSingle, whereSql_at h, metricItems, metricExpr_at, havingClauses_at]
  rfl

theorem compileGroups_at (groups : List (Name × List Name)) (params : List Param)
    (range : Option ResolvedRange) (hops : List JoinPath) :
    (C.at today).compileGroups ordered { req with filters := fs } dialect groups params range hops =
      C.compileGroups ordered req dialect groups params range hops := by
  have hgroup : ∀ group params,
      (C.at today).compileGroup ordered { req with filters := fs } dialect group params =
        C.compileGroup ordered req dialect group params := by
    intro group params
    simp only [compileGroup, whereSql_at h]
    rfl
  induction groups generalizing params range hops with
  | nil => rfl
  | cons group groups ih => simp only [compileGroups, hgroup, ih]

theorem plan_at (groups : List (Name × List Name)) :
    (C.at today).plan ordered { req with filters := fs } dialect groups =
      C.plan ordered req dialect groups := by
  have hmulti : (C.at today).compileMulti ordered { req with filters := fs } dialect groups =
      C.compileMulti ordered req dialect groups := by
    simp only [compileMulti, compileGroups_at h, metricItems, metricExpr_at, havingClauses_at]
    rfl
  unfold plan
  split
  · exact compileSingle_at h _
  · exact hmulti

/-- A compile depends on the time only through the bounds of the time range of the request,
and on its filters only through the order they are read in. -/
theorem compileWith_at : (C.at today).compileWith ordered { req with filters := fs } dialect =
      C.compileWith ordered req dialect := by
  simp only [compileWith, bases_at, plan_at h, warnings_at]
  rfl

omit h in
theorem compile_of_canonicalJson {req' : CompileRequest}
    (h : canonicalJson req.canonical = canonicalJson req'.canonical) (dialect : Dialect) :
    C.compile req dialect = C.compile req' dialect := by
  obtain ⟨hfilters, hreq⟩ := CompileRequest.eq_of_canonicalJson h
  rw [compile, compile, hfilters, hreq]
  exact compileWith_at fun _ _ => rfl

end Compiler

end Windrose.Semantic

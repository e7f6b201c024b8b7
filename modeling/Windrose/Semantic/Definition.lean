/-
  Semantic/Definition.lean --- the definition of a semantic model and its validation.

  Source: services/semantic-service/app/domain/definition.py.

  A `Definition` is what `parse_definition` returns: what it checks is a field of the part
  it is about, and the four dictionaries are lists whose names are distinct.
  `validateDefinition` is the guard of submit and approve; it returns the problems found.
-/
import Mathlib.Data.List.Dedup
import Mathlib.Data.List.Sort
import Windrose.Semantic.Expr

set_option autoImplicit false

namespace Windrose.Semantic

open Windrose.Foundation

/-! ## The parts of a definition -/

/-- `dataset_version_policy`. -/
inductive VersionPolicy where
  | latest
  | pinned (versionNo : Int)
  deriving DecidableEq

/-- A character of a part of a table name.  Of those beyond ASCII `isalnum` admits some. -/
def isTableChar (c : Char) : Bool := c == '_' || c == '$' || c.isAlphanum || 128 ≤ c.toNat

/-- The check of `table`: the parts between its points are words. -/
def isTable (table : String) : Bool :=
  (table.toList.splitOn '.').all fun part => !part.isEmpty && part.all isTableChar

/-- An entity of a model. -/
structure Entity where
  name : Name
  datasetURN : String
  /-- The dotted physical table. -/
  table : String
  table_ok : isTable table = true
  primaryKey : List Name
  datasetVersionPolicy : VersionPolicy
  deriving DecidableEq

/-- `DIM_TYPES`. -/
inductive DimType where
  | categorical | time | numeric | boolean | geo
  deriving DecidableEq

/-- A dimension has a column or an expression. -/
inductive DimSource where
  | column (column : Name)
  | expr (ast : Expr Name)

/-- A dimension of an entity. -/
structure Dimension where
  name : Name
  entity : Name
  dimType : DimType
  source : DimSource
  timeGrains : List TimeGrain
  grains_ok : dimType ≠ .time → timeGrains = []
  synonyms : List String
  deprecated : Bool
  successor : Option String

/-- `_validate_expr_metric_ast`. -/
def isMetricAst : Expr Name → Bool
  | .col _ => true
  | .lit (.num _) => true
  | .bin op l r => op != .mod && isMetricAst l && isMetricAst r
  | .func .nullif args => areMetricAsts args
  | _ => false
where
  areMetricAsts : Args Name → Bool
    | .nil => true
    | .cons e es => isMetricAst e && areMetricAsts es

/-- An aggregate over the columns of one entity; only `count` may go without expression. -/
structure BaseMeasure where
  entity : Name
  agg : AggName
  expr : Option (Expr Name)
  filters : Option (Cond Name)
  expr_ok : agg ≠ .count → expr.isSome = true

/-- A derived measure: an expression over measures. -/
structure DerivedMeasure where
  exprMetric : Expr Name
  expr_ok : isMetricAst exprMetric = true

/-- A measure is base or derived. -/
inductive MeasureKind where
  | base (b : BaseMeasure)
  | derived (d : DerivedMeasure)

/-- A measure of a model. -/
structure Measure where
  name : Name
  kind : MeasureKind
  format : Option String
  synonyms : List String
  deprecated : Bool
  successor : Option String

/-- The type of a join. -/
inductive JoinType where
  | left | inner
  deriving DecidableEq

/-- `CARDINALITIES`: a declared join does not fan out. -/
inductive Cardinality where
  | manyToOne | oneToOne
  deriving DecidableEq

/-- A declared join of two entities. -/
structure JoinPath where
  name : Name
  fromEntity : Name
  toEntity : Name
  joinType : JoinType
  /-- The pairs of `from_column` and `to_column`. -/
  on : List (Name × Name)
  on_ne_nil : on ≠ []
  cardinality : Cardinality
  deriving DecidableEq

/-- The definition of a model; names are unique. -/
structure Definition where
  entities : List Entity
  dimensions : List Dimension
  measures : List Measure
  joinPaths : List JoinPath
  entities_nodup : (entities.map Entity.name).Nodup
  dimensions_nodup : (dimensions.map Dimension.name).Nodup
  measures_nodup : (measures.map Measure.name).Nodup
  joinPaths_nodup : (joinPaths.map JoinPath.name).Nodup

namespace Definition

variable (defn : Definition)

/-- The entity of a name. -/
def entity? (name : Name) : Option Entity := defn.entities.find? (·.name = name)

/-- The dimension of a name. -/
def dimension? (name : Name) : Option Dimension := defn.dimensions.find? (·.name = name)

/-- The measure of a name. -/
def measure? (name : Name) : Option Measure := defn.measures.find? (·.name = name)

variable {defn}

variable {name : Name}

theorem of_measure? {m : Measure} (h : defn.measure? name = some m) :
    m ∈ defn.measures ∧ m.name = name :=
  ⟨List.mem_of_find?_eq_some h, by simpa using List.find?_some h⟩

theorem of_dimension? {d : Dimension} (h : defn.dimension? name = some d) :
    d ∈ defn.dimensions ∧ d.name = name :=
  ⟨List.mem_of_find?_eq_some h, by simpa using List.find?_some h⟩

theorem of_entity? {e : Entity} (h : defn.entity? name = some e) :
    e ∈ defn.entities ∧ e.name = name :=
  ⟨List.mem_of_find?_eq_some h, by simpa using List.find?_some h⟩

end Definition

/-! ## Columns -/

/-- `sorted(collect_columns(ast))`. -/
def sortedColumns (columns : List Name) : List Name :=
  columns.dedup.insertionSort fun m n => m.le n = true

theorem mem_sortedColumns {columns : List Name} {n : Name} :
    n ∈ sortedColumns columns ↔ n ∈ columns := by
  rw [sortedColumns, (List.perm_insertionSort _ _).mem_iff, List.mem_dedup]

/-- The columns it reads. -/
def DimSource.columns : DimSource → List Name
  | .column c => [c]
  | .expr ast => ast.columns

/-- The columns of the expression and of the filters of a measure. -/
def BaseMeasure.columns (b : BaseMeasure) : List Name :=
  (b.expr.map Expr.columns).getD [] ++ (b.filters.map Cond.columns).getD []

/-! ## Validation -/

/-- What `dataset_lookup` knows of a dataset: its columns and their types, in lower case. -/
structure Dataset where
  schema : List (String × String)

/-- The object that a problem is about. -/
inductive Owner where
  | entity (name : Name)
  | dimension (name : Name)
  | measure (name : Name)
  | joinPath (name : Name)
  | joinPaths

/-- The texts of the problems, with what they quote. -/
inductive Problem where
  | datasetNotFound (owner : Owner) (datasetURN : String)
  | primaryKeyNotInSchema (owner : Owner) (column : Name)
  | columnNotInSchema (owner : Owner) (column : Name) (entity : Name)
  | unknownEntity (owner : Owner) (entity : Name)
  | notATimeColumn (owner : Owner) (type : String)
  | nameCollision (owner : Owner)
  | unknownMeasure (owner : Owner) (ref : Name)
  | selfReference (owner : Owner)
  | avgOfNonNumeric (owner : Owner) (type : String)
  | countDistinctWithoutExpr (owner : Owner)
  | synonymCollision (owner : Owner) (synonym : String)
  | joinGraphCycle (a b : Name)

section Validate

variable (defn : Definition) (datasetLookup : String → Option Dataset)

/-- The schema of an entity whose dataset exists. -/
def schemaOf (entity : Entity) : Option (List (String × String)) :=
  if entity.datasetURN.isEmpty then none else (datasetLookup entity.datasetURN).map Dataset.schema

/-- The schema of an entity by name. -/
def schemaNamed (name : Name) : Option (List (String × String)) :=
  (defn.entity? name).bind (schemaOf datasetLookup)

/-- What is wrong with an entity. -/
def entityProblems (entity : Entity) : List Problem :=
  match schemaOf datasetLookup entity with
  | none => [.datasetNotFound (.entity entity.name) entity.datasetURN]
  | some schema =>
    (entity.primaryKey.filter fun c => (schema.lookup c.text).isNone).map
      (.primaryKeyNotInSchema (.entity entity.name))

/-- `check_columns`. -/
def checkColumns (owner : Owner) (entityName : Name) (columns : List Name) : List Problem :=
  match schemaNamed defn datasetLookup entityName with
  | none => []
  | some schema =>
    ((sortedColumns columns).filter fun c => (schema.lookup c.text).isNone).map
      (.columnNotInSchema owner · entityName)

/-- The type of a column, if the schema has it. -/
def columnType (entityName column : Name) : String :=
  (((schemaNamed defn datasetLookup entityName).bind (·.lookup column.text))).getD ""

/-- `_TIME_TYPES`. -/
def timeTypes : List String := ["date", "timestamp", "timestamptz", "datetime"]

/-- `_NUMERIC_TYPES`. -/
def numericTypes : List String :=
  ["int", "integer", "bigint", "long", "double", "float", "decimal", "numeric"]

/-- What is wrong with a dimension of a known entity, its name apart. -/
def dimensionProblems (dim : Dimension) : List Problem :=
  checkColumns defn datasetLookup (.dimension dim.name) dim.entity dim.source.columns ++
    match dim.dimType, dim.source with
    | .time, .column column =>
      let type := columnType defn datasetLookup dim.entity column
      if type ≠ "" ∧ type ∉ timeTypes then [.notATimeColumn (.dimension dim.name) type] else []
    | _, _ => []

/-- What is wrong with a measure. -/
def measureProblems (meas : Measure) : List Problem :=
  match meas.kind with
  | .derived d =>
    (sortedColumns d.exprMetric.columns).flatMap fun ref =>
      match defn.measure? ref with
      | none => [.unknownMeasure (.measure meas.name) ref]
      | some _ => if ref = meas.name then [.selfReference (.measure meas.name)] else []
  | .base b =>
    (if (defn.entity? b.entity).isNone then [.unknownEntity (.measure meas.name) b.entity]
      else
        checkColumns defn datasetLookup (.measure meas.name) b.entity b.columns ++
          match b.agg, b.expr with
          | .avg, some (.col column) =>
            let type := columnType defn datasetLookup b.entity column
            if type ≠ "" ∧ type ∉ numericTypes ∧ ¬ "decimal".toList <+: type.toList then
              [.avgOfNonNumeric (.measure meas.name) type]
            else []
          | _, _ => []) ++
      if b.agg = .countDistinct ∧ b.expr.isNone then
        [.countDistinctWithoutExpr (.measure meas.name)]
      else []

/-- The loop over the dimensions, with the names so far. -/
def dimensionsLoop : List Name → List Dimension → List Problem × List Name
  | allNames, [] => ([], allNames)
  | allNames, dim :: dims =>
    if (defn.entity? dim.entity).isNone then
      let (problems, allNames) := dimensionsLoop allNames dims
      (.unknownEntity (.dimension dim.name) dim.entity :: problems, allNames)
    else
      let own := dimensionProblems defn datasetLookup dim ++
        if dim.name ∈ allNames then [.nameCollision (.dimension dim.name)] else []
      let (problems, allNames) := dimensionsLoop (dim.name :: allNames) dims
      (own ++ problems, allNames)

/-- The loop over the measures. -/
def measuresLoop : List Name → List Measure → List Problem × List Name
  | allNames, [] => ([], allNames)
  | allNames, meas :: meass =>
    let own := measureProblems defn datasetLookup meas ++
      if meas.name ∈ allNames then [.nameCollision (.measure meas.name)] else []
    let (problems, allNames) := measuresLoop (meas.name :: allNames) meass
    (own ++ problems, allNames)

/-- The synonyms that are names. -/
def synonymProblems (allNames : List Name) (owner : Owner) (name : Name) (synonyms : List String) :
    List Problem :=
  (synonyms.filter fun syn => syn ∈ allNames.map Name.text ∧ syn ≠ name.text).map
    (.synonymCollision owner)

/-- What is wrong with a join path. -/
def joinPathProblems (jp : JoinPath) : List Problem :=
  ([jp.fromEntity, jp.toEntity].filter fun e => (defn.entity? e).isNone).map
      (.unknownEntity (.joinPath jp.name)) ++
    if (defn.entity? jp.fromEntity).isSome ∧ (defn.entity? jp.toEntity).isSome then
      checkColumns defn datasetLookup (.joinPath jp.name) jp.fromEntity (jp.on.map Prod.fst) ++
        checkColumns defn datasetLookup (.joinPath jp.name) jp.toEntity (jp.on.map Prod.snd)
    else []

/-! ### The join graph -/

/-- `find`: the root of a name, halving the path to it. -/
def findRoot : Nat → List (Name × Name) → Name → List (Name × Name) × Name
  | 0, parent, x => (parent, x)
  | fuel + 1, parent, x =>
    match parent.lookup x with
    | none => (parent, x)
    | some p =>
      if p = x then (parent, x)
      else
        let grand := (parent.lookup p).getD p
        findRoot fuel ((x, grand) :: parent.filter (·.1 ≠ x)) grand

/-- The loop over the edges. -/
def edgesLoop : List (Name × Name) → List (Name × Name) → List Problem
  | _, [] => []
  | parent, (a, b) :: edges =>
    let (parent, ra) := findRoot (parent.length + 1) parent a
    let (parent, rb) := findRoot (parent.length + 1) parent b
    if ra = rb then .joinGraphCycle a b :: edgesLoop parent edges
    else edgesLoop ((ra, rb) :: parent.filter (·.1 ≠ ra)) edges

/-- An edge without direction. -/
def undirected (a b : Name) : Name × Name := if a.le b then (a, b) else (b, a)

/-- The edges of the join graph: one for each pair of entities. -/
def joinEdges : List (Name × Name) :=
  let known := defn.joinPaths.filter fun jp =>
    (defn.entity? jp.fromEntity).isSome ∧ (defn.entity? jp.toEntity).isSome
  (known.map fun jp => undirected jp.fromEntity jp.toEntity).dedup.insertionSort
    fun e f => e.1.le f.1 = true ∧ (e.1 = f.1 → e.2.le f.2 = true)

/-- `validate_definition`. -/
def validateDefinition : List Problem :=
  let entityNames :=
    (defn.entities.filter fun e => (schemaOf datasetLookup e).isSome).map Entity.name
  let (dimProblems, allNames) := dimensionsLoop defn datasetLookup entityNames defn.dimensions
  let (measProblems, allNames) := measuresLoop defn datasetLookup allNames defn.measures
  defn.entities.flatMap (entityProblems datasetLookup) ++ dimProblems ++ measProblems ++
    (defn.dimensions.flatMap fun d => synonymProblems allNames (.dimension d.name)
      d.name d.synonyms) ++
    (defn.measures.flatMap fun m => synonymProblems allNames (.measure m.name) m.name m.synonyms) ++
    defn.joinPaths.flatMap (joinPathProblems defn datasetLookup) ++
    edgesLoop [] (joinEdges defn)

/-- The definition passes validation. -/
def Validated : Prop := validateDefinition defn datasetLookup = []

/-! ### What validation ensures -/

variable {defn datasetLookup}

theorem dimensionsLoop_ok {allNames : List Name} {dims : List Dimension}
    (h : (dimensionsLoop defn datasetLookup allNames dims).1 = []) :
    (∀ n ∈ allNames, n ∈ (dimensionsLoop defn datasetLookup allNames dims).2) ∧
      ∀ d ∈ dims, d.name ∈ (dimensionsLoop defn datasetLookup allNames dims).2 := by
  induction dims generalizing allNames with
  | nil => exact ⟨fun n hn => hn, fun d hd => absurd hd (List.not_mem_nil)⟩
  | cons dim dims ih =>
    unfold dimensionsLoop at h ⊢
    split at h
    · cases h
    · next hentity =>
      rw [if_neg hentity]
      obtain ⟨hnames, hdims⟩ := ih (List.append_eq_nil_iff.mp h).2
      refine ⟨fun n hn => hnames n (List.mem_cons_of_mem _ hn), fun d hd => ?_⟩
      rcases List.mem_cons.mp hd with rfl | hd
      · exact hnames _ List.mem_cons_self
      · exact hdims d hd

theorem measuresLoop_ok {allNames : List Name} {meass : List Measure}
    (h : (measuresLoop defn datasetLookup allNames meass).1 = []) :
    ∀ m ∈ meass, m.name ∉ allNames := by
  induction meass generalizing allNames with
  | nil => exact fun m hm => absurd hm (List.not_mem_nil)
  | cons meas meass ih =>
    unfold measuresLoop at h
    obtain ⟨hown, hrest⟩ := List.append_eq_nil_iff.mp h
    intro m hm hmem
    rcases List.mem_cons.mp hm with rfl | hm
    · simp [hmem] at hown
    · exact ih hrest m hm (List.mem_cons_of_mem _ hmem)

theorem Validated.names_ne (h : Validated defn datasetLookup) {d : Dimension} {m : Measure}
    (hd : d ∈ defn.dimensions) (hm : m ∈ defn.measures) : m.name ≠ d.name := by
  simp only [Validated, validateDefinition, List.append_eq_nil_iff] at h
  obtain ⟨⟨⟨⟨⟨⟨-, hdims⟩, hmeas⟩, -⟩, -⟩, -⟩, -⟩ := h
  intro heq
  exact measuresLoop_ok hmeas m hm (heq ▸ (dimensionsLoop_ok hdims).2 d hd)

end Validate

/-! ## A shop

Orders and refunds belong to customers, so that a region is a dimension of both. -/

namespace Shop

def id : Name := ⟨"id", by decide⟩
def orders : Name := ⟨"orders", by decide⟩
def refunds : Name := ⟨"refunds", by decide⟩
def customers : Name := ⟨"customers", by decide⟩
def customerId : Name := ⟨"customer_id", by decide⟩
def amount : Name := ⟨"amount", by decide⟩
def region : Name := ⟨"region", by decide⟩
def placedOn : Name := ⟨"placed_on", by decide⟩
def revenue : Name := ⟨"revenue", by decide⟩
def refunded : Name := ⟨"refunded", by decide⟩
def opening : Name := ⟨"opening", by decide⟩
def net : Name := ⟨"net", by decide⟩

/-- An entity by name and table. -/
def entity (name : Name) (table : String) (h : isTable table = true) : Entity where
  name := name
  datasetURN := table
  table := table
  table_ok := h
  primaryKey := [id]
  datasetVersionPolicy := .latest

/-- A dimension by name. -/
def dimension (name entity : Name) (dimType : DimType) : Dimension where
  name := name
  entity := entity
  dimType := dimType
  source := .column name
  timeGrains := []
  grains_ok := fun _ => rfl
  synonyms := []
  deprecated := false
  successor := none

/-- A measure by name and kind. -/
def measure (name : Name) (kind : MeasureKind) : Measure where
  name := name
  kind := kind
  format := none
  synonyms := []
  deprecated := false
  successor := none

/-- An aggregate over the amounts of an entity. -/
def ofAmounts (entity : Name) (agg : AggName) : MeasureKind :=
  .base ⟨entity, agg, some (.col amount), none, fun _ => rfl⟩

/-- The path to the customers. -/
def customersOf (source : Name) : JoinPath where
  name := source
  fromEntity := source
  toEntity := customers
  joinType := .left
  on := [(customerId, id)]
  on_ne_nil := List.cons_ne_nil _ _
  cardinality := .manyToOne

/-- The definition of the shop. -/
def defn : Definition where
  entities := [entity orders "orders" (by decide), entity refunds "refunds" (by decide),
    entity customers "customers" (by decide)]
  dimensions := [dimension region customers .categorical, dimension placedOn orders .time]
  measures := [measure revenue (ofAmounts orders .sum), measure refunded (ofAmounts refunds .sum),
    measure opening (ofAmounts orders .first),
    measure net (.derived ⟨.bin .sub (.col revenue) (.col refunded), rfl⟩)]
  joinPaths := [customersOf orders, customersOf refunds]
  entities_nodup := by decide
  dimensions_nodup := by decide
  measures_nodup := by decide
  joinPaths_nodup := by decide

/-- Its tables. -/
def datasets (table : String) : Option Dataset :=
  if table = "orders" then
    some ⟨[("id", "bigint"), ("customer_id", "bigint"), ("amount", "bigint"),
      ("placed_on", "date")]⟩
  else if table = "refunds" then
    some ⟨[("id", "bigint"), ("customer_id", "bigint"), ("amount", "bigint")]⟩
  else if table = "customers" then some ⟨[("id", "bigint"), ("region", "bigint")]⟩
  else none

theorem validated : Validated defn datasets := rfl

end Shop

end Windrose.Semantic

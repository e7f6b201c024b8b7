/-
  Query/Guard.lean --- the tenant guard against the scopes of SQL.

  Source: services/query-service/internal/sqlsafe/guard.go (GuardConfig,
  DefaultInfoSchemaTables, Guard).

  `Node.reads` is the meaning the guard is compared with: the relations that a
  statement reads, each reference resolved by SQL's own scopes.  A WITH item is
  visible in the query that declares it, in its subqueries and in the later items
  of the same clause; under RECURSIVE in all items of the clause.  A qualified
  name never denotes a WITH item.
-/
import Windrose.Foundation.Lexer
import Windrose.Query.Classify

set_option autoImplicit false

namespace Windrose.Query

open Windrose.Foundation

/-- `GuardConfig`; the maps are sets. -/
structure GuardConfig where
  allowedNamespaces : List Bytes
  infoSchemaTables : List Bytes

/-- `DefaultInfoSchemaTables`. -/
def defaultInfoSchemaTables : List Bytes := [bytes "tables", bytes "columns", bytes "views"]

/-- The key of a table among the allowed namespaces. -/
def namespaceKey (catalog schema : Bytes) : Bytes :=
  if catalog ≠ [] then catalog ++ bytes "." ++ schema else schema

/-- `Guard` on one table. -/
def guardTable (cfg : GuardConfig) (cteNames : List Bytes) (t : TableRef) : Except Error Unit :=
  if t.schema = [] ∧ t.catalog = [] then
    if t.name ∈ cteNames then .ok ()
    else .error (eStatementNotAllowed [.text (bytes "unqualified table reference " ++ t.name ++
      bytes ": only resolved \x7b\x7bdataset(...)\x7d\x7d references are allowed")])
  else if t.schema = bytes "information_schema" then
    if t.name ∈ cfg.infoSchemaTables then .ok ()
    else .error (eStatementNotAllowed
      [.text (bytes "information_schema." ++ t.name ++ bytes " is not in the allowed subset")])
  else if t.schema = bytes "pg_catalog" ∨ t.schema = bytes "system" ∨
      (bytes "pg_").isPrefixOf t.schema then
    .error (eStatementNotAllowed
      [.text (bytes "system catalog access is not allowed: " ++ t.text)])
  else if namespaceKey t.catalog t.schema ∈ cfg.allowedNamespaces then .ok ()
  else .error (eStatementNotAllowed
    [.text (bytes "table " ++ t.text ++ bytes " is outside the tenant's namespaces")])

/-- `Guard`. -/
def guard (cls : Classification) (cfg : GuardConfig) : Except Error Unit :=
  cls.tables.forM (guardTable cfg cls.cteNames)

/-! ## The relations a statement reads -/

/-- A relation that a statement reads. -/
inductive Relation where
  | cte (name : Bytes)
  | table (catalog schema name : Bytes)
  | function
  deriving DecidableEq

namespace Node

/-- The name a WITH item declares. -/
def declared : Node → Option Bytes
  | .commonTableExpr name _ => some name
  | _ => none

/-- The relation a table reference denotes in a scope. -/
def resolve (scope : List Bytes) (catalog schema name : Bytes) : Relation :=
  if schema = [] ∧ catalog = [] ∧ name ∈ scope then .cte name else .table catalog schema name

mutual

/-- The relations that a tree reads in the scope of the given WITH items. -/
def reads (scope : List Bytes) : Node → List Relation
  | .rangeVar c s r fs => resolve scope c s r :: readsAll scope fs
  | .rangeFunction fs => .function :: readsAll scope fs
  | .commonTableExpr _ fs => readsAll scope fs
  | .selectStmt recursive ctes limit fs =>
    let inner := ctes.filterMap declared ++ scope
    (if recursive then readsAll inner ctes else readsWith scope ctes) ++
      readsField inner limit ++ readsAll inner fs
  | .aExpr l r fs => readsField scope l ++ readsField scope r ++ readsAll scope fs
  | .columnRef fs => readsAll scope fs
  | .paramRef _ => []
  | .string _ => []
  | .message _ fs => readsAll scope fs

def readsAll (scope : List Bytes) : List Node → List Relation
  | [] => []
  | n :: ns => reads scope n ++ readsAll scope ns

/-- The items of a WITH clause: each sees the items before it. -/
def readsWith (scope : List Bytes) : List Node → List Relation
  | [] => []
  | n :: ns => reads scope n ++ readsWith (n.declared.toList ++ scope) ns

def readsField (scope : List Bytes) : Option Node → List Relation
  | none => []
  | some n => reads scope n

end

end Node

/-- What a tenant may read: a WITH item in scope, a table of the allowed part of
`information_schema`, or a table of an allowed namespace. -/
def Permitted (lower : Lower) (cfg : GuardConfig) : Relation → Prop
  | .cte _ => True
  | .table catalog schema name =>
    (schema ≠ [] ∨ catalog ≠ []) ∧
      ((lower.toLower schema = bytes "information_schema" ∧
          lower.toLower name ∈ cfg.infoSchemaTables) ∨
        namespaceKey (lower.toLower catalog) (lower.toLower schema) ∈ cfg.allowedNamespaces)
  | .function => False

/-! ## Every table read is a table of the classification -/

namespace Node

theorem mem_resolve {scope : List Bytes} {c s r catalog schema name : Bytes}
    (h : Relation.table catalog schema name = resolve scope c s r) :
    catalog = c ∧ schema = s ∧ name = r := by
  unfold resolve at h
  split at h
  · cases h
  · cases h
    exact ⟨rfl, rfl, rfl⟩

/-- A range variable of the name is among the nodes. -/
def Ranged (catalog schema name : Bytes) (ns : List Node) : Prop :=
  ∃ fs, .rangeVar catalog schema name fs ∈ ns

variable {catalog schema name : Bytes}

theorem ranged_append {ns ns' : List Node} : Ranged catalog schema name (ns ++ ns') ↔
    Ranged catalog schema name ns ∨ Ranged catalog schema name ns' := by
  simp only [Ranged, List.mem_append, exists_or]

theorem Ranged.cons {ns : List Node} (h : Ranged catalog schema name ns) (n : Node) :
    Ranged catalog schema name (n :: ns) := Exists.imp (fun _ => List.mem_cons_of_mem n) h

mutual

theorem reads_mem_walk (scope : List Bytes) : ∀ n : Node,
    .table catalog schema name ∈ n.reads scope → Ranged catalog schema name n.walk
  | .rangeVar c s r fs, h => by
    rw [reads, List.mem_cons] at h
    rcases h with h | h
    · obtain ⟨rfl, rfl, rfl⟩ := mem_resolve h
      exact ⟨fs, List.mem_cons_self⟩
    · exact (readsAll_mem_walk scope fs h).cons _
  | .rangeFunction fs, h => by
    rw [reads, List.mem_cons] at h
    exact (readsAll_mem_walk scope fs (h.resolve_left (nomatch ·))).cons _
  | .commonTableExpr _ fs, h => (readsAll_mem_walk scope fs h).cons _
  | .selectStmt recursive ctes limit fs, h => by
    simp only [reads, List.mem_append] at h
    refine Ranged.cons ?_ _
    rw [ranged_append, ranged_append]
    rcases h with (h | h) | h
    · -- the items of the WITH clause: the two scopings read the same items
      split at h
      · exact .inl (.inl (readsAll_mem_walk _ ctes h))
      · exact .inl (.inl (readsWith_mem_walk scope ctes h))
    · exact .inl (.inr (readsField_mem_walk _ limit h))
    · exact .inr (readsAll_mem_walk _ fs h)
  | .aExpr l r fs, h => by
    simp only [reads, List.mem_append] at h
    refine Ranged.cons ?_ _
    rw [ranged_append, ranged_append]
    rcases h with (h | h) | h
    · exact .inl (.inl (readsField_mem_walk scope l h))
    · exact .inl (.inr (readsField_mem_walk scope r h))
    · exact .inr (readsAll_mem_walk scope fs h)
  | .columnRef fs, h => (readsAll_mem_walk scope fs h).cons _
  | .paramRef _, h => by simp [reads] at h
  | .string _, h => by simp [reads] at h
  | .message _ fs, h => (readsAll_mem_walk scope fs h).cons _

theorem readsAll_mem_walk (scope : List Bytes) : ∀ ns : List Node,
    .table catalog schema name ∈ readsAll scope ns → Ranged catalog schema name (walkAll ns)
  | [], h => by simp [readsAll] at h
  | n :: ns, h => by
    rw [readsAll, List.mem_append] at h
    exact ranged_append.mpr (h.imp (reads_mem_walk scope n) (readsAll_mem_walk scope ns))

theorem readsWith_mem_walk (scope : List Bytes) : ∀ ns : List Node,
    .table catalog schema name ∈ readsWith scope ns → Ranged catalog schema name (walkAll ns)
  | [], h => by simp [readsWith] at h
  | n :: ns, h => by
    rw [readsWith, List.mem_append] at h
    exact ranged_append.mpr (h.imp (reads_mem_walk scope n) (readsWith_mem_walk _ ns))

theorem readsField_mem_walk (scope : List Bytes) : ∀ n : Option Node,
    .table catalog schema name ∈ readsField scope n → Ranged catalog schema name (walkField n)
  | none, h => by simp [readsField] at h
  | some n, h => reads_mem_walk scope n h

end

end Node

/-! ## What the guard guarantees -/

theorem guardTable_permitted {lower : Lower} {cfg : GuardConfig} {ctes : List Bytes}
    {catalog schema name : Bytes} (h : guardTable cfg ctes
      ⟨lower.toLower catalog, lower.toLower schema, lower.toLower name⟩ = .ok ())
    (hq : schema ≠ [] ∨ catalog ≠ []) : Permitted lower cfg (.table catalog schema name) := by
  refine ⟨hq, ?_⟩
  have hq' : ¬ (lower.toLower schema = [] ∧ lower.toLower catalog = []) := by
    rw [lower.eq_nil, lower.eq_nil]
    exact fun hn => hq.elim (· hn.1) (· hn.2)
  unfold guardTable at h
  rw [if_neg hq'] at h
  split at h
  · -- information_schema
    rename_i hs
    split at h
    · rename_i ht
      exact .inl ⟨hs, ht⟩
    · cases h
  · split at h
    · cases h
    · split at h
      · rename_i hk
        exact .inr hk
      · cases h

/-- When the guard accepts a statement, every relation it reads is permitted if and
only if it reads no table function and no unqualified table: every reference
without a schema stands in the scope of a WITH item of its name. -/
theorem guard_sound_iff (lower : Lower) (pg : PgQuery) (sql : Bytes) (stmt : Node)
    (cls : Classification) (cfg : GuardConfig) (hp : pg.parse sql = .ok [stmt])
    (hc : classify lower pg sql = .ok cls) (hg : guard cls cfg = .ok ()) :
    (∀ r ∈ stmt.reads [], Permitted lower cfg r) ↔
      .function ∉ stmt.reads [] ∧ ∀ name, .table [] [] name ∉ stmt.reads [] := by
  constructor
  · intro h
    refine ⟨fun hf => h _ hf, fun name hn => ?_⟩
    have hq := (h _ hn).1
    exact hq.elim (· rfl) (· rfl)
  · rintro ⟨hf, hu⟩ r hr
    cases r with
    | cte name => trivial
    | function => exact hf hr
    | table catalog schema name =>
        have hq : schema ≠ [] ∨ catalog ≠ [] := by
          rw [← not_and_or]
          rintro ⟨rfl, rfl⟩
          exact hu name hr
        -- the reference is one of the tables the guard has gone through
        obtain ⟨fs, hw⟩ := Node.reads_mem_walk [] stmt hr
        rw [classify, hp] at hc
        obtain ⟨rec, ctes, limit, fields, hs, ht, _⟩ := classifyTree_ok hc
        obtain rfl : stmt = _ := List.singleton_inj.mp hs
        apply guardTable_permitted _ hq
        · exact cls.cteNames
        · apply forM_ok hg
          rw [ht]
          exact List.mem_filterMap.mpr ⟨_, hw, rfl⟩

/-! ## Two statements that the guard accepts -/

/-- The configuration of the guard's tests. -/
def guardSample : GuardConfig where
  allowedNamespaces := [bytes "bronze_t42", bytes "silver_t42"]
  infoSchemaTables := defaultInfoSchemaTables

/-- The target list `*`. -/
def starTarget : Node := .message (bytes "ResTarget") [.columnRef [.message (bytes "A_Star") []]]

/-- `WITH x AS (SELECT * FROM bronze_t42.orders) SELECT * FROM x`. -/
def cteSelect : Node :=
  .selectStmt false
    [.commonTableExpr (bytes "x")
      [.selectStmt false [] none [starTarget,
        .rangeVar [] (bytes "bronze_t42") (bytes "orders") []]]]
    none [starTarget, .rangeVar [] [] (bytes "x") []]

/-- `SELECT * FROM (WITH x AS (SELECT 1) SELECT * FROM x) s, x`: the last `x` is out of
the scope of the WITH item. -/
def escapingSelect : Node :=
  .selectStmt false [] none
    [starTarget,
      .message (bytes "RangeSubselect")
        [.selectStmt false
          [.commonTableExpr (bytes "x")
            [.selectStmt false [] none
              [.message (bytes "ResTarget") [.message (bytes "A_Const")
                [.message (bytes "Integer") []]]]]]
          none [starTarget, .rangeVar [] [] (bytes "x") []],
        .message (bytes "Alias") []],
      .rangeVar [] [] (bytes "x") []]

/-- A parser that knows the two statements. -/
def parserSample : PgQuery where
  parse sql :=
    if sql = bytes "WITH x AS (SELECT * FROM bronze_t42.orders) SELECT * FROM x" then
      .ok [cteSelect]
    else if sql = bytes "SELECT * FROM (WITH x AS (SELECT 1) SELECT * FROM x) s, x" then
      .ok [escapingSelect]
    else .error (bytes "syntax error")
  fingerprint _ := none

/-- What the classification collects from `cteSelect`. -/
def cteClassification : Classification where
  fingerprint := []
  tables := [⟨[], bytes "bronze_t42", bytes "orders"⟩, ⟨[], [], bytes "x"⟩]
  cteNames := [bytes "x"]
  hasOuterLimit := false
  paramColumns := []

theorem guard_sound_cte : guard cteClassification guardSample = .ok () ∧
      ∀ r ∈ cteSelect.reads [], Permitted asciiLower guardSample r := by
  refine ⟨by decide, ?_⟩
  apply (guard_sound_iff asciiLower parserSample
    (bytes "WITH x AS (SELECT * FROM bronze_t42.orders) SELECT * FROM x") cteSelect
    cteClassification guardSample (by rfl) (by decide) (by decide)).mpr
  have hr : cteSelect.reads [] =
      [.table [] (bytes "bronze_t42") (bytes "orders"), .cte (bytes "x")] := by decide
  rw [hr]
  refine ⟨by decide, fun name hn => ?_⟩
  rcases List.mem_cons.mp hn with hn | hn
  · have hs : bytes "bronze_t42" ≠ [] := by decide
    exact hs (Relation.table.inj hn).2.1.symm
  · simp at hn

/-- The guard accepts a reference that no WITH item in scope declares. -/
theorem guard_accepts_out_of_scope : ∃ cls, classify asciiLower parserSample
        (bytes "SELECT * FROM (WITH x AS (SELECT 1) SELECT * FROM x) s, x") = .ok cls ∧
      guard cls guardSample = .ok () ∧
      ¬ ∀ r ∈ escapingSelect.reads [], Permitted asciiLower guardSample r := by
  refine ⟨⟨[], [⟨[], [], bytes "x"⟩, ⟨[], [], bytes "x"⟩], [bytes "x"], false, []⟩,
    by decide, by decide, fun h => ?_⟩
  have hm : .table [] [] (bytes "x") ∈ escapingSelect.reads [] := by decide
  exact (h _ hm).1.elim (· rfl) (· rfl)

end Windrose.Query

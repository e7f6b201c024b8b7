/-
  Query/Classify.lean --- classification on the syntax tree.

  Source: services/query-service/internal/sqlsafe/classify.go (TableRef,
  Classification, Classify, nodeTypeName, walk, columnParamPair, columnName).

  The PostgreSQL parser is not part of the repository: `PgQuery` holds its two
  entry points.  A `Node` is a protobuf message of its tree with the fields that
  `Classify` reads; all other messages are `message`, with their type name.  The
  wrapper messages `ParseResult`, `RawStmt` and `Node`, which `walk` also visits,
  have no effect there and are left out.  The `WithClause` of a SELECT is given
  by its RECURSIVE flag and its items.

  `walk` visits the messages of a tree depth first and stops at the first that
  is refused; protobuf fixes no order among the fields of a message, and the
  model takes the order of the constructor.  `strings.ToLower` enters as any
  function that sends only the empty text to the empty text.
-/
import Windrose.Query.Domain

set_option autoImplicit false

namespace Windrose.Query

open Windrose.Foundation

/-- A case folding of texts. -/
structure Lower where
  toLower : Bytes → Bytes
  eq_nil : ∀ b, toLower b = [] ↔ b = []

/-- `ToLower` on ASCII texts. -/
def asciiLower : Lower where
  toLower b := b.map fun c => if 65 ≤ c ∧ c ≤ 90 then c + 32 else c
  eq_nil _ := List.map_eq_nil_iff

/-- A message of the syntax tree. -/
inductive Node where
  | rangeVar (catalogname schemaname relname : Bytes) (fields : List Node)
  | rangeFunction (fields : List Node)
  | commonTableExpr (ctename : Bytes) (fields : List Node)
  | selectStmt (recursive : Bool) (ctes : List Node) (limitCount : Option Node)
      (fields : List Node)
  | aExpr (lexpr rexpr : Option Node) (fields : List Node)
  | columnRef (fields : List Node)
  | paramRef (number : Int)
  | string (sval : Bytes)
  | message (name : Bytes) (fields : List Node)

/-- The parser: the statements of a text, or an error text; and the fingerprint,
unless it fails. -/
structure PgQuery where
  parse : Bytes → Except Bytes (List Node)
  fingerprint : Bytes → Option Bytes

namespace Node

/-- The type name of a message. -/
def typeName : Node → Bytes
  | .rangeVar .. => bytes "RangeVar"
  | .rangeFunction .. => bytes "RangeFunction"
  | .commonTableExpr .. => bytes "CommonTableExpr"
  | .selectStmt .. => bytes "SelectStmt"
  | .aExpr .. => bytes "A_Expr"
  | .columnRef .. => bytes "ColumnRef"
  | .paramRef .. => bytes "ParamRef"
  | .string .. => bytes "String"
  | .message name _ => name

mutual

/-- `walk`: the messages of a tree, depth first. -/
def walk : Node → List Node
  | .rangeVar c s r fs => .rangeVar c s r fs :: walkAll fs
  | .rangeFunction fs => .rangeFunction fs :: walkAll fs
  | .commonTableExpr n fs => .commonTableExpr n fs :: walkAll fs
  | .selectStmt rec ctes limit fs =>
    .selectStmt rec ctes limit fs :: (walkAll ctes ++ walkField limit ++ walkAll fs)
  | .aExpr l r fs => .aExpr l r fs :: (walkField l ++ walkField r ++ walkAll fs)
  | .columnRef fs => .columnRef fs :: walkAll fs
  | .paramRef n => [.paramRef n]
  | .string s => [.string s]
  | .message name fs => .message name fs :: walkAll fs

def walkAll : List Node → List Node
  | [] => []
  | n :: ns => walk n ++ walkAll ns

def walkField : Option Node → List Node
  | none => []
  | some n => walk n

end

end Node

/-- A table that a statement names. -/
structure TableRef where
  catalog : Bytes
  schema : Bytes
  name : Bytes
  deriving DecidableEq

/-- `TableRef.String`. -/
def TableRef.text (t : TableRef) : Bytes :=
  (bytes ".").intercalate
    ((if t.catalog ≠ [] then [t.catalog] else []) ++ (if t.schema ≠ [] then [t.schema] else []) ++
      [t.name])

/-- `Classification`.  The maps are lists: the last entry of a parameter counts. -/
structure Classification where
  fingerprint : Bytes
  tables : List TableRef
  cteNames : List Bytes
  hasOuterLimit : Bool
  paramColumns : List (Int × Bytes)
  deriving DecidableEq

/-- `allowedStmts`. -/
def allowedStmts : List Bytes := [bytes "RawStmt", bytes "SelectStmt"]

/-- `stmtFriendly`. -/
def stmtFriendly : List (Bytes × Bytes) := [
  (bytes "InsertStmt", bytes "INSERT"), (bytes "UpdateStmt", bytes "UPDATE"),
  (bytes "DeleteStmt", bytes "DELETE"), (bytes "MergeStmt", bytes "MERGE"),
  (bytes "CreateStmt", bytes "CREATE"), (bytes "DropStmt", bytes "DROP"),
  (bytes "AlterTableStmt", bytes "ALTER"), (bytes "GrantStmt", bytes "GRANT"),
  (bytes "CallStmt", bytes "CALL"), (bytes "VariableSetStmt", bytes "SET"),
  (bytes "ExplainStmt", bytes "EXPLAIN"), (bytes "TruncateStmt", bytes "TRUNCATE"),
  (bytes "CopyStmt", bytes "COPY"),
  (bytes "CreateTableAsStmt", bytes "CREATE TABLE AS / SELECT INTO"),
  (bytes "TransactionStmt", bytes "transaction control")]

/-- The name of a statement kind in an error. -/
def friendly (name : Bytes) : Bytes := (stmtFriendly.lookup name).getD name

/-- Why `Classify` refuses a message, if it does. -/
def Node.refusal (n : Node) : Option Error :=
  if (bytes "Stmt").isSuffixOf n.typeName ∧ n.typeName ∉ allowedStmts then
    some (eStatementNotAllowed
      [.text (bytes "statement kind not allowed: " ++ friendly n.typeName)])
  else if n.typeName = bytes "IntoClause" then
    some (eStatementNotAllowed [.text (bytes "SELECT INTO is not allowed")])
  else if n.typeName = bytes "LockingClause" then
    some (eStatementNotAllowed
      [.text (bytes "locking clauses (FOR UPDATE/SHARE) are not allowed")])
  else none

section Classify

variable (lower : Lower)

/-- `columnName`: the last field of a column reference, if it is a name. -/
def columnName : Option Node → Bytes
  | some (.columnRef fields) =>
    match fields.getLast? with
    | some (.string sval) => lower.toLower sval
    | _ => []
  | _ => []

def getParamRef : Option Node → Option Int
  | some (.paramRef number) => some number
  | _ => none

/-- `columnParamPair`: a column compared with a parameter, in either order. -/
def columnParamPair (lexpr rexpr : Option Node) : Option (Int × Bytes) :=
  match columnName lower lexpr, getParamRef rexpr with
  | c :: col, some n => some (n, c :: col)
  | _, _ =>
    match columnName lower rexpr, getParamRef lexpr with
    | c :: col, some n => some (n, c :: col)
    | _, _ => none

/-- The table a message refers to. -/
def Node.table? : Node → Option TableRef
  | .rangeVar c s r _ => some ⟨lower.toLower c, lower.toLower s, lower.toLower r⟩
  | _ => none

/-- The common table expression a message declares. -/
def Node.cte? : Node → Option Bytes
  | .commonTableExpr n _ => some (lower.toLower n)
  | _ => none

/-- The parameter a message compares with a column. -/
def Node.paramColumn? : Node → Option (Int × Bytes)
  | .aExpr l r _ => columnParamPair lower l r
  | _ => none

/-- `Classify` on the parsed statements. -/
def classifyTree (fingerprint : Bytes) : List Node → Except Error Classification
  | [] => .error (eValidation (bytes "empty statement"))
  | [top] =>
    match top with
    | .selectStmt rec ctes limit fields =>
      match (Node.walk (.selectStmt rec ctes limit fields)).findSome? Node.refusal with
      | some e => .error e
      | none =>
        let messages := Node.walk (.selectStmt rec ctes limit fields)
        .ok {
          fingerprint := fingerprint
          tables := messages.filterMap (Node.table? lower)
          cteNames := messages.filterMap (Node.cte? lower)
          hasOuterLimit := limit.isSome
          paramColumns := messages.filterMap (Node.paramColumn? lower) }
    | top =>
      .error (eStatementNotAllowed
        [.text (bytes "only SELECT statements are allowed; got " ++ friendly top.typeName)])
  | stmts =>
    .error (eStatementNotAllowed [.text (bytes "multi-statement batches are not allowed (" ++
      itoa stmts.length ++ bytes " statements found)")])

/-- `firstLine`. -/
def firstLine (s : Bytes) : Bytes := s.takeWhile (· != 10)

/-- `Classify`. -/
def classify (pg : PgQuery) (sql : Bytes) : Except Error Classification :=
  match pg.parse sql with
  | .error e => .error (eValidation (bytes "SQL parse error: " ++ firstLine e))
  | .ok stmts => classifyTree lower ((pg.fingerprint sql).getD []) stmts

end Classify

theorem classifyTree_ok {lower : Lower} {fp : Bytes} {stmts : List Node} {cls : Classification}
    (h : classifyTree lower fp stmts = .ok cls) :
    ∃ rec ctes limit fields, stmts = [.selectStmt rec ctes limit fields] ∧
      cls.tables = (Node.walk (.selectStmt rec ctes limit fields)).filterMap
        (Node.table? lower) ∧
      cls.hasOuterLimit = limit.isSome := by
  cases stmts with
  | nil => simp [classifyTree] at h
  | cons top rest =>
    cases rest with
    | cons second rest => simp [classifyTree] at h
    | nil =>
      cases top with
      | selectStmt rec ctes limit fields =>
        simp only [classifyTree] at h
        split at h
        · cases h
        · cases h
          exact ⟨rec, ctes, limit, fields, rfl, rfl, rfl⟩
      | _ => simp [classifyTree] at h

end Windrose.Query

/-
  Query/Domain.lean --- errors and values of the query service.

  Source: services/query-service/internal/domain/errors.go, variables.go
  (BoundValue) and types.go (DatasetRef).

  A message is a list of fragments, since `%q` renders a field by Go's quoting
  rules, which no other function of the service reads back.  The engine's values
  (`any`) are a type parameter `V`.
-/
import Windrose.Foundation.Bytes

set_option autoImplicit false

namespace Windrose.Query

open Windrose.Foundation

/-- The stable error codes that the modelled functions use. -/
inductive Code where
  | validationFailed
  | variableInvalid
  | costCeilingExceeded
  | statementNotAllowed
  | datasetNotFound
  | useAsync
  | rateLimited
  | engineUnavailable
  | permissionDenied
  | internal
  deriving DecidableEq

/-- A fragment of a message: a text, or a field rendered with `%q`. -/
inductive Frag where
  | text (b : Bytes)
  | quoted (b : Bytes)
  deriving DecidableEq

/-- A problem with a variable. -/
structure VariableProblem where
  name : Bytes
  problem : Bytes
  deriving DecidableEq

/-- The `Details` of an error. -/
inductive Details where
  | none
  | fields (entries : List (Bytes × Bytes))
  | problems (ps : List VariableProblem)
  deriving DecidableEq

/-- An error of the service. -/
structure Error where
  code : Code
  http : Nat
  message : List Frag
  details : Details
  deriving DecidableEq

/-- `EValidation`. -/
def eValidation (msg : Bytes) : Error := ⟨.validationFailed, 422, [.text msg], .none⟩

/-- `EValidationDetails`. -/
def eValidationDetails (msg : Bytes) (details : List (Bytes × Bytes)) : Error :=
  ⟨.validationFailed, 422, [.text msg], .fields details⟩

/-- `EVariableInvalid`. -/
def eVariableInvalid (problems : List VariableProblem) : Error :=
  ⟨.variableInvalid, 422, [.text (bytes "one or more variables failed validation")],
    .problems problems⟩

/-- `EStatementNotAllowed`. -/
def eStatementNotAllowed (msg : List Frag) : Error := ⟨.statementNotAllowed, 403, msg, .none⟩

/-- `EDatasetNotFound`. -/
def eDatasetNotFound (msg : List Frag) : Error := ⟨.datasetNotFound, 422, msg, .none⟩

/-- `EUseAsync`. -/
def eUseAsync (msg : Bytes) : Error := ⟨.useAsync, 409, [.text msg], .none⟩

/-- `ERateLimited`. -/
def eRateLimited (msg : Bytes) : Error := ⟨.rateLimited, 429, [.text msg], .none⟩

/-- `EPermissionDenied`. -/
def ePermissionDenied (msg : Bytes) : Error := ⟨.permissionDenied, 403, [.text msg], .none⟩

/-- `BoundValue`, as far as the rewriter reads it. -/
structure BoundValue (V : Type) where
  isList : Bool
  value : V
  list : List V
  deriving DecidableEq

/-- `DatasetRef`: version 0 is the latest. -/
structure DatasetRef where
  name : Bytes
  version : Nat
  deriving DecidableEq

end Windrose.Query

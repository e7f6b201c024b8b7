/-
  Gateway/Domain.lean --- the exceptions and the virtual keys of the AI gateway.

  Source: services/ai-gateway/app/domain/errors.py (the classes of AppError), ports.py
  (LedgerUnavailable, ProviderError) and entities.py (VirtualKey).

  What the code's handlers tell apart: an `AppError` by its code, the two exceptions of
  the ports, a timeout, any other `Exception`, and the exceptions that `except Exception`
  does not catch (a cancelled task, a closed generator).
-/
import Windrose.Foundation.Bytes

set_option autoImplicit false

namespace Windrose.Gateway

open Windrose.Foundation

/-- `AppError.code`. -/
inductive ErrorCode where
  | internal
  | unauthenticated
  | keyInvalid
  | permissionDenied
  | ladderCap
  | spendFrozen
  | notFound
  | conflict
  | validationFailed
  | budgetExhausted
  | guardrailBlocked
  | rateLimited
  | outputSchemaInvalid
  | upstreamUnavailable
  | dependencyUnavailable
  deriving DecidableEq

/-- The exceptions, as far as a handler tells them apart. -/
inductive Exn where
  /-- `AppError` -/
  | app (code : ErrorCode)
  /-- `LedgerUnavailable` -/
  | ledgerUnavailable
  /-- `ProviderError` -/
  | provider
  /-- `TimeoutError` -/
  | timeout
  /-- any other `Exception` -/
  | exception
  /-- `CancelledError` and `GeneratorExit` -/
  | baseException
  deriving DecidableEq

namespace Exn

/-- `except Exception` catches it. -/
def isException : Exn → Bool
  | baseException => false
  | _ => true

end Exn

/-- `VirtualKey.status`. -/
inductive KeyStatus where
  | active
  | revoked
  deriving DecidableEq

/-- `VirtualKey`; times are in microseconds. -/
structure VirtualKey where
  id : Bytes
  tenantID : Bytes
  keyHash : Bytes
  principalType : Bytes
  principalID : Bytes
  allowedRequestClasses : List Bytes
  maxRung : Int
  expiresAt : Option Int
  status : KeyStatus
  createdAt : Int
  updatedAt : Int
  deriving DecidableEq

end Windrose.Gateway

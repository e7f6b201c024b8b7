/-
  Gateway/Chat.lean --- what a chat request reads, awaits and writes.

  Source: services/ai-gateway/app/domain/entities.py (ProviderDeployment, Rung,
  ModelLadder, Budget, GoverningWindow, Reservation), ports.py (ProviderRequest,
  ProviderResult), guardrails.py, budgets.py (Preflight) and pipeline.py.

  `ChatCmd` lists what a request awaits; every operation may answer anything, or raise.
  A provider's stream is one answer: the chunks it will send and how it will end.  The
  calls of a provider also name the alias of the rung they are made for, and a stream
  has the provider's own count of its tokens; no code reads these two.

  The generator that a streaming request returns is a program of its own.  `start` asks
  whether it is ever advanced, and `yield` hands a chunk to the client; a generator that
  is closed raises there.
-/
import Windrose.Foundation.Json
import Windrose.Foundation.Trace
import Windrose.Gateway.Domain

set_option autoImplicit false

namespace Windrose.Gateway

open Windrose.Foundation

/-! ## JSON values -/

/-- The fields of a dictionary. -/
abbrev Fields : Type := List (String × Json)

/-- `d.get(name)`. -/
def Fields.get (d : Fields) (name : String) : Json := (List.lookup name d).getD .null

/-! ## Entities -/

/-- The status of a deployment. -/
inductive DeploymentStatus where
  | active
  | draining
  | disabled
  deriving DecidableEq

/-- `modelFamily` is the alias that the deployment serves. -/
structure ProviderDeployment where
  id : Bytes
  provider : String
  modelFamily : String
  deploymentName : String
  cloud : String
  priority : Int
  status : DeploymentStatus
  deleted : Bool
  deriving DecidableEq

/-- A rung of a ladder. -/
structure Rung where
  modelAlias : String
  maxTokens : Int
  temperatureDefault : Number
  deriving DecidableEq

/-- The models of a request class. -/
structure ModelLadder where
  requestClass : String
  rungs : List Rung
  maxRung : Option Int

/-- A row of the budgets. -/
structure Budget where
  id : Bytes
  tenantID : Bytes
  scopeType : String
  scopeRef : String
  window : String
  limitCents : Int
  degradePct : Int
  deriving DecidableEq

/-- The window of a budget now. -/
structure GoverningWindow where
  budget : Budget
  windowStart : Bytes
  ledgerKey : Bytes
  deriving DecidableEq

/-- A reservation; the ids that a request draws are numbered, as no two are equal. -/
structure Reservation where
  governing : GoverningWindow
  reservationID : Nat
  amountCents : Int
  deriving DecidableEq

/-- What a preflight leaves. -/
structure Preflight where
  reservations : List Reservation
  degrading : Bool
  estimateCents : Int
  deriving DecidableEq

/-- `GuardrailPolicy`: the fields of its document, with their defaults. -/
structure GuardrailPolicy where
  version : Int
  schemaValidation : Bool
  injectionMode : String
  blockThreshold : Number
  flagThreshold : Number
  piiMode : String
  deredactResponse : Bool

/-- A finding of a guardrail. -/
structure GuardrailEvent where
  kind : String
  mode : String
  action : String
  policyVersion : Int
  deriving DecidableEq

/-- What the two passes of `inbound` find. -/
structure Scan where
  redacted : List Fields
  redactionMap : List (String × String)
  piiKinds : List String
  score : Number

/-- What a provider is asked. -/
structure ProviderRequest where
  model : String
  messages : List Fields
  maxTokens : Int
  temperature : Number
  stream : Bool
  responseFormat : Json
  tools : Json

/-- The tokens of a call. -/
structure Usage where
  inputTokens : Int
  outputTokens : Int
  deriving DecidableEq

/-- What a provider answers. -/
structure ProviderResult where
  content : String
  usage : Usage
  finishReason : String
  deriving DecidableEq

/-- A chunk of a provider's stream. -/
inductive Chunk where
  | delta (text : String)
  | usage (u : Usage)
  deriving DecidableEq

/-- A provider's stream: its chunks, how it ends, and what it returned as the provider
counts it. -/
structure ProviderStream where
  chunks : List Chunk
  failure : Option Exn
  counted : Usage
  deriving DecidableEq

/-- A chunk of the gateway's stream. -/
inductive Sse where
  | delta (text : String)
  | usage (u : Usage)
  | error (code : String)
  | finished
  deriving DecidableEq

/-- The body of a chat completion. -/
structure ChatResponse where
  id : Bytes
  model : String
  content : String
  finishReason : String
  usage : Usage
  deriving DecidableEq

/-- `RequestLog` and the payload of `ai.token_usage.v1`. -/
structure UsageRow where
  status : String
  rung : Int
  modelAlias : String
  deployment : Option ProviderDeployment
  usage : Usage
  costCents : Int
  cached : Bool
  flags : List String
  degraded : Bool
  deriving DecidableEq

/-! ## Operations -/

/-- What a chat request awaits. -/
inductive ChatCmd where
  /-- `spend_guard.check` -/
  | checkSpend
  | checkRpmTpm (tokens : Nat)
  | acquireStream
  | releaseStream
  | policyFor
  /-- the passes that `inbound` gathers -/
  | scan (messages : List Fields)
  | emitGuardrailEvents (events : List GuardrailEvent)
  /-- `ladders.resolve` -/
  | resolve
  | tenantPrefs
  | governingWindows (tzName : String)
  | usage (ledgerKey : Bytes)
  /-- the rung of a request in the log -/
  | requestLogGet (requestID : Bytes)
  | cacheLookup (promptHash contextHash : Bytes)
  | cacheStore (promptHash contextHash : Bytes) (response : ChatResponse)
  | reserve (ledgerKey : Bytes) (limitCents amountCents : Int) (reservationID : Nat)
  | settle (ledgerKey : Bytes) (reservationID : Nat) (actualCents : Int)
  | release (ledgerKey : Bytes) (reservationID : Nat)
  | flagOnce (budgetID windowStart : Bytes) (pct : Int)
  | emitThreshold (budget : Budget) (pct : Int) (spendCents : Int)
  | activeDeployments
  /-- which deployments are healthy and allowed by the breaker -/
  | routable
  | sleep
  | complete (modelAlias : String) (deployment : ProviderDeployment) (request : ProviderRequest)
  | stream (modelAlias : String) (deployment : ProviderDeployment) (request : ProviderRequest)
  | observeAnomaly (cents : Int)
  | recordAndMeter (row : UsageRow)
  | logRequest (row : UsageRow)
  /-- the generator is advanced, or discarded -/
  | start
  | yield (chunk : Sse)

/-- What an operation answers. -/
abbrev ChatCmd.Ans : ChatCmd → Type
  | .checkSpend => Unit
  | .checkRpmTpm _ => Unit
  | .acquireStream => Unit
  | .releaseStream => Unit
  | .policyFor => GuardrailPolicy
  | .scan _ => Scan
  | .emitGuardrailEvents _ => Unit
  | .resolve => ModelLadder
  | .tenantPrefs => String × Option Int
  | .governingWindows _ => List GoverningWindow
  | .usage _ => Int × Int
  | .requestLogGet _ => Option Int
  | .cacheLookup _ _ => Option ChatResponse
  | .cacheStore _ _ _ => Unit
  | .reserve _ _ _ _ => Bool
  | .settle _ _ _ => Int × Int
  | .release _ _ => Unit
  | .flagOnce _ _ _ => Bool
  | .emitThreshold _ _ _ => Unit
  | .activeDeployments => List ProviderDeployment
  | .routable => Bytes → Bool
  | .sleep => Unit
  | .complete _ _ _ => ProviderResult
  | .stream _ _ _ => ProviderStream
  | .observeAnomaly _ => Unit
  | .recordAndMeter _ => Unit
  | .logRequest _ => Unit
  | .start => Bool
  | .yield _ => Unit

/-- A program of the gateway. -/
abbrev ChatProg (α : Type) : Type := Await ChatCmd ChatCmd.Ans Exn α

/-- One operation. -/
def askChat (o : ChatCmd) : ChatProg o.Ans := Await.ask o

end Windrose.Gateway

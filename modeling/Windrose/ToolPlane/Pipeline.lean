/-
  ToolPlane/Pipeline.lean --- the enforcement pipeline of a tool call.

  Source: services/tool-plane/internal/enforce/pipeline.go (run, mergeConstraints) and
  ratelimit.go (RateForWeight).

  A call passes the gates in their order and reaches the backend behind the last of them.
  What the stores, the sidecar, the limiter and the backend answer is `Answers`; the
  version and the tenant's settings are arguments of their own.  `run` is cut at the tier
  gate: `prepare` is what comes before it.
-/
import Windrose.ToolPlane.Policy

set_option autoImplicit false

namespace Windrose.ToolPlane

open Windrose.Foundation

/-! ## Versions, settings and requests -/

/-- The lifecycle of a version. -/
inductive Status where
  | draft
  | published
  | deprecated
  | retired
  | quarantined
  deriving DecidableEq

/-- `ToolVersion`; the end of a deprecation by its RFC 3339 text. -/
structure ToolVersion where
  version : Bytes
  status : Status
  inputSchema : Object
  outputSchema : Object
  permissionTier : Tier
  costWeight : Int
  p95MS : Int
  sideEffects : Bytes
  deprecationEndsAt : Option Bytes

/-- The settings of a tool for a tenant. -/
structure TenantToolSettings where
  enabled : Bool
  maxTierOverride : Option Tier
  argumentConstraints : Object
  rateLimitOverride : Option Int

/-- A tool call. -/
structure Request where
  agentID : Bytes
  principal : Bytes
  oboSub : Bytes
  tenant : Bytes
  toolID : Bytes
  args : Object
  toolset : List Bytes
  proposalGrant : Bytes
  eval : Bool
  traceID : Bytes

/-! ## Outcomes -/

/-- `events.Decision…`. -/
inductive Decision where
  | allowed
  | deniedPolicy
  | deniedRate
  | deniedSchema
  | killed
  | stubbed
  | proposalRequired
  deriving DecidableEq

/-- The details of an outcome. -/
inductive Details where
  | none
  | fields (errors : List FieldError)
  | violatedConstraint (field : String)

/-- The structured content of an outcome. -/
inductive Structured where
  | none
  | stubbed
  | proposal (toolID version : Bytes) (validatedArgs : Object) (affectedURNs : List Bytes)
      (sideEffects : Bytes)

/-- The notice of a deprecated version. -/
structure Deprecation where
  endsAt : Bytes
  message : Bytes

/-- The answer to a call. -/
structure Outcome where
  decision : Decision
  code : Bytes := []
  http : Nat := 0
  message : Bytes := []
  details : Details := .none
  structured : Structured := .none
  output : Option Object := none
  deprecation : Option Deprecation := none
  retryAfter : Int := 0
  version : Bytes := []
  tier : Option Tier := none
  crossTenant : Bool := false
  backendKind : Bytes := []
  affectedURNs : List Bytes := []

/-- The fields that most gates set. -/
def Outcome.answer (oc : Outcome) (decision : Decision) (code : Bytes) (http : Nat)
    (message : Bytes) : Outcome :=
  { oc with decision := decision, code := code, http := http, message := message }

def policyUnavailable (oc : Outcome) (message : Bytes) : Outcome :=
  oc.answer .deniedPolicy (bytes "POLICY_UNAVAILABLE") 503 message

def toolKilled (oc : Outcome) (scope : Bytes) : Outcome :=
  oc.answer .killed (bytes "TOOL_KILLED") 423 (bytes "tool killed (" ++ scope ++ bytes ")")

/-! ## What the collaborators answer -/

/-- Where a tool is served. -/
structure BackendTarget where
  url : Bytes
  spiffeID : Bytes
  p95MS : Int

/-- What a backend is sent. -/
structure Invocation where
  toolID : Bytes
  version : Bytes
  args : Object
  tenant : Bytes
  oboSub : Bytes
  agentID : Bytes
  traceID : Bytes

/-- Why `Invoke` failed; any other error has no kind. -/
inductive BackendFailure where
  | timeout (text : Bytes)
  | backendError (text : Bytes)
  | outputInvalid (text : Bytes)
  | rejected (statusCode : Nat) (text : Bytes)
  | other

/-- What one call is answered: by the kill registry before and after the gates, the grant
loader, the sidecar, the two buckets, the catalog and the backend. -/
structure Answers where
  isKilled : (tenant toolID version : Bytes) → Option Bytes
  grantsFor : (tenant user : Bytes) → (urns : List Bytes) → Option (List Bytes)
  policyUp : Bool
  tenantRate : (key : Bytes) → (limit : Int) → Option (Bool × Int)
  agentRate : (key : Bytes) → (limit : Int) → Option (Bool × Int)
  isStillKilled : (tenant toolID version : Bytes) → Option Bytes
  backendFor : (toolID : Bytes) → Option BackendTarget
  invoke : BackendTarget → Invocation → (readTier : Bool) → Except BackendFailure Object

/-- What a run returns, and what it handed to the backend. -/
structure Result where
  outcome : Outcome
  invoked : Option (BackendTarget × Invocation × Bool) := none

/-! ## The gates -/

/-- Step 1: only published and deprecated versions go on. -/
def checkStatus (tv : ToolVersion) : Except Outcome Outcome :=
  let oc : Outcome :=
    { decision := .allowed, version := tv.version, tier := some tv.permissionTier }
  match tv.status with
  | .retired =>
    .error (oc.answer .deniedPolicy (bytes "TOOL_RETIRED") 410 (bytes "tool version retired"))
  | .quarantined =>
    .error (oc.answer .killed (bytes "TOOL_KILLED") 423 (bytes "tool version quarantined"))
  | .draft => .error (oc.answer .deniedPolicy (bytes "NOT_FOUND") 404 (bytes "tool not published"))
  | .deprecated =>
    .ok { oc with deprecation := tv.deprecationEndsAt.map fun t =>
      ⟨t, bytes "tool version deprecated; migrate before " ++ t⟩ }
  | .published => .ok oc

/-- The tier a call is judged by: the tenant's override, when it is the lower one. -/
def effectiveTier (tv : ToolVersion) (settings : TenantToolSettings) : Tier :=
  match settings.maxTierOverride with
  | some t => if t.rank < tv.permissionTier.rank then t else tv.permissionTier
  | none => tv.permissionTier

def argsDigest (sha256 : Bytes → Bytes) (args : Object) : Bytes :=
  hexEncode (sha256 (canonicalJSON (.obj args)))

/-- The grant of a request, verified for the effective tier. -/
def verifiedProposal (sha256 : Bytes → Bytes) (proposals : Option ProposalVerifier) (tier : Tier)
    (req : Request) : Option ProposalExecution :=
  proposals.bind fun v =>
    v.verifyGrant req.proposalGrant req.tenant req.toolID tier (argsDigest sha256 req.args)

/-- `declared` of `mergeConstraints`: the constraints that a schema declares. -/
def declaredConstraints (schema : Object) : List (String × Object) :=
  (properties schema).filterMap fun f =>
    (asObject f.2).bind fun p =>
      let spec :=
        ((p.lookup "maxLength").map fun v => ("maxLength", v)).toList ++
        ((p.lookup "maximum").map fun v => ("max", v)).toList ++
        ((p.lookup "maxItems").map fun v => ("maxItems", v)).toList
      if spec.isEmpty then none else some (f.1, spec)

/-- A tenant's own constraints come before those that the schema declares. -/
def mergeConstraints (schema tenant : Object) : List (String × Object) :=
  let own := tenant.filterMap fun f =>
    (asObject f.2).map fun spec =>
      let existing := ((declaredConstraints schema).lookup f.1).getD []
      (f.1, spec ++ existing.filter fun g => (spec.lookup g.1).isNone)
  own ++ (declaredConstraints schema).filter fun f => (own.lookup f.1).isNone

/-- A resource of another tenant. -/
def crossTenant (tenant urn : Bytes) : Bool := urnTenant urn ≠ [] ∧ urnTenant urn ≠ tenant

/-- `authz.Input`. -/
def policyInput (sha256 : Bytes → Bytes) (tv : ToolVersion) (settings : TenantToolSettings)
    (req : Request) (tier : Tier) (grants : List Bytes) (verified : Option ProposalExecution) :
    PolicyInput where
  toolID := req.toolID
  oboSub := req.oboSub
  tier := tier
  maxTier := tier
  affectedURNs := affectedOboURNs tv.inputSchema req.args req.tenant
  args := req.args
  toolset := req.toolset
  constraints := mergeConstraints tv.inputSchema settings.argumentConstraints
  oboGrants := grants
  argsDigest := argsDigest sha256 req.args
  proposalExecution := verified

/-- Step 2: the kill registry, asked here and again before the dispatch. -/
def checkKill (killed : Option Bytes) (oc : Outcome) : Except Outcome Unit :=
  match killed with
  | some scope => .error (toolKilled oc scope)
  | none => .ok ()

/-- Step 2: the tenant has the tool enabled. -/
def checkEnabled (found : Option (Option TenantToolSettings)) (oc : Outcome) :
    Except Outcome TenantToolSettings :=
  let disabled := oc.answer .deniedPolicy (bytes "TOOL_DISABLED")
      410 (bytes "tool not enabled for tenant")
  match found with
  | none => .error (policyUnavailable oc (bytes "enablement lookup failed"))
  | some none => .error disabled
  | some (some settings) => if settings.enabled then .ok settings else .error disabled

/-- Step 3a: no resource belongs to another tenant. -/
def checkTenants (req : Request) (oc : Outcome) : Except Outcome Unit :=
  if oc.affectedURNs.any (crossTenant req.tenant) then
    .error { oc.answer .deniedPolicy (bytes "NOT_FOUND")
      404 (bytes "not found") with crossTenant := true }
  else .ok ()

/-- The grants of the user on the resources, when there is something to look up. -/
def loadGrants (env : Answers) (tv : ToolVersion) (req : Request) (oc : Outcome) :
    Except Outcome (List Bytes) :=
  if req.oboSub ≠ [] ∧ affectedOboURNs tv.inputSchema req.args req.tenant ≠ [] then
    match env.grantsFor req.tenant req.oboSub
      (affectedOboURNs tv.inputSchema req.args req.tenant) with
    | some grants => .ok grants
    | none => .error (policyUnavailable oc (bytes "grant lookup failed"))
  else .ok []

/-- Step 3b: the sidecar. -/
def checkPolicy (env : Answers) (input : PolicyInput) (oc : Outcome) : Except Outcome Unit :=
  if !env.policyUp then .error (policyUnavailable oc (bytes "policy engine unavailable"))
  else
    let dec := input.decision
    if dec.allow then .ok ()
    else
      let denied := oc.answer .deniedPolicy (bytes "PERMISSION_DENIED") 403
        (bytes "permission denied: " ++ dec.reason)
      .error { denied with details :=
        if dec.violatedConstraint = "" then .none else .violatedConstraint dec.violatedConstraint }

/-- `RateForWeight`: from 120 down to 6 calls a minute. -/
def rateForWeight (weight : Int) : Int :=
  if weight ≤ 1 then 120
  else if 10 ≤ weight then 6
  else [86, 62, 44, 32, 23, 16, 12, 8].getD (weight.toNat - 2) 6

/-- The limit both buckets are asked with. -/
def rateLimit (tv : ToolVersion) (settings : TenantToolSettings) : Int :=
  match settings.rateLimitOverride with
  | some perMin => if 0 < perMin then perMin else rateForWeight tv.costWeight
  | none => rateForWeight tv.costWeight

/-- One bucket. -/
def checkBucket (answer : Option (Bool × Int)) (oc : Outcome) : Except Outcome Unit :=
  match answer with
  | none => .error (policyUnavailable oc (bytes "rate store unavailable"))
  | some (true, _) => .ok ()
  | some (false, retry) =>
    .error { oc.answer .deniedRate (bytes "RATE_LIMITED") 429 (bytes "rate limited") with
      retryAfter := retry }

/-- Step 4: the bucket of the tenant, and that of the agent unless a grant is verified. -/
def checkRate (env : Answers) (tv : ToolVersion) (settings : TenantToolSettings) (req : Request)
    (verified : Option ProposalExecution) (oc : Outcome) : Except Outcome Unit := do
  let limit := rateLimit tv settings
  checkBucket (env.tenantRate (req.tenant ++ 58 :: req.toolID) limit) oc
  if verified.isNone then
    checkBucket (env.agentRate (bytes "agent:" ++ req.principal ++ 58 :: req.toolID) limit) oc
  else .ok ()

/-- Step 5: the schema. -/
def checkArgs (tv : ToolVersion) (req : Request) (oc : Outcome) : Except Outcome Unit :=
  match validateArgs tv.inputSchema req.args with
  | [] => .ok ()
  | errors =>
    .error { oc.answer .deniedSchema (bytes "VALIDATION_FAILED") 422
      (bytes "argument validation failed") with details := .fields errors }

/-- Steps 1 to 5, up to the tier gate. -/
def prepare (sha256 : Bytes → Bytes) (proposals : Option ProposalVerifier) (env : Answers)
    (tv : ToolVersion) (found : Option (Option TenantToolSettings)) (req : Request) :
    Except Outcome (TenantToolSettings × Outcome) := do
  let oc ← checkStatus tv
  checkKill (env.isKilled req.tenant req.toolID tv.version) oc
  let settings ← checkEnabled found oc
  let tier := effectiveTier tv settings
  let verified := verifiedProposal sha256 proposals tier req
  let affected := affectedURNs tv.inputSchema req.args req.tenant
  let oc : Outcome := { oc with tier := some tier, affectedURNs := affected }
  checkTenants req oc
  let grants ← loadGrants env tv req oc
  checkPolicy env (policyInput sha256 tv settings req tier grants verified) oc
  checkRate env tv settings req verified oc
  checkArgs tv req oc
  pure (settings, oc)

/-- Eval mode: what is no read is answered with a stub. -/
def Stubs (req : Request) (tier : Tier) : Prop := req.eval = true ∧ tier ≠ .read

instance (req : Request) (tier : Tier) : Decidable (Stubs req tier) :=
  inferInstanceAs (Decidable (_ ∧ _))

/-- Step 6: evaluations of writes are stubbed, and gated tiers need a verified grant. -/
def tierGate (tv : ToolVersion) (req : Request) (tier : Tier) (verified : Option ProposalExecution)
    (oc : Outcome) : Except Outcome Unit :=
  if Stubs req tier then .error { oc with decision := .stubbed, structured := .stubbed }
  else if tier.Gated ∧ verified.isNone then
    .error { oc with
      decision := .proposalRequired
      code := bytes "PROPOSAL_REQUIRED"
      http := 200
      structured := .proposal req.toolID tv.version req.args oc.affectedURNs tv.sideEffects }
  else .ok ()

/-- What a failure of the backend is answered with. -/
def backendAnswer (oc : Outcome) : BackendFailure → Outcome
  | .timeout _ => { oc.answer .deniedPolicy (bytes "TOOL_BACKEND_TIMEOUT")
    504 (bytes "backend error") with
      backendKind := bytes "timeout" }
  | .backendError _ => { oc.answer .deniedPolicy (bytes "TOOL_BACKEND_ERROR")
    502 (bytes "backend error") with
      backendKind := bytes "backend_error" }
  | .outputInvalid _ => { oc.answer .deniedPolicy (bytes "TOOL_OUTPUT_INVALID")
    502 (bytes "backend error") with
      backendKind := bytes "output_invalid" }
  | .rejected status text =>
    let code :=
      if status = 403 then bytes "PERMISSION_DENIED"
      else if status = 404 then bytes "NOT_FOUND"
      else if status = 400 ∨ status = 422 then bytes "VALIDATION_FAILED"
      else bytes "TOOL_BACKEND_ERROR"
    { oc.answer .deniedPolicy code status (bytes "backend_rejected: " ++ text) with
      backendKind := bytes "backend_rejected" }
  | .other => { oc.answer .deniedPolicy (bytes "TOOL_BACKEND_ERROR")
    502 (bytes "backend error") with
      backendKind := bytes "backend_error" }

/-- Steps 7 and 8: the kill recheck, and the backend. -/
def dispatch (env : Answers) (tv : ToolVersion) (req : Request) (tier : Tier) (oc : Outcome) :
    Result :=
  match checkKill (env.isStillKilled req.tenant req.toolID tv.version) oc with
  | .error oc => ⟨oc, none⟩
  | .ok () =>
    match env.backendFor req.toolID with
    | none => ⟨oc.answer .deniedPolicy (bytes "TOOL_BACKEND_ERROR")
      502 (bytes "no backend registered"), none⟩
    | some target =>
      let target := { target with p95MS := tv.p95MS }
      let call : Invocation :=
        ⟨req.toolID, tv.version, req.args, req.tenant, req.oboSub, req.agentID, req.traceID⟩
      let invoked := some (target, call, decide (tier = .read))
      match env.invoke target call (tier = .read) with
      | .error e => ⟨backendAnswer oc e, invoked⟩
      | .ok output =>
        let errors := if tv.outputSchema.isEmpty then [] else validateArgs tv.outputSchema output
        if errors ≠ [] then
          ⟨{ oc.answer .deniedPolicy (bytes "TOOL_OUTPUT_INVALID")
            502 (bytes "tool output invalid") with
              details := .fields errors, backendKind := bytes "output_invalid" }, invoked⟩
        else ⟨{ oc with decision := .allowed, output := some output }, invoked⟩

/-- The pipeline for a version that was resolved. -/
def enforce (sha256 : Bytes → Bytes) (proposals : Option ProposalVerifier) (env : Answers)
    (tv : ToolVersion) (found : Option (Option TenantToolSettings)) (req : Request) : Result :=
  match prepare sha256 proposals env tv found req with
  | .error oc => ⟨oc, none⟩
  | .ok (settings, oc) =>
    let tier := effectiveTier tv settings
    match tierGate tv req tier (verifiedProposal sha256 proposals tier req) oc with
    | .error oc => ⟨oc, none⟩
    | .ok () => dispatch env tv req tier oc

/-- `Pipeline.run`. -/
def run (sha256 : Bytes → Bytes) (proposals : Option ProposalVerifier) (env : Answers)
    (resolved : Option ToolVersion) (found : Option (Option TenantToolSettings)) (req : Request) :
    Result :=
  match resolved with
  | some tv => enforce sha256 proposals env tv found req
  | none =>
    let oc : Outcome := { decision := .deniedPolicy }
    ⟨oc.answer .deniedPolicy (bytes "NOT_FOUND") 404 (bytes "tool not found"), none⟩

end Windrose.ToolPlane

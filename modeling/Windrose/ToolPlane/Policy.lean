/-
  ToolPlane/Policy.lean --- permission tiers, the sidecar's policy and proposal grants.

  Source: services/tool-plane/internal/domain/types.go (TierRank), policy/tool_plane.rego
  and internal/authz/proposal.go (VerifyGrant).

  The policy is asked with one tier twice, as the tier of the call and as the tenant's
  maximum, and with a grant only after `VerifyGrant` has compared its digest: its answer
  depends on neither (`decision_tier_irrelevant`).
-/
import Windrose.ToolPlane.Schema

set_option autoImplicit false

namespace Windrose.ToolPlane

open Windrose.Foundation

/-! ## Tiers -/

/-- `permission_tier`. -/
inductive Tier where
  | read
  | writeProposal
  | writeDirect
  | admin
  deriving DecidableEq

namespace Tier

def text : Tier → Bytes
  | read => bytes "read"
  | writeProposal => bytes "write-proposal"
  | writeDirect => bytes "write-direct"
  | admin => bytes "admin"

/-- `TierRank`. -/
def rank : Tier → Nat
  | read => 0
  | writeProposal => 1
  | writeDirect => 2
  | admin => 3

/-- The tiers that need an approved proposal. -/
def Gated (t : Tier) : Prop := t = writeProposal ∨ t = admin

instance (t : Tier) : Decidable t.Gated := inferInstanceAs (Decidable (_ ∨ _))

end Tier

/-! ## Grants -/

/-- `ProposalGrantClaims`, with the expiry of the registered claims. -/
structure GrantClaims where
  proposalID : Bytes
  tenantID : Bytes
  toolID : Bytes
  tier : Bytes
  argsDigest : Bytes
  subject : Bytes
  exp : Option Int

/-- The proposal that a call executes. -/
structure ProposalExecution where
  proposalID : Bytes
  decidedBy : Bytes
  argsDigest : Bytes

/-- `ProposalVerifier`: what the JWT library makes of a token whose signature, method and
issuer are right, the clock and the leeway. -/
structure ProposalVerifier where
  parse : Bytes → Option GrantClaims
  now : Int
  leeway : Int

/-- A grant for one call: unexpired, and for its tenant, tool and arguments. -/
structure GrantClaims.Binds (claims : GrantClaims) (v : ProposalVerifier)
    (tenant toolID argsDigest : Bytes) : Prop where
  unexpired : ∃ exp, claims.exp = some exp ∧ v.now < exp + v.leeway
  tenant : claims.tenantID = tenant
  tool : claims.toolID = toolID
  digest : claims.argsDigest = argsDigest

namespace ProposalVerifier

/-- `jwt.WithExpirationRequired` and `jwt.WithLeeway`. -/
def parseWithClaims (v : ProposalVerifier) (grant : Bytes) : Option GrantClaims :=
  (v.parse grant).filter fun claims => claims.exp.any fun exp => v.now < exp + v.leeway

/-- `VerifyGrant`. -/
def verifyGrant (v : ProposalVerifier) (grant tenant toolID : Bytes) (tier : Tier)
    (argsDigest : Bytes) : Option ProposalExecution :=
  if grant = [] then none
  else
    match v.parseWithClaims grant with
    | none => none
    | some claims =>
      if claims.proposalID = [] then none
      else if claims.tenantID ≠ tenant then none
      else if claims.toolID ≠ toolID then none
      else if claims.tier ≠ [] ∧ claims.tier ≠ tier.text then none
      else if claims.argsDigest ≠ argsDigest then none
      else some ⟨claims.proposalID, claims.subject, claims.argsDigest⟩

theorem verifyGrant_binds {v : ProposalVerifier} {grant tenant toolID argsDigest : Bytes}
    {tier : Tier}
    {pe : ProposalExecution} (h : v.verifyGrant grant tenant toolID tier argsDigest = some pe) :
    pe.argsDigest = argsDigest ∧
      ∃ claims, v.parse grant = some claims ∧ claims.Binds v tenant toolID argsDigest := by
  unfold verifyGrant at h
  split at h
  · cases h
  · split at h
    · cases h
    · next claims hclaims =>
      obtain ⟨hparse, hexp⟩ := Option.filter_eq_some_iff.mp hclaims
      obtain ⟨exp, hsome, hlt⟩ := (Option.any_eq_true _ _).mp hexp
      split at h
      · cases h
      split at h
      · cases h
      split at h
      · cases h
      split at h
      · cases h
      split at h
      · cases h
      rename_i htenant htool _ hdigest
      obtain rfl := Option.some.inj h
      exact ⟨not_not.mp hdigest, claims, hparse, ⟨exp, hsome, of_decide_eq_true hlt⟩,
        not_not.mp htenant, not_not.mp htool, not_not.mp hdigest⟩

end ProposalVerifier

/-! ## The policy -/

/-- What the policy reads of `Input`. -/
structure PolicyInput where
  toolID : Bytes
  oboSub : Bytes
  tier : Tier
  maxTier : Tier
  affectedURNs : List Bytes
  args : Object
  toolset : List Bytes
  constraints : List (String × Object)
  oboGrants : List Bytes
  argsDigest : Bytes
  proposalExecution : Option ProposalExecution

/-- `Decision`. -/
structure PolicyDecision where
  allow : Bool
  reason : Bytes
  violatedConstraint : String
  deriving DecidableEq

/-- Equality of JSON values in Rego: numbers by value, objects up to the order of fields. -/
def regoEq (v w : Value) : Bool :=
  let whole : Double → Number := fun x => (PyNumber.int (scaled x)).number
  Json.compact.write ((v.sorted byteLE).toJson whole) =
    Json.compact.write ((w.sorted byteLE).toJson whole)

/-- `n < v` in Rego, for a number: null and booleans come before numbers, the rest after. -/
def belowNumber (v : Value) (n : Int) : Bool :=
  match v with
  | .null => true
  | .bool _ => true
  | .num x => scaled x < n
  | _ => false

/-- The elements that `some a in v` visits. -/
def elements : Value → List Value
  | .arr vs => vs
  | .obj fs => fs.map (·.2)
  | _ => []

/-- `field_violation`. -/
def fieldViolation (args : Object) (field : String) (spec : Object) : Bool :=
  match args.lookup field with
  | none => false
  | some v =>
    (match spec.lookup "maxLength", v with
      | some maxlen, .str s => belowNumber maxlen (ofLen s.length)
      | _, _ => false) ||
    (match spec.lookup "max", v with
      | some m, .num x => belowNumber m (scaled x)
      | _, _ => false) ||
    (match spec.lookup "maxItems", v with
      | some mi, .arr vs => belowNumber mi (ofLen vs.length)
      | _, _ => false) ||
    (match spec.lookup "enum_subset" with
      | some allowed => !(elements allowed).any fun a => regoEq a v
      | none => false)

namespace PolicyInput

variable (i : PolicyInput)

/-- `toolset_ok`. -/
def toolsetOk : Bool := i.toolset = [] ∨ i.toolID ∈ i.toolset

/-- `obo_grant_ok`. -/
def oboGrantOk : Bool := i.oboSub = [] ∨ ∀ urn ∈ i.affectedURNs, urn ∈ i.oboGrants

/-- `tier_ok`. -/
def tierOk : Bool := i.tier.rank ≤ i.maxTier.rank

/-- `violating_fields`. -/
def violatingFields : List String :=
  (i.constraints.filter fun f => fieldViolation i.args f.1 f.2).map (·.1)

/-- `constraints_ok`. -/
def constraintsOk : Bool := i.violatingFields = []

/-- `proposal_ok`. -/
def proposalOk : Bool := i.proposalExecution.all fun pe => pe.argsDigest = i.argsDigest

/-- `deny_reasons`, in their order. -/
def denyReasons : List Bytes :=
  (if i.toolsetOk then [] else [bytes "toolset_scope"]) ++
  (if i.oboGrantOk then [] else [bytes "obo_grant"]) ++
  (if i.tierOk then [] else [bytes "tenant_tier"]) ++
  (if i.constraintsOk then [] else [bytes "argument_constraint"]) ++
  (if i.proposalOk then [] else [bytes "proposal_grant"])

/-- `sorted_violations[0]`. -/
def violatedConstraint : String :=
  (i.violatingFields.insertionSort fun s t => byteLE s t = true).headD ""

/-- `decision`. -/
def decision : PolicyDecision :=
  if i.toolsetOk ∧ i.oboGrantOk ∧ i.tierOk ∧ i.constraintsOk ∧ i.proposalOk then
    ⟨true, bytes "allow", ""⟩
  else
    match i.denyReasons with
    | reason :: _ => ⟨false, reason, i.violatedConstraint⟩
    | [] => ⟨false, bytes "deny_default", ""⟩

/-- Another tier, if it is its own maximum, and another grant, if its digest was compared,
get the same answer. -/
theorem decision_tier_irrelevant {i : PolicyInput} (tier : Tier) (pe : Option ProposalExecution)
    (htier : i.tier = i.maxTier) (hpe : i.proposalOk = true)
    (hpe' : pe.all (fun pe => pe.argsDigest = i.argsDigest) = true) :
    { i with tier := tier, maxTier := tier, proposalExecution := pe }.decision = i.decision := by
  have htierOk : i.tierOk = true := by
    rw [tierOk, htier]
    exact decide_eq_true le_rfl
  have htierOk' : { i with tier := tier, maxTier := tier, proposalExecution := pe }.tierOk = true :=
    decide_eq_true le_rfl
  have hpe'' :
      { i with tier := tier, maxTier := tier, proposalExecution := pe }.proposalOk = true :=
    hpe'
  unfold decision denyReasons
  rw [htierOk, htierOk', hpe, hpe'']
  rfl

end PolicyInput

end Windrose.ToolPlane

/-
  ToolPlane/WriteGate.lean --- when a write reaches the backend.

  A call is judged by its effective tier, which a tenant's override may lower.  `Admitted`
  says when a call gets to the tier gate, and depends on the tier through the grant alone;
  `reaches_iff` adds the gate itself.
-/
import Windrose.Foundation.Lexer
import Windrose.ToolPlane.Pipeline

set_option autoImplicit false

namespace Windrose.ToolPlane

open Windrose.Foundation

/-! ## The property -/

/-- The run of one call, from the version and the settings it is resolved to. -/
def outcome (sha256 : Bytes → Bytes) (proposals : Option ProposalVerifier) (env : Answers)
    (tv : ToolVersion) (settings : TenantToolSettings) (req : Request) : Result :=
  run sha256 proposals env (some tv) (some (some settings)) req

/-- `Backend.Invoke` is called. -/
def Reaches (sha256 : Bytes → Bytes) (proposals : Option ProposalVerifier) (env : Answers)
    (tv : ToolVersion) (settings : TenantToolSettings) (req : Request) : Prop :=
  (outcome sha256 proposals env tv settings req).invoked.isSome = true

/-- Refused, or answered `proposal_required`: neither dispatched nor stubbed. -/
def Refused (sha256 : Bytes → Bytes) (proposals : Option ProposalVerifier) (env : Answers)
    (tv : ToolVersion) (settings : TenantToolSettings) (req : Request) : Prop :=
  (outcome sha256 proposals env tv settings req).invoked = none ∧
    (outcome sha256 proposals env tv settings req).outcome.decision ≠ .stubbed

/-- `VerifyGrant` accepted the grant of the request, for the tier the call is judged by. -/
def Verified (sha256 : Bytes → Bytes) (proposals : Option ProposalVerifier) (tv : ToolVersion)
    (settings : TenantToolSettings) (req : Request) : Prop :=
  ∃ v pe, proposals = some v ∧ v.verifyGrant req.proposalGrant req.tenant req.toolID
      (effectiveTier tv settings) (argsDigest sha256 req.args) = some pe ∧
    ∃ claims, v.parse req.proposalGrant = some claims ∧
      claims.Binds v req.tenant req.toolID (argsDigest sha256 req.args)

/-- The settings with another override. -/
def TenantToolSettings.override (settings : TenantToolSettings) (tier : Tier) :
    TenantToolSettings :=
  { settings with maxTierOverride := some tier }

/-- A tier below the override in force, if there is one. -/
def Lowers (tier : Tier) (settings : TenantToolSettings) : Prop :=
  ∀ t, settings.maxTierOverride = some t → tier.rank < t.rank

/-- The write gate of one call, whatever the collaborators answer. -/
structure WriteGated (sha256 : Bytes → Bytes) (proposals : Option ProposalVerifier)
    (tv : ToolVersion) (settings : TenantToolSettings) (req : Request) : Prop where
  approved : ∀ env, Reaches sha256 proposals env tv settings req → tv.permissionTier.Gated →
    Verified sha256 proposals tv settings req ∧ req.eval = false
  monotone : ∀ env tier, Lowers tier settings → Refused sha256 proposals env tv settings req →
    ¬ Reaches sha256 proposals env tv (settings.override tier) req

/-! ## Before the tier gate -/

variable {sha256 : Bytes → Bytes} {proposals : Option ProposalVerifier} {env : Answers}
  {tv : ToolVersion} {settings : TenantToolSettings} {req : Request}

theorem verified_iff : Verified sha256 proposals tv settings req ↔
    (verifiedProposal sha256 proposals (effectiveTier tv settings) req).isSome = true := by
  rw [Option.isSome_iff_exists]
  constructor
  · rintro ⟨v, pe, rfl, hpe, -⟩
    exact ⟨pe, hpe⟩
  · rintro ⟨pe, hpe⟩
    obtain ⟨v, hv, hverify⟩ := Option.bind_eq_some_iff.mp hpe
    exact ⟨v, pe, hv, hverify, (ProposalVerifier.verifyGrant_binds hverify).2⟩

/-- The grants the policy is asked with. -/
def grantsOf (env : Answers) (tv : ToolVersion) (req : Request) : Option (List Bytes) :=
  let urns := affectedOboURNs tv.inputSchema req.args req.tenant
  if req.oboSub ≠ [] ∧ urns ≠ [] then env.grantsFor req.tenant req.oboSub urns else some []

/-- The policy's answer, which depends on neither tier nor grant. -/
def policyAllows (tv : ToolVersion) (settings : TenantToolSettings) (req : Request)
    (grants : List Bytes) : Bool :=
  (policyInput id tv settings req tv.permissionTier grants none).decision.allow

theorem decision_allow (tier : Tier) (grants : List Bytes) :
    (policyInput sha256 tv settings req tier grants
      (verifiedProposal sha256 proposals tier req)).decision.allow =
      policyAllows tv settings req grants := by
  have hpe : (policyInput sha256 tv settings req tier grants
      (verifiedProposal sha256 proposals tier req)).proposalOk = true := by
    refine (Option.all_eq_true _ _).mpr fun pe hpe => decide_eq_true ?_
    obtain ⟨v, -, hverify⟩ := Option.bind_eq_some_iff.mp hpe
    exact (ProposalVerifier.verifyGrant_binds hverify).1
  rw [← PolicyInput.decision_tier_irrelevant tv.permissionTier none rfl hpe rfl]
  rfl

/-- What lets a call through the gates before the tier gate. -/
structure Admitted (env : Answers) (tv : ToolVersion) (settings : TenantToolSettings)
    (req : Request)
    (verified : Prop) : Prop where
  live : tv.status = .published ∨ tv.status = .deprecated
  notKilled : env.isKilled req.tenant req.toolID tv.version = none
  enabled : settings.enabled = true
  own : (affectedURNs tv.inputSchema req.args req.tenant).any (crossTenant req.tenant) = false
  granted : ∃ grants, grantsOf env tv req = some grants ∧ env.policyUp = true ∧
    policyAllows tv settings req grants = true
  tenantBucket : ∃ retry, env.tenantRate (req.tenant ++ 58 :: req.toolID) (rateLimit tv settings) =
    some (true, retry)
  agentBucket : ¬ verified → ∃ retry, env.agentRate
    (bytes "agent:" ++ req.principal ++ 58 :: req.toolID)
    (rateLimit tv settings) = some (true, retry)
  valid : validateArgs tv.inputSchema req.args = []

theorem gate_bind_eq_ok {ε β : Type} {x : Except ε Unit} {f : Unit → Except ε β} {b : β} :
    (x >>= f) = .ok b ↔ x = .ok () ∧ f () = .ok b :=
  bind_eq_ok.trans ⟨fun ⟨(), hx, hf⟩ => ⟨hx, hf⟩, fun ⟨hx, hf⟩ => ⟨(), hx, hf⟩⟩

theorem checkStatus_ok_iff : (∃ oc, checkStatus tv = .ok oc) ↔
    tv.status = .published ∨ tv.status = .deprecated := by
  unfold checkStatus
  cases tv.status <;> simp

variable {oc : Outcome} {tier : Tier}

theorem checkKill_ok_iff {killed : Option Bytes} :
    checkKill killed oc = .ok () ↔ killed = none := by
  cases killed <;> simp [checkKill]

theorem checkEnabled_ok_iff {found : TenantToolSettings} :
    checkEnabled (some (some settings)) oc = .ok found ↔ settings.enabled = true ∧
      settings = found := by
  unfold checkEnabled
  by_cases h : settings.enabled = true <;> simp [h]

theorem checkTenants_ok_iff :
    checkTenants req oc = .ok () ↔ oc.affectedURNs.any (crossTenant req.tenant) = false := by
  unfold checkTenants
  cases oc.affectedURNs.any (crossTenant req.tenant) <;> simp

theorem loadGrants_ok_iff {grants : List Bytes} :
    loadGrants env tv req oc = .ok grants ↔ grantsOf env tv req = some grants := by
  unfold loadGrants grantsOf
  dsimp only
  split
  · cases env.grantsFor _ _ _ <;> simp
  · simp

theorem checkPolicy_ok_iff {input : PolicyInput} :
    checkPolicy env input oc = .ok () ↔ env.policyUp = true ∧ input.decision.allow = true := by
  unfold checkPolicy
  cases env.policyUp <;> cases h : input.decision.allow <;> simp [h]

theorem checkBucket_ok_iff {answer : Option (Bool × Int)} :
    checkBucket answer oc = .ok () ↔ ∃ retry, answer = some (true, retry) := by
  unfold checkBucket
  rcases answer with _ | ⟨_ | _, retry⟩ <;> simp

theorem checkArgs_ok_iff :
    checkArgs tv req oc = .ok () ↔ validateArgs tv.inputSchema req.args = [] := by
  unfold checkArgs
  cases validateArgs tv.inputSchema req.args <;> simp

theorem checkRate_ok_iff {verified : Option ProposalExecution} :
    checkRate env tv settings req verified oc = .ok () ↔
      (∃ retry, env.tenantRate (req.tenant ++ 58 :: req.toolID) (rateLimit tv settings) =
        some (true, retry)) ∧
      (¬ verified.isSome = true → ∃ retry, env.agentRate
        (bytes "agent:" ++ req.principal ++ 58 :: req.toolID) (rateLimit tv settings) =
        some (true, retry)) := by
  unfold checkRate
  rw [gate_bind_eq_ok, checkBucket_ok_iff]
  cases verified with
  | none => simp [checkBucket_ok_iff]
  | some pe => simp

theorem admitted_of_prepare {found : TenantToolSettings × Outcome}
    (h : prepare sha256 proposals env tv (some (some settings)) req = .ok found) :
    found.1 = settings ∧ Admitted env tv settings req
      (Verified sha256 proposals tv settings req) := by
  obtain ⟨oc, hstatus, h⟩ := bind_eq_ok.mp h
  obtain ⟨hkill, h⟩ := gate_bind_eq_ok.mp h
  obtain ⟨_, hfound, h⟩ := bind_eq_ok.mp h
  obtain ⟨henabled, rfl⟩ := checkEnabled_ok_iff.mp hfound
  obtain ⟨htenants, h⟩ := gate_bind_eq_ok.mp h
  obtain ⟨grants, hgrants, h⟩ := bind_eq_ok.mp h
  obtain ⟨hpolicy, h⟩ := gate_bind_eq_ok.mp h
  obtain ⟨hrate, h⟩ := gate_bind_eq_ok.mp h
  obtain ⟨hargs, h⟩ := gate_bind_eq_ok.mp h
  obtain rfl := Except.ok.inj h
  obtain ⟨hup, hallow⟩ := checkPolicy_ok_iff.mp hpolicy
  rw [decision_allow] at hallow
  obtain ⟨htenant, hagent⟩ := checkRate_ok_iff.mp hrate
  rw [← verified_iff] at hagent
  exact ⟨rfl, checkStatus_ok_iff.mp ⟨oc, hstatus⟩, checkKill_ok_iff.mp hkill, henabled,
    checkTenants_ok_iff.mp htenants, ⟨grants, loadGrants_ok_iff.mp hgrants, hup, hallow⟩, htenant,
    hagent, checkArgs_ok_iff.mp hargs⟩

theorem Admitted.prepare
    (h : Admitted env tv settings req (Verified sha256 proposals tv settings req)) :
    ∃ oc, prepare sha256 proposals env tv (some (some settings)) req = .ok (settings, oc) := by
  obtain ⟨oc, hstatus⟩ := checkStatus_ok_iff.mpr h.live
  obtain ⟨grants, hgrants, hup, hallow⟩ := h.granted
  have hagent := h.agentBucket
  rw [← decision_allow] at hallow
  rw [verified_iff] at hagent
  exact ⟨_, bind_eq_ok.mpr ⟨oc, hstatus, gate_bind_eq_ok.mpr ⟨checkKill_ok_iff.mpr h.notKilled,
    bind_eq_ok.mpr ⟨settings, checkEnabled_ok_iff.mpr ⟨h.enabled, rfl⟩,
    gate_bind_eq_ok.mpr ⟨checkTenants_ok_iff.mpr h.own,
    bind_eq_ok.mpr ⟨grants, loadGrants_ok_iff.mpr hgrants,
    gate_bind_eq_ok.mpr ⟨checkPolicy_ok_iff.mpr ⟨hup, hallow⟩,
    gate_bind_eq_ok.mpr ⟨checkRate_ok_iff.mpr ⟨h.tenantBucket, hagent⟩,
    gate_bind_eq_ok.mpr ⟨checkArgs_ok_iff.mpr h.valid, rfl⟩⟩⟩⟩⟩⟩⟩⟩⟩

/-! ## What a gate refuses with -/

/-- A step whose refusals are no stubs. -/
def Refuses {α : Type} (x : Except Outcome α) : Prop := ∀ e, x = .error e → e.decision ≠ .stubbed

theorem refuses_ok {α : Type} (a : α) : Refuses (.ok a) := fun _ h => by cases h

theorem refuses_error {α : Type} (h : oc.decision ≠ .stubbed) :
    Refuses (.error oc : Except Outcome α) := fun e he => by
  obtain rfl := Except.error.inj he
  exact h

theorem Refuses.bind {α β : Type} {x : Except Outcome α} {f : α → Except Outcome β} (hx : Refuses x)
    (hf : ∀ a, Refuses (f a)) : Refuses (x >>= f) := by
  cases x with
  | error e => exact fun e' he => hx e' (by rw [← Except.error.inj he])
  | ok a => exact hf a

theorem refuses_checkBucket (answer : Option (Bool × Int)) (oc : Outcome) :
    Refuses (checkBucket answer oc) := by
  rcases answer with _ | ⟨_ | _, retry⟩
  · exact refuses_error nofun
  · exact refuses_error nofun
  · exact refuses_ok _

theorem refuses_prepare (found : Option (Option TenantToolSettings)) :
    Refuses (prepare sha256 proposals env tv found req) := by
  have hstatus : Refuses (checkStatus tv) := by
    unfold checkStatus
    cases tv.status
    · exact refuses_error nofun
    · exact refuses_ok _
    · exact refuses_ok _
    · exact refuses_error nofun
    · exact refuses_error nofun
  have hkill : ∀ killed oc, Refuses (checkKill killed oc) := by
    rintro (_ | scope) oc
    · exact refuses_ok _
    · exact refuses_error nofun
  have henabled : ∀ oc, Refuses (checkEnabled found oc) := by
    intro oc
    obtain _ | _ | settings := found
    · exact refuses_error nofun
    · exact refuses_error nofun
    · unfold checkEnabled
      dsimp only
      split
      · exact refuses_ok _
      · exact refuses_error nofun
  have htenants : ∀ oc, Refuses (checkTenants req oc) := by
    intro oc
    unfold checkTenants
    split
    · exact refuses_error nofun
    · exact refuses_ok _
  have hgrants : ∀ oc, Refuses (loadGrants env tv req oc) := by
    intro oc
    unfold loadGrants
    split
    · split
      · exact refuses_ok _
      · exact refuses_error nofun
    · exact refuses_ok _
  have hpolicy : ∀ input oc, Refuses (checkPolicy env input oc) := by
    intro input oc
    unfold checkPolicy
    split
    · exact refuses_error nofun
    · dsimp only
      split
      · exact refuses_ok _
      · exact refuses_error nofun
  have hrate : ∀ settings verified oc, Refuses (checkRate env tv settings req verified oc) := by
    intro settings verified oc
    refine (refuses_checkBucket _ oc).bind fun _ => ?_
    split
    · exact refuses_checkBucket _ oc
    · exact refuses_ok _
  have hargs : ∀ oc, Refuses (checkArgs tv req oc) := by
    intro oc
    unfold checkArgs
    split
    · exact refuses_ok _
    · exact refuses_error nofun
  exact hstatus.bind fun oc => (hkill _ oc).bind fun _ => (henabled oc).bind fun settings =>
    (htenants _).bind fun _ => (hgrants _).bind fun grants => (hpolicy _ _).bind fun _ =>
    (hrate settings _ _).bind fun _ => (hargs _).bind fun _ => refuses_ok _

/-! ## Dispatch -/

/-- What is left behind the tier gate: the kill recheck and the catalog. -/
def Open (env : Answers) (tv : ToolVersion) (req : Request) : Prop :=
  env.isStillKilled req.tenant req.toolID tv.version = none ∧
    (env.backendFor req.toolID).isSome = true

theorem dispatch_invoked_iff :
    (dispatch env tv req tier oc).invoked.isSome = true ↔ Open env tv req := by
  unfold dispatch Open
  cases hkill : env.isStillKilled req.tenant req.toolID tv.version with
  | some scope => simp [checkKill]
  | none =>
    cases env.backendFor req.toolID with
    | none => simp [checkKill]
    | some target =>
      simp only [checkKill, Option.isSome_some, and_self, iff_true]
      split
      · rfl
      · split
        · rfl
        · split <;> rfl

theorem dispatch_not_stubbed (h : (dispatch env tv req tier oc).invoked = none) :
    (dispatch env tv req tier oc).outcome.decision ≠ .stubbed := by
  have hclosed : ¬ Open env tv req := by
    rw [← dispatch_invoked_iff, h]
    exact Bool.false_ne_true
  unfold dispatch
  cases hkill : env.isStillKilled req.tenant req.toolID tv.version with
  | some scope => exact nofun
  | none =>
    cases hbackend : env.backendFor req.toolID with
    | none => exact nofun
    | some target => exact absurd ⟨hkill, by rw [hbackend]; rfl⟩ hclosed

/-- How a run ends: refused before the tier gate, stubbed there, refused there for want of a
grant, or behind it. -/
inductive Ends (sha256 : Bytes → Bytes) (proposals : Option ProposalVerifier) (env : Answers)
    (tv : ToolVersion) (settings : TenantToolSettings) (req : Request) : Result → Prop where
  | refused (oc : Outcome)
      (hadmitted : ¬ Admitted env tv settings req (Verified sha256 proposals tv settings req))
      (hdecision : oc.decision ≠ .stubbed) : Ends sha256 proposals env tv settings req ⟨oc, none⟩
  | stubbed (oc : Outcome)
      (hadmitted : Admitted env tv settings req (Verified sha256 proposals tv settings req))
      (hstubs : Stubs req (effectiveTier tv settings)) (hdecision : oc.decision = .stubbed) :
      Ends sha256 proposals env tv settings req ⟨oc, none⟩
  | unapproved (oc : Outcome) (hstubs : ¬ Stubs req (effectiveTier tv settings))
      (hgated : (effectiveTier tv settings).Gated)
      (hverified : ¬ Verified sha256 proposals tv settings req)
      (hdecision : oc.decision ≠ .stubbed) : Ends sha256 proposals env tv settings req ⟨oc, none⟩
  | passed (oc : Outcome)
      (hadmitted : Admitted env tv settings req (Verified sha256 proposals tv settings req))
      (hstubs : ¬ Stubs req (effectiveTier tv settings))
      (hverified : (effectiveTier tv settings).Gated → Verified sha256 proposals tv settings req) :
      Ends sha256 proposals env tv settings req (dispatch env tv req (effectiveTier tv settings) oc)

theorem ends (sha256 : Bytes → Bytes) (proposals : Option ProposalVerifier) (env : Answers)
    (tv : ToolVersion) (settings : TenantToolSettings) (req : Request) :
    Ends sha256 proposals env tv settings req (outcome sha256 proposals env tv settings req) := by
  change Ends _ _ _ _ _ _ (enforce sha256 proposals env tv (some (some settings)) req)
  unfold enforce
  cases hprepare : prepare sha256 proposals env tv (some (some settings)) req with
  | error e =>
    refine .refused e (fun hadmitted => ?_) (refuses_prepare _ e hprepare)
    obtain ⟨oc, hok⟩ := hadmitted.prepare
    rw [hprepare] at hok
    cases hok
  | ok found =>
    obtain ⟨hsettings, hadmitted⟩ := admitted_of_prepare hprepare
    obtain ⟨settings', oc⟩ := found
    obtain rfl : settings' = settings := hsettings
    dsimp only
    unfold tierGate
    by_cases hstubs : Stubs req (effectiveTier tv settings')
    · rw [if_pos hstubs]
      exact .stubbed _ hadmitted hstubs rfl
    · rw [if_neg hstubs]
      by_cases hverified : Verified sha256 proposals tv settings' req
      · have hsome := verified_iff.mp hverified
        rw [if_neg fun h => by rw [Option.isNone_iff_eq_none] at h; rw [h.2] at hsome; cases hsome]
        exact .passed oc hadmitted hstubs fun _ => hverified
      · have hnone :
            (verifiedProposal sha256 proposals (effectiveTier tv settings') req).isNone = true := by
          rw [verified_iff, Option.not_isSome_iff_eq_none] at hverified
          rw [hverified]
          rfl
        by_cases hgated : (effectiveTier tv settings').Gated
        · rw [if_pos ⟨hgated, hnone⟩]
          exact .unapproved _ hstubs hgated hverified nofun
        · rw [if_neg fun h => hgated h.1]
          exact .passed oc hadmitted hstubs fun h => absurd h hgated

/-- A call is dispatched when it is admitted, not stubbed, approved if its tier is gated, and
the rest of the way is open. -/
theorem reaches_iff : Reaches sha256 proposals env tv settings req ↔
    Admitted env tv settings req (Verified sha256 proposals tv settings req) ∧
      ¬ Stubs req (effectiveTier tv settings) ∧
      ((effectiveTier tv settings).Gated → Verified sha256 proposals tv settings req) ∧
      Open env tv req := by
  have hends := ends sha256 proposals env tv settings req
  unfold Reaches
  generalize outcome sha256 proposals env tv settings req = result at hends ⊢
  cases hends with
  | refused oc hadmitted _ => exact iff_of_false Bool.false_ne_true fun h => hadmitted h.1
  | stubbed oc _ hstubs _ => exact iff_of_false Bool.false_ne_true fun h => h.2.1 hstubs
  | unapproved oc _ hgated hverified _ =>
    exact iff_of_false Bool.false_ne_true fun h => hverified (h.2.2.1 hgated)
  | passed oc hadmitted hstubs hverified =>
    rw [dispatch_invoked_iff]
    exact ⟨fun h => ⟨hadmitted, hstubs, hverified, h⟩, fun h => h.2.2.2⟩

theorem refused_iff : Refused sha256 proposals env tv settings req ↔
    ¬ Reaches sha256 proposals env tv settings req ∧
      ¬ (Admitted env tv settings req (Verified sha256 proposals tv settings req) ∧
        Stubs req (effectiveTier tv settings)) := by
  have hends := ends sha256 proposals env tv settings req
  unfold Refused Reaches
  generalize outcome sha256 proposals env tv settings req = result at hends ⊢
  cases hends with
  | refused oc hadmitted hdecision =>
    exact iff_of_true ⟨rfl, hdecision⟩ ⟨Bool.false_ne_true, fun h => hadmitted h.1⟩
  | stubbed oc hadmitted hstubs hdecision =>
    exact iff_of_false (fun h => h.2 hdecision) fun h => h.2 ⟨hadmitted, hstubs⟩
  | unapproved oc hstubs _ _ hdecision =>
    exact iff_of_true ⟨rfl, hdecision⟩ ⟨Bool.false_ne_true, fun h => hstubs h.2⟩
  | passed oc _ hstubs _ =>
    rw [Option.not_isSome_iff_eq_none]
    exact ⟨fun h => ⟨h.1, fun hstub => hstubs hstub.2⟩, fun h => ⟨h.1, dispatch_not_stubbed h.1⟩⟩

/-! ## Calls that can get through -/

/-- What no answer of a collaborator makes up for. -/
structure Callable (tv : ToolVersion) (settings : TenantToolSettings) (req : Request) : Prop where
  live : tv.status = .published ∨ tv.status = .deprecated
  enabled : settings.enabled = true
  own : (affectedURNs tv.inputSchema req.args req.tenant).any (crossTenant req.tenant) = false
  allowed : policyAllows tv settings req (affectedOboURNs tv.inputSchema req.args req.tenant) = true
  valid : validateArgs tv.inputSchema req.args = []

/-- Every collaborator lets the call through, the bucket of the agent perhaps not. -/
def openAnswers (agent : Bool) : Answers where
  isKilled _ _ _ := none
  grantsFor _ _ urns := some urns
  policyUp := true
  tenantRate _ _ := some (true, 0)
  agentRate _ _ := some (agent, 0)
  isStillKilled _ _ _ := none
  backendFor _ := some ⟨[], [], 0⟩
  invoke _ _ _ := .ok []

theorem open_openAnswers (agent : Bool) : Open (openAnswers agent) tv req := ⟨rfl, rfl⟩

theorem policyAllows_iff {grants : List Bytes} : policyAllows tv settings req grants = true ↔
    (policyInput id tv settings req tv.permissionTier [] none).toolsetOk = true ∧
      (req.oboSub = [] ∨ ∀ urn ∈ affectedOboURNs tv.inputSchema req.args req.tenant, urn ∈ grants) ∧
      (policyInput id tv settings req tv.permissionTier [] none).constraintsOk = true := by
  have htier : (policyInput id tv settings req tv.permissionTier grants none).tierOk = true :=
    decide_eq_true le_rfl
  have hobo : (policyInput id tv settings req tv.permissionTier grants none).oboGrantOk = true ↔
      (req.oboSub = [] ∨ ∀ urn ∈ affectedOboURNs tv.inputSchema req.args req.tenant,
        urn ∈ grants) :=
    decide_eq_true_iff
  unfold policyAllows PolicyInput.decision
  split
  · next h => exact iff_of_true rfl ⟨h.1, hobo.mp h.2.1, h.2.2.2.1⟩
  · next h =>
    refine iff_of_false ?_ fun h' => h ⟨h'.1, hobo.mpr h'.2.1, htier, h'.2.2, rfl⟩
    split <;> exact Bool.false_ne_true

theorem Admitted.callable {verified : Prop} (h : Admitted env tv settings req verified) :
    Callable tv settings req := by
  obtain ⟨grants, -, -, hallow⟩ := h.granted
  obtain ⟨htoolset, -, hconstraints⟩ := policyAllows_iff.mp hallow
  exact ⟨h.live, h.enabled, h.own,
    policyAllows_iff.mpr ⟨htoolset, .inr fun _ hurn => hurn, hconstraints⟩, h.valid⟩

theorem Callable.admitted (h : Callable tv settings req) {agent : Bool} {verified : Prop}
    (hagent : ¬ verified → agent = true) : Admitted (openAnswers agent)
      tv settings req verified := by
  obtain ⟨htoolset, -, hconstraints⟩ := policyAllows_iff.mp h.allowed
  refine ⟨h.live, rfl, h.enabled, h.own, ?_, ⟨0, rfl⟩, fun hverified => ⟨0, ?_⟩, h.valid⟩
  · unfold grantsOf
    dsimp only
    split
    · exact ⟨_, rfl, rfl, policyAllows_iff.mpr ⟨htoolset, .inr fun _ hurn => hurn, hconstraints⟩⟩
    · next hnone =>
      refine ⟨[], rfl, rfl, policyAllows_iff.mpr ⟨htoolset, ?_, hconstraints⟩⟩
      by_cases hobo : req.oboSub = []
      · exact .inl hobo
      · have hurns := not_not.mp fun hne => hnone ⟨hobo, hne⟩
        rw [hurns]
        exact .inr nofun
  · exact congrArg (fun b => some (b, (0 : Int))) (hagent hverified)

theorem callable_override : Callable tv (settings.override tier) req ↔ Callable tv settings req :=
  ⟨fun h => ⟨h.live, h.enabled, h.own, h.allowed, h.valid⟩,
    fun h => ⟨h.live, h.enabled, h.own, h.allowed, h.valid⟩⟩

theorem Admitted.override {verified verified' : Prop}
    (h : Admitted env tv (settings.override tier) req verified')
    (hverified : verified' → verified) :
    Admitted env tv settings req verified :=
  ⟨h.live, h.notKilled, h.enabled, h.own, h.granted, h.tenantBucket,
    fun hnot => h.agentBucket fun hyes => hnot (hverified hyes), h.valid⟩

/-! ## The write gate -/

/-- When a call is kept behind its approval: a write that is judged by a lower tier, which needs
none, is an evaluation that is stubbed all the same or has a grant; and a tier the override may
be lowered to verifies no grant that the present one does not, nor lifts the gate. -/
structure WriteSafe (sha256 : Bytes → Bytes) (proposals : Option ProposalVerifier)
    (tv : ToolVersion) (settings : TenantToolSettings) (req : Request) : Prop where
  declared : tv.permissionTier.Gated → (effectiveTier tv settings).Gated ∨
    Stubs req (effectiveTier tv settings) ∨
    Verified sha256 proposals tv settings req ∧ req.eval = false
  lowered : ∀ tier, Lowers tier settings → Stubs req (effectiveTier tv (settings.override tier)) ∨
    (Verified sha256 proposals tv (settings.override tier) req →
      Verified sha256 proposals tv settings req) ∧
    ((effectiveTier tv settings).Gated → req.eval = true ∨
      (effectiveTier tv (settings.override tier)).Gated ∨ Verified sha256 proposals tv settings req)

theorem Gated.not_read {t : Tier} (h : t.Gated) : t ≠ .read := by
  rintro rfl
  exact absurd h (by decide)

/-- The write gate holds for a call exactly when the call is refused whatever the collaborators
answer, or is kept behind its approval. -/
theorem write_gated_iff (sha256 : Bytes → Bytes) (proposals : Option ProposalVerifier)
    (tv : ToolVersion) (settings : TenantToolSettings) (req : Request) :
    WriteGated sha256 proposals tv settings req ↔
      (Callable tv settings req → WriteSafe sha256 proposals tv settings req) := by
  constructor
  · intro hgated hcallable
    refine ⟨fun hdeclared => ?_, fun tier hlowers => ?_⟩
    · by_contra hnot
      rw [not_or, not_or] at hnot
      obtain ⟨hlifted, hstubs, hverified⟩ := hnot
      exact hverified (hgated.approved (openAnswers true) (reaches_iff.mpr
        ⟨hcallable.admitted fun _ => rfl, hstubs, fun h => absurd h hlifted, open_openAnswers true⟩)
        hdeclared)
    · by_contra hnot
      rw [not_or, not_and_or] at hnot
      obtain ⟨hstubs, hunsafe⟩ := hnot
      have hcallable' : Callable tv (settings.override tier) req := callable_override.mpr hcallable
      obtain hmore | hlifts := hunsafe
      · -- the grant counts for the lower tier alone, and the bucket of the agent is empty
        obtain ⟨hverified', hverified⟩ := Classical.not_imp.mp hmore
        have hrefused : Refused sha256 proposals (openAnswers false) tv settings req := by
          have hclosed : ¬ Admitted (openAnswers false) tv settings req
              (Verified sha256 proposals tv settings req) := by
            intro hadmitted
            obtain ⟨retry, hretry⟩ := hadmitted.agentBucket hverified
            cases hretry
          exact refused_iff.mpr ⟨fun h => hclosed (reaches_iff.mp h).1, fun h => hclosed h.1⟩
        exact hgated.monotone (openAnswers false) tier hlowers hrefused (reaches_iff.mpr
          ⟨hcallable'.admitted fun h => absurd hverified' h, hstubs, fun _ => hverified',
            open_openAnswers false⟩)
      · -- the lower tier needs no grant
        obtain ⟨hgate, hnot⟩ := Classical.not_imp.mp hlifts
        rw [not_or, not_or] at hnot
        obtain ⟨heval, hlifted, hverified⟩ := hnot
        have hrefused : Refused sha256 proposals (openAnswers true) tv settings req :=
          refused_iff.mpr ⟨fun h => hverified ((reaches_iff.mp h).2.2.1 hgate), fun h =>
            heval h.2.1⟩
        exact hgated.monotone (openAnswers true) tier hlowers hrefused (reaches_iff.mpr
          ⟨hcallable'.admitted fun _ => rfl, hstubs, fun h => absurd h hlifted,
            open_openAnswers true⟩)
  · intro hsafe
    refine ⟨fun env hreaches hdeclared => ?_, fun env tier hlowers hrefused hreaches => ?_⟩
    · obtain ⟨hadmitted, hstubs, hverified, -⟩ := reaches_iff.mp hreaches
      obtain hgate | hstub | happroved := (hsafe hadmitted.callable).declared hdeclared
      · refine ⟨hverified hgate, Bool.eq_false_iff.mpr fun heval => hstubs ⟨heval, ?_⟩⟩
        exact Gated.not_read hgate
      · exact absurd hstub hstubs
      · exact happroved
    · obtain ⟨hadmitted, hstubs, hverified', hopen⟩ := reaches_iff.mp hreaches
      have hcallable := callable_override.mp hadmitted.callable
      obtain ⟨hnot, hnostub⟩ := refused_iff.mp hrefused
      obtain hstub | ⟨hmore, hlifts⟩ := (hsafe hcallable).lowered tier hlowers
      · exact hstubs hstub
      · have hadmitted' := hadmitted.override hmore
        have hstubs' : ¬ Stubs req (effectiveTier tv settings) := fun h => hnostub ⟨hadmitted', h⟩
        refine hnot (reaches_iff.mpr ⟨hadmitted', hstubs', fun hgate => ?_, hopen⟩)
        obtain heval | hgate' | hverified := hlifts hgate
        · exact absurd ⟨heval, Gated.not_read hgate⟩ hstubs'
        · exact hmore (hverified' hgate')
        · exact hverified

/-! ## A write without an approval -/

/-- A published version of a tool that needs an approved proposal. -/
def caseAssign : ToolVersion where
  version := bytes "1.0.0"
  status := .published
  inputSchema := [("additionalProperties", .bool false), ("properties", .obj [])]
  outputSchema := []
  permissionTier := .writeProposal
  costWeight := 1
  p95MS := 500
  sideEffects := bytes "reversible"
  deprecationEndsAt := none

/-- A tenant that has the tool enabled, without an override. -/
def enabledSettings : TenantToolSettings := ⟨true, none, [], none⟩

/-- A call without a grant. -/
def ungrantedRequest (eval : Bool) : Request where
  agentID := bytes "a-1"
  principal := bytes "a-1"
  oboSub := []
  tenant := bytes "t-1"
  toolID := bytes "case.assign"
  args := []
  toolset := []
  proposalGrant := []
  eval := eval
  traceID := []

/-- With the override `read`, the write is dispatched without a grant, also in eval mode; and the
override turns the answer `proposal_required` into a dispatch. -/
theorem not_write_gated :
    ¬ WriteGated id none caseAssign (enabledSettings.override .read) (ungrantedRequest true) ∧
      ¬ WriteGated id none caseAssign enabledSettings (ungrantedRequest false) := by
  have hreaches : ∀ eval, Reaches id none (openAnswers true)
      caseAssign (enabledSettings.override .read)
      (ungrantedRequest eval) := by
    intro eval
    cases eval
    · exact (by decide : (outcome id none (openAnswers true) caseAssign
        (enabledSettings.override .read) (ungrantedRequest false)).invoked.isSome = true)
    · exact (by decide : (outcome id none (openAnswers true) caseAssign
        (enabledSettings.override .read) (ungrantedRequest true)).invoked.isSome = true)
  constructor
  · intro h
    have := (h.approved _ (hreaches true) (.inl rfl)).2
    cases this
  · intro h
    have hrefused : Refused id none (openAnswers true) caseAssign enabledSettings
        (ungrantedRequest false) :=
      ⟨rfl, by decide⟩
    exact h.monotone _ .read nofun hrefused (hreaches false)

end Windrose.ToolPlane

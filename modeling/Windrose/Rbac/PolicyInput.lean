/-
  Rbac/PolicyInput.lean --- the input-projection policy.

  Source: services/rbac-service/policy/datacern_authz_input.rego (package
  datacern.authz_input).

  The policy evaluates a projection slice that comes with the request.  Its
  `reason` is a complete rule of eleven definitions; `reason_ne_none_iff` says
  that just one pair of them can hold with different values.
-/
import Windrose.Foundation.Rules
import Windrose.Rbac.Policy
import Windrose.Rbac.Redis

set_option autoImplicit false

namespace Windrose.Rbac

open Windrose.Foundation

/-- The values of `reason`. -/
inductive PolicyReason where
  | allowed
  | unknownAction
  | unknownPrincipalType
  | scopeExcluded
  | autonomousDisabled
  | workspaceContextRequired
  | workspaceContextForbidden
  | workspaceArchived
  | projectionMiss
  | workspaceNotAssigned
  | denyDefault
  deriving DecidableEq

namespace Projection

/-- The projection of a key that is absent, an empty object: a reference into it is
undefined, which a body reads as false, and `flags` has this value as its default. -/
def empty : Projection where
  actionKnown := false
  actionScoped := false
  autonomousEnabled := false
  flagsFound := false
  admin := false
  wsAdmin := []
  tenantFound := false
  tenantActions := []
  assigned := false
  wsActions := []
  wsArchived := false
  resourceFound := false
  level := .other []
  resourceArchived := false
  workspaceArchivedTenant := false

/-! ## The rules -/

section Rules

variable (proj : Projection) (inp : Input)

/-- `not read_verbs[verb]`. -/
def writes : Bool := !Perm.readVerb (lastPart inp.action)

/-- `is_admin`. -/
def isAdmin : Bool := proj.flagsFound && proj.admin

/-- `ctx_ok`. -/
def ctxOk : Bool :=
  (proj.actionScoped && inp.workspaceID ≠ []) || (!proj.actionScoped && inp.workspaceID = [])

/-- `archived_write_block`. -/
def archivedWriteBlock : Bool := inp.workspaceID ≠ [] && proj.workspaceArchivedTenant && writes inp

/-- `ws_archived_block`. -/
def wsArchivedBlock : Bool := proj.wsArchived && writes inp

/-- `grant_archived_block`. -/
def grantArchivedBlock : Bool := proj.resourceArchived && writes inp

/-- `principal_known`. -/
def principalKnown : Bool :=
  inp.subject.typ = .user || inp.subject.typ = .service || inp.subject.typ = .agentObo ||
    inp.subject.typ = .agentAutonomous

/-- The bodies of `allow`. -/
def allowBodies : List Bool :=
  [ inp.subject.typ = .agentAutonomous && proj.actionKnown && Perm.scopeOk inp &&
      proj.autonomousEnabled,
    inp.subject.typ = .service && inp.subject.scopes.any (· = inp.action),
    Perm.userPath inp && proj.actionKnown && proj.ctxOk inp && proj.isAdmin &&
      !proj.archivedWriteBlock inp,
    Perm.userPath inp && proj.actionKnown && proj.actionScoped && inp.workspaceID ≠ [] &&
      proj.assigned && !proj.wsArchivedBlock inp && proj.wsActions.any (· = inp.action),
    Perm.userPath inp && proj.actionKnown && proj.actionScoped && inp.workspaceID ≠ [] &&
      proj.assigned && !proj.wsArchivedBlock inp && proj.wsAdmin.any (· = inp.workspaceID),
    Perm.userPath inp && proj.actionKnown && !proj.actionScoped && inp.workspaceID = [] &&
      proj.tenantFound && proj.tenantActions.any (· = inp.action),
    Perm.userPath inp && proj.actionKnown && proj.ctxOk inp && inp.resourceURN ≠ [] &&
      proj.resourceFound && Perm.levelVerb proj.level (lastPart inp.action) &&
      !proj.grantArchivedBlock inp ]

/-- `allow`. -/
def allow : Bool := (proj.allowBodies inp).any id

/-- `miss`. -/
def miss : Bool :=
  (proj.actionKnown && Perm.userPath inp && proj.ctxOk inp && !proj.isAdmin && !proj.flagsFound &&
      proj.actionScoped && !proj.assigned) ||
    (proj.actionKnown && Perm.userPath inp && proj.ctxOk inp && !proj.isAdmin && !proj.flagsFound &&
      !proj.actionScoped && !proj.tenantFound)

/-- The definitions of `reason`. -/
def reasonDefs : List (Bool × PolicyReason) :=
  [ (proj.allow inp, .allowed),
    (!proj.allow inp && !proj.actionKnown, .unknownAction),
    (!proj.allow inp && proj.actionKnown && !principalKnown inp, .unknownPrincipalType),
    (!proj.allow inp && proj.actionKnown &&
      (inp.subject.typ = .agentObo || inp.subject.typ = .agentAutonomous) && !Perm.scopeOk inp,
      .scopeExcluded),
    (!proj.allow inp && proj.actionKnown && inp.subject.typ = .agentAutonomous &&
      Perm.scopeOk inp && !proj.autonomousEnabled, .autonomousDisabled),
    (!proj.allow inp && proj.actionKnown && Perm.userPath inp && proj.actionScoped &&
      inp.workspaceID = [], .workspaceContextRequired),
    (!proj.allow inp && proj.actionKnown && Perm.userPath inp && !proj.actionScoped &&
      inp.workspaceID ≠ [], .workspaceContextForbidden),
    (!proj.allow inp && proj.actionKnown && Perm.userPath inp && proj.ctxOk inp &&
      inp.workspaceID ≠ [] && proj.workspaceArchivedTenant && proj.isAdmin && writes inp,
      .workspaceArchived),
    (!proj.allow inp && proj.actionKnown && Perm.userPath inp && proj.ctxOk inp &&
      proj.actionScoped && proj.assigned && proj.wsArchived && writes inp, .workspaceArchived),
    (!proj.allow inp && proj.miss inp, .projectionMiss),
    (!proj.allow inp && proj.actionKnown && Perm.userPath inp && proj.ctxOk inp &&
      proj.actionScoped && !proj.assigned && proj.flagsFound, .workspaceNotAssigned) ]

/-- `reason`; `none` is the evaluation conflict. -/
def reason : Option PolicyReason := complete .denyDefault (proj.reasonDefs inp)

end Rules

/-! ## The closed form -/

section Closed

variable (proj : Projection) (inp : Input)

/-- What the policy knows about a request. -/
def facts : Facts where
  action := inp.action
  workspaceID := inp.workspaceID
  verb := lastPart inp.action
  isScoped := proj.actionScoped
  admin := proj.isAdmin
  wsAdmin := proj.wsAdmin.any (· = inp.workspaceID)
  wsArchived := proj.workspaceArchivedTenant
  entry := if proj.assigned then some ⟨proj.wsActions, proj.wsArchived⟩ else none
  tenantActions := if proj.tenantFound then proj.tenantActions else []
  grant :=
    if inp.resourceURN ≠ [] ∧ proj.resourceFound then some (proj.level, proj.resourceArchived)
    else none

/-- The action is known, the request reaches the user path and has its context. -/
def Base : Prop := proj.actionKnown = true ∧ inp.UserPath ∧ inp.CtxOk proj.actionScoped

end Closed

variable {proj : Projection} {inp : Input}

theorem writes_iff : writes inp = true ↔ (proj.facts inp).Writes := by
  unfold writes Facts.Writes
  rw [Perm.readVerb_eq, Bool.not_eq_true']
  rfl

theorem ctxOk_iff : proj.ctxOk inp = true ↔ inp.CtxOk proj.actionScoped := by
  unfold ctxOk Input.CtxOk
  cases proj.actionScoped <;> simp

theorem adminOpens_iff : (proj.facts inp).AdminOpens ↔
    proj.isAdmin = true ∧ proj.archivedWriteBlock inp = false := by
  unfold Facts.AdminOpens Facts.WriteBlock archivedWriteBlock
  rw [← writes_iff]
  cases writes inp <;> simp [facts]

theorem assignedOpens_iff : (proj.facts inp).AssignedOpens ↔ proj.actionScoped = true ∧
    proj.assigned = true ∧ proj.wsArchivedBlock inp = false ∧
      (inp.action ∈ proj.wsActions ∨ inp.workspaceID ∈ proj.wsAdmin) := by
  unfold Facts.AssignedOpens Facts.EntryOpens wsArchivedBlock
  rw [← writes_iff]
  cases h : proj.assigned with
  | false => simp [facts, h]
  | true => cases writes inp <;> simp [facts, h]

theorem tenantOpens_iff : (proj.facts inp).TenantOpens ↔ proj.actionScoped = false ∧
    proj.tenantFound = true ∧ inp.action ∈ proj.tenantActions := by
  unfold Facts.TenantOpens facts
  cases proj.tenantFound <;> simp

theorem grantOpens_iff : (proj.facts inp).GrantOpens ↔ inp.resourceURN ≠ [] ∧
    proj.resourceFound = true ∧ Perm.levelVerb proj.level (lastPart inp.action) = true ∧
      proj.grantArchivedBlock inp = false := by
  unfold Facts.GrantOpens grantArchivedBlock
  rw [← writes_iff, Perm.levelVerb_eq]
  by_cases hurn : inp.resourceURN = []
  · simp [facts, hurn]
  · cases h : proj.resourceFound with
    | false => simp [facts, h]
    | true => cases writes inp <;> simp [facts, h, hurn]

theorem allow_iff : proj.allow inp = true ↔ inp.ServiceScope ∨
    (proj.actionKnown = true ∧ inp.AutonomousScope ∧ proj.autonomousEnabled = true) ∨
    (proj.Base inp ∧ (proj.facts inp).Opens) := by
  have hsvc : (decide (inp.subject.typ = .service) &&
      inp.subject.scopes.any (· = inp.action)) = true ↔ inp.ServiceScope := by
    simp [Input.ServiceScope]
  have hauto : inp.AutonomousScope ↔
      inp.subject.typ = .agentAutonomous ∧ Perm.scopeOk inp = true := by
    rw [Perm.scopeOk_eq]
    rfl
  have hany : ∀ (l : List Bytes) (a : Bytes), l.any (· = a) = true ↔ a ∈ l := by simp
  simp only [allow, allowBodies, List.any_cons, List.any_nil, id_eq, Bool.or_eq_true, hsvc,
    Bool.or_false, Bool.and_eq_true, Perm.userPath_iff, ctxOk_iff, decide_eq_true_eq, hany,
    Bool.not_eq_true', hauto, Base, Facts.Opens, adminOpens_iff, assignedOpens_iff,
    tenantOpens_iff, grantOpens_iff]
  by_cases hbase : proj.actionKnown = true ∧ inp.UserPath
  · obtain ⟨hknown, huser⟩ := hbase
    -- The context of the request decides which kind of rule applies.
    cases hscoped : proj.actionScoped with
    | true =>
      have hctx : inp.CtxOk true ↔ inp.workspaceID ≠ [] := by simp [Input.CtxOk]
      by_cases hws : inp.workspaceID = []
      · simpa [hknown, huser, hctx, hws] using or_comm
      · simp only [hknown, huser, hctx, hws, ne_eq, not_false_eq_true, true_and, and_true,
          Bool.true_eq_false, false_and, and_false, false_or, and_assoc, and_or_left, or_assoc]
        exact or_left_comm
    | false =>
      have hctx : inp.CtxOk false ↔ inp.workspaceID = [] := by simp [Input.CtxOk]
      by_cases hws : inp.workspaceID = []
      · simp only [hknown, huser, hctx, hws, ne_eq, not_true_eq_false, true_and, and_true,
          Bool.false_eq_true, false_and, and_false, false_or, and_assoc]
        exact or_left_comm
      · simpa [hknown, huser, hctx, hws] using or_comm
  · have hbody : ∀ p : Prop, (inp.UserPath ∧ proj.actionKnown = true) ∧ p ↔ False := by
      intro p
      simp [and_comm, hbase]
    have hbase' : ∀ p : Prop, proj.actionKnown = true ∧ inp.UserPath ∧ p ↔ False := by
      intro p
      rw [← and_assoc]
      simp [hbase]
    simp only [and_assoc] at hbody ⊢
    simp only [hbody, hbase', or_false]
    rw [or_comm, and_left_comm]

theorem allow_of_base (hsvc : ¬inp.ServiceScope) (hbase : proj.Base inp) :
    proj.allow inp = true ↔ (proj.facts inp).Opens := by
  rw [allow_iff]
  constructor
  · rintro (h | ⟨-, ⟨htyp, -⟩, -⟩ | ⟨-, h⟩)
    · exact absurd h hsvc
    · obtain hu | hu | ⟨hu, -⟩ := hbase.2.1 <;> rw [hu] at htyp <;> cases htyp
    · exact h
  · intro h
    exact .inr (.inr ⟨hbase, h⟩)

/-! ## Misses -/

/-- Neither the flags nor the part of the projection the action reads was found. -/
def Absent (proj : Projection) : Prop :=
  proj.flagsFound = false ∧
    if proj.actionScoped = true then proj.assigned = false else proj.tenantFound = false

theorem miss_iff : proj.miss inp = true ↔ proj.Base inp ∧ proj.Absent := by
  unfold miss Base Absent isAdmin
  simp only [Bool.or_eq_true, Bool.and_eq_true, Perm.userPath_iff, ctxOk_iff, Bool.not_eq_true']
  cases proj.flagsFound <;> cases proj.actionScoped <;> simp [and_assoc]

/-! ## Reasons -/

/-- The two reasons that can hold at once: an admin's write into a workspace of the
archived set that the admin is not assigned to. -/
structure Clash (proj : Projection) (inp : Input) : Prop where
  denied : proj.allow inp = false
  base : proj.Base inp
  workspace : inp.workspaceID ≠ []
  archived : proj.workspaceArchivedTenant = true
  admin : proj.isAdmin = true
  writes : writes inp = true
  notAssigned : proj.assigned = false

theorem clash_iff : proj.Clash inp ↔ proj.allow inp = false ∧ proj.Base inp ∧
    (proj.facts inp).admin = true ∧ (proj.facts inp).WriteBlock ∧
      (proj.facts inp).entry = none := by
  have hentry : (proj.facts inp).entry = none ↔ proj.assigned = false := by
    change (if proj.assigned then some _ else none) = none ↔ _
    cases proj.assigned <;> simp
  rw [hentry]
  constructor
  · rintro ⟨hdeny, hbase, hws, harch, hadmin, hw, hassigned⟩
    exact ⟨hdeny, hbase, hadmin, ⟨hws, harch, writes_iff.mp hw⟩, hassigned⟩
  · rintro ⟨hdeny, hbase, hadmin, ⟨hws, harch, hw⟩, hassigned⟩
    exact ⟨hdeny, hbase, hws, harch, hadmin, writes_iff.mpr hw, hassigned⟩

/-- The reasons in the order of `Decide`. -/
def orderedReason (proj : Projection) (inp : Input) : PolicyReason :=
  if proj.allow inp then .allowed
  else if !proj.actionKnown then .unknownAction
  else if !principalKnown inp then .unknownPrincipalType
  else if !Perm.userPath inp then
    if Perm.scopeOk inp then .autonomousDisabled else .scopeExcluded
  else if !proj.ctxOk inp then
    if proj.actionScoped then .workspaceContextRequired else .workspaceContextForbidden
  else if (inp.workspaceID ≠ [] && proj.workspaceArchivedTenant && proj.isAdmin && writes inp) ||
      (proj.actionScoped && proj.assigned && proj.wsArchived && writes inp) then .workspaceArchived
  else if proj.miss inp then .projectionMiss
  else .workspaceNotAssigned

theorem principalKnown_of_userPath (h : Perm.userPath inp = true) : principalKnown inp = true := by
  rw [Perm.userPath_iff] at h
  unfold principalKnown
  obtain h | h | ⟨h, -⟩ := h <;> simp [h]

theorem eq_orderedReason (hclash : ¬proj.Clash inp) {v : PolicyReason}
    (h : (true, v) ∈ proj.reasonDefs inp) : v = proj.orderedReason inp := by
  unfold reasonDefs at h
  simp only [List.mem_cons, Prod.mk.injEq, List.not_mem_nil, or_false, eq_comm (a := true),
    Bool.and_eq_true, Bool.or_eq_true, Bool.not_eq_true', decide_eq_true_eq] at h
  unfold orderedReason
  obtain ⟨h, rfl⟩ | ⟨⟨h, hk⟩, rfl⟩ | ⟨⟨⟨h, hk⟩, hp⟩, rfl⟩ | ⟨⟨⟨⟨h, hk⟩, ht⟩, hs⟩, rfl⟩ |
    ⟨⟨⟨⟨⟨h, hk⟩, ht⟩, hs⟩, -⟩, rfl⟩ | ⟨⟨⟨⟨⟨h, hk⟩, hu⟩, hsc⟩, hws⟩, rfl⟩ |
    ⟨⟨⟨⟨⟨h, hk⟩, hu⟩, hsc⟩, hws⟩, rfl⟩ | ⟨⟨⟨⟨⟨⟨⟨⟨h, hk⟩, hu⟩, hc⟩, hws⟩, ha⟩, had⟩, hw⟩, rfl⟩ |
    ⟨⟨⟨⟨⟨⟨⟨⟨h, hk⟩, hu⟩, hc⟩, hsc⟩, has⟩, har⟩, hw⟩, rfl⟩ | ⟨⟨h, hm⟩, rfl⟩ |
    ⟨⟨⟨⟨⟨⟨⟨h, hk⟩, hu⟩, hc⟩, hsc⟩, has⟩, hf⟩, rfl⟩ := h
  · simp [h]
  · simp [h, hk]
  · simp [h, hk, hp]
  · have hu : Perm.userPath inp = false := by
      unfold Perm.userPath
      obtain ht | ht := ht <;> simp [ht, hs]
    have hp : principalKnown inp = true := by
      unfold principalKnown
      obtain ht | ht := ht <;> simp [ht]
    simp [h, hk, hp, hu, hs]
  · have hu : Perm.userPath inp = false := by simp [Perm.userPath, ht]
    have hp : principalKnown inp = true := by simp [principalKnown, ht]
    simp [h, hk, hp, hu, hs]
  · simp [h, hk, hu, principalKnown_of_userPath hu, hsc, hws, ctxOk]
  · simp [h, hk, hu, principalKnown_of_userPath hu, hsc, hws, ctxOk]
  · simp [h, hk, hu, principalKnown_of_userPath hu, hc, hws, ha, had, hw]
  · simp [h, hk, hu, principalKnown_of_userPath hu, hc, hsc, has, har, hw]
  · obtain ⟨⟨hk, hu, hc⟩, hf, habs⟩ := miss_iff.mp hm
    have hu := Perm.userPath_iff inp |>.mpr hu
    have hc := ctxOk_iff.mpr hc
    have had : proj.isAdmin = false := by simp [isAdmin, hf]
    have has : (proj.actionScoped && proj.assigned) = false := by
      cases hsc : proj.actionScoped with
      | false => rfl
      | true =>
        rw [hsc, if_pos rfl] at habs
        rw [habs]
        rfl
    simp [h, hk, hu, principalKnown_of_userPath hu, hc, had, has, hm]
  · -- An admin whose write is blocked here would clash.
    have hblock : (decide (inp.workspaceID ≠ []) && proj.workspaceArchivedTenant && proj.isAdmin &&
        writes inp) = false := by
      apply Bool.eq_false_of_not_eq_true
      intro hb
      simp only [Bool.and_eq_true, decide_eq_true_eq] at hb
      obtain ⟨⟨⟨hws, harch⟩, had⟩, hw⟩ := hb
      exact hclash ⟨h, ⟨hk, (Perm.userPath_iff inp).mp hu, ctxOk_iff.mp hc⟩, hws, harch, had,
        hw, has⟩
    have hm : proj.miss inp = false := by simp [miss, hf]
    rw [hblock]
    simp [h, hk, hu, principalKnown_of_userPath hu, hc, has, hm]

theorem reason_ne_none_iff : proj.reason inp ≠ none ↔ ¬proj.Clash inp := by
  unfold reason
  rw [complete_ne_none_iff]
  constructor
  · intro hagree hclash
    obtain ⟨hdeny, ⟨hk, huser, hctx⟩, hws, harch, had, hw, has⟩ := hclash
    have hu := (Perm.userPath_iff inp).mpr huser
    have hc := ctxOk_iff.mpr hctx
    have hsc : proj.actionScoped = true := hctx.mpr hws
    have hf : proj.flagsFound = true := by
      unfold isAdmin at had
      exact (Bool.and_eq_true_iff.mp had).1
    have harchived : (true, PolicyReason.workspaceArchived) ∈ proj.reasonDefs inp := by
      simp [reasonDefs, hdeny, hk, hu, hc, hws, harch, had, hw]
    have hassigned : (true, PolicyReason.workspaceNotAssigned) ∈ proj.reasonDefs inp := by
      simp [reasonDefs, hdeny, hk, hu, hc, hsc, has, hf]
    exact PolicyReason.noConfusion (hagree _ _ harchived hassigned)
  · intro hclash v w hv hw
    rw [eq_orderedReason hclash hv, eq_orderedReason hclash hw]

end Projection

end Windrose.Rbac

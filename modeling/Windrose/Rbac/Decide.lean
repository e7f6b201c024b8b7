/-
  Rbac/Decide.lean --- the decision function and its readers.

  Source: services/rbac-service/internal/authz/decide.go and
  services/rbac-service/internal/projection/reader.go (Reader, FlatReader).

  `Reader.decide` is written for a reader in any monad, as the source passes the reader's
  errors on; the readers of an in-memory projection answer at once, and their monad is `Id`.
-/
import Windrose.Rbac.Paths

set_option autoImplicit false

namespace Windrose.Rbac

open Windrose.Foundation

/-! ## Decisions -/

/-- The reason codes. -/
inductive Reason where
  | adminBypass
  | roleAction
  | workspaceAdmin
  | resourceGrant (level : GrantLevel)
  | autonomousScope
  | serviceScope
  | denyDefault
  | unknownAction
  | scopeExcluded
  | autonomousDisabled
  | workspaceCtxRequired
  | workspaceCtxForbid
  | workspaceArchived
  | notAssigned
  | projectionMiss
  | unknownPrincipal
  deriving DecidableEq

/-- `Decision`. -/
structure Decision where
  allowed : Bool
  reason : Reason
  miss : Bool
  deriving DecidableEq

/-- `deny`. -/
def deny (reason : Reason) : Decision := ⟨false, reason, false⟩

/-- `allow`. -/
def allow (reason : Reason) : Decision := ⟨true, reason, false⟩

/-- The denial that sends the caller to the SQL ground truth. -/
def projectionMiss : Decision := ⟨false, .projectionMiss, true⟩

/-- `Reader`: the view of a projection a decision reads; `none` is `found = false`. -/
structure Reader (m : Type → Type) where
  tenantActions (tenant user : Bytes) : m (Option (List Bytes))
  workspace (tenant user workspaceID : Bytes) : m (Option WorkspaceEntry)
  resource (tenant user urnHash : Bytes) : m (Option ResourceEntry)
  userFlags (tenant user : Bytes) : m (Option Flags)
  archivedWorkspaces (tenant : Bytes) : m (Bytes → Bool)
  actionScoped (action : Bytes) : m (Option Bool)
  autonomousEnabled (tenant : Bytes) : m Bool

/-- `hasWsAdmin`; flags that were not found are empty. -/
def hasWsAdmin (flags : Option Flags) (workspaceID : Bytes) : Bool :=
  ((flags.map (·.wsAdmin)).getD []).any fun id => id.text = workspaceID

namespace Reader

section Decide

variable {m : Type → Type} [Monad m] (env : Ext) (r : Reader m) (inp : Input)

/-- `grantOverlay`; `none` when the overlay leaves the decision open. -/
def grantOverlay (verb : Bytes) : m (Option Decision) :=
  if inp.resourceURN = [] then pure none
  else do
    let entry ← r.resource inp.tenant inp.effectiveUser (urnHash env inp.resourceURN)
    match entry with
    | none => pure none
    | some e =>
      if !levelAllowsVerb e.level verb then pure none
      else if e.archived && !archivedReadVerbs verb then pure (some (deny .workspaceArchived))
      else pure (some (allow (.resourceGrant e.level)))

/-- The workspace-scoped path of a user who is no admin. -/
def decideScoped (verb : Bytes) (flags : Option Flags) : m Decision := do
  let entry ← r.workspace inp.tenant inp.effectiveUser inp.workspaceID
  match entry with
  | some e =>
    if e.archived && !archivedReadVerbs verb then pure (deny .workspaceArchived)
    else if inp.action ∈ e.actions then pure (allow .roleAction)
    else if hasWsAdmin flags inp.workspaceID then pure (allow .workspaceAdmin)
    else do
      let overlay ← r.grantOverlay env inp verb
      pure (overlay.getD (deny .denyDefault))
  | none => do
      let overlay ← r.grantOverlay env inp verb
      pure (overlay.getD (if flags.isSome then deny .notAssigned else projectionMiss))

/-- The tenant-scoped path of a user who is no admin. -/
def decideTenant (verb : Bytes) (flags : Option Flags) : m Decision := do
  let actions ← r.tenantActions inp.tenant inp.effectiveUser
  if inp.action ∈ actions.getD [] then pure (allow .roleAction)
  else do
    let overlay ← r.grantOverlay env inp verb
    pure (overlay.getD
      (if actions.isSome || flags.isSome then deny .denyDefault else projectionMiss))

/-- The admin flag: the archived-write block still applies. -/
def decideAdmin (verb : Bytes) : m Decision :=
  if inp.workspaceID = [] then pure (allow .adminBypass)
  else do
    let archived ← r.archivedWorkspaces inp.tenant
    if archived inp.workspaceID && !archivedReadVerbs verb then pure (deny .workspaceArchived)
    else pure (allow .adminBypass)

/-- The user path: the workspace context, then the admin flag, then the paths. -/
def decideUser (isScoped : Bool) : m Decision :=
  if isScoped = true ∧ inp.workspaceID = [] then pure (deny .workspaceCtxRequired)
  else if isScoped = false ∧ inp.workspaceID ≠ [] then pure (deny .workspaceCtxForbid)
  else do
    let flags ← r.userFlags inp.tenant inp.effectiveUser
    if (flags.map (·.admin)).getD false then r.decideAdmin inp (actionVerb inp.action)
    else if isScoped then r.decideScoped env inp (actionVerb inp.action) flags
    else r.decideTenant env inp (actionVerb inp.action) flags

/-- An autonomous agent needs the scope and the tenant's flag. -/
def decideAutonomous : m Decision :=
  if !inScopes inp.subject.scopes inp.action then pure (deny .scopeExcluded)
  else do
    let enabled ← r.autonomousEnabled inp.tenant
    if enabled then pure (allow .autonomousScope) else pure (deny .autonomousDisabled)

/-- `Decide`. -/
protected def decide : m Decision :=
  if inp.tenant = [] ∨ inp.subject.id = [] ∨ inp.action = [] then pure (deny .denyDefault)
  else if inp.subject.typ = .service ∧ inp.action ∈ inp.subject.scopes then
    pure (allow .serviceScope)
  else do
    let entry ← r.actionScoped inp.action
    match entry with
    | none => pure (deny .unknownAction)
    | some isScoped =>
      match inp.subject.typ with
      | .user => r.decideUser env inp isScoped
      | .service => r.decideUser env inp isScoped
      | .agentAutonomous => r.decideAutonomous inp
      | .agentObo =>
        if !inScopes inp.subject.scopes inp.action then pure (deny .scopeExcluded)
        else r.decideUser env inp isScoped
      | .other _ => pure (deny .unknownPrincipal)

end Decide

/-! ## The closed form -/

section Closed

variable (env : Ext) (r : Reader Id) (inp : Input)

/-- What the decision reads about a request whose action the catalog knows. -/
def facts (isScoped : Bool) : Facts where
  action := inp.action
  workspaceID := inp.workspaceID
  verb := actionVerb inp.action
  isScoped := isScoped
  admin := ((r.userFlags inp.tenant inp.effectiveUser).run.map (·.admin)).getD false
  wsAdmin := hasWsAdmin (r.userFlags inp.tenant inp.effectiveUser).run inp.workspaceID
  wsArchived := (r.archivedWorkspaces inp.tenant).run inp.workspaceID
  entry := (r.workspace inp.tenant inp.effectiveUser inp.workspaceID).run
  tenantActions := (r.tenantActions inp.tenant inp.effectiveUser).run.getD []
  grant :=
    if inp.resourceURN = [] then none
    else (r.resource inp.tenant inp.effectiveUser (urnHash env inp.resourceURN)).run.map
      fun e => (e.level, e.archived)

/-- The request is known to the catalog, reaches the user path and has its context. -/
def Base (isScoped : Bool) : Prop :=
  (r.actionScoped inp.action).run = some isScoped ∧ inp.UserPath ∧ inp.CtxOk isScoped

/-- An autonomous agent in scope, for a tenant that enables them. -/
def Autonomous : Prop :=
  (r.actionScoped inp.action).run.isSome = true ∧ inp.AutonomousScope ∧
    (r.autonomousEnabled inp.tenant).run = true

/-- Neither the flags nor the part of the projection the action reads was found. -/
def Absent (isScoped : Bool) : Prop :=
  (r.userFlags inp.tenant inp.effectiveUser).run = none ∧
    if isScoped = true then (r.workspace inp.tenant inp.effectiveUser inp.workspaceID).run = none
    else (r.tenantActions inp.tenant inp.effectiveUser).run = none

variable {env r inp}

@[simp] theorem facts_action (b : Bool) : (r.facts env inp b).action = inp.action := rfl

@[simp] theorem facts_verb (b : Bool) : (r.facts env inp b).verb = actionVerb inp.action := rfl

@[simp] theorem facts_isScoped (b : Bool) : (r.facts env inp b).isScoped = b := rfl

@[simp] theorem facts_workspaceID (b : Bool) :
    (r.facts env inp b).workspaceID = inp.workspaceID := rfl

/-- The overlay decides when the level of a grant allows the verb, and allows when
the grant is open too. -/
theorem grantOverlay_spec (isScoped : Bool) : (r.grantOverlay env inp (actionVerb inp.action)).run =
      match (r.facts env inp isScoped).grant with
      | none => none
      | some g =>
        if levelAllowsVerb g.1 (actionVerb inp.action) = false then none
        else if (r.facts env inp isScoped).GrantOpens then some (allow (.resourceGrant g.1))
        else some (deny .workspaceArchived) := by
  unfold grantOverlay Facts.GrantOpens Facts.Writes facts
  by_cases hurn : inp.resourceURN = []
  · simp [hurn]
  · simp only [hurn, if_false, Id.run_bind]
    cases (r.resource inp.tenant inp.effectiveUser (urnHash env inp.resourceURN)).run with
    | none => rfl
    | some e =>
      obtain ⟨urn, level, workspaceID, archived⟩ := e
      simp only [apply_ite Id.run, Id.run_pure, Option.map_some]
      cases hlevel : levelAllowsVerb level (actionVerb inp.action) with
      | false => simp
      | true =>
        cases archived <;> cases hread : archivedReadVerbs (actionVerb inp.action) <;>
          simp [hlevel]

/-- The overlay allows exactly when the grant opens, whatever denial it falls back to. -/
theorem grantOverlay_allowed_iff {d : Decision} (hd : d.allowed = false) (isScoped : Bool) :
    ((r.grantOverlay env inp (actionVerb inp.action)).run.getD d).allowed = true ↔
      (r.facts env inp isScoped).GrantOpens := by
  rw [grantOverlay_spec isScoped]
  cases hgrant : (r.facts env inp isScoped).grant with
  | none => simp [Facts.GrantOpens, hgrant, hd]
  | some g =>
    simp only
    by_cases hlevel : levelAllowsVerb g.1 (actionVerb inp.action) = false
    · simp [Facts.GrantOpens, hgrant, hd, hlevel]
    · rw [if_neg hlevel]
      split
      · simp_all [allow]
      · simp_all [deny]

theorem decideScoped_allowed_iff (hadmin : (r.facts env inp true).admin = false) :
    (r.decideScoped env inp (actionVerb inp.action)
        (r.userFlags inp.tenant inp.effectiveUser).run).run.allowed = true ↔
      ¬(r.facts env inp true).ArchivedDeny ∧ (r.facts env inp true).Opens := by
  have hentry : (r.facts env inp true).entry =
    (r.workspace inp.tenant inp.effectiveUser inp.workspaceID).run := rfl
  have hwrites : (r.facts env inp true).Writes ↔
    archivedReadVerbs (actionVerb inp.action) = false := Iff.rfl
  have hwsAdmin : (r.facts env inp true).wsAdmin =
    hasWsAdmin (r.userFlags inp.tenant inp.effectiveUser).run inp.workspaceID := rfl
  unfold decideScoped
  rw [Id.run_bind, ← hentry]
  simp only [Facts.ArchivedDeny, Facts.Opens, Facts.AdminOpens, Facts.AssignedOpens,
    Facts.TenantOpens, Facts.EntryOpens, hadmin, hwrites, hwsAdmin,
    facts_isScoped, facts_action]
  cases (r.facts env inp true).entry with
  | none =>
    simp only [Id.run_bind, Id.run_pure]
    rw [grantOverlay_allowed_iff (by split <;> rfl) true]
    simp
  | some e =>
    by_cases hblock : e.archived = true ∧ archivedReadVerbs (actionVerb inp.action) = false
    · simp [hblock, deny]
    · have hif : (e.archived && !archivedReadVerbs (actionVerb inp.action)) = false := by
        simpa using hblock
      have hopen : e.archived = true → archivedReadVerbs (actionVerb inp.action) = true := by
        simpa using hblock
      simp only [hif, Bool.false_eq_true, if_false, apply_ite Id.run, Id.run_pure, Id.run_bind]
      by_cases hrole : inp.action ∈ e.actions
      · simpa [hrole, allow] using ⟨hopen, .inl hopen⟩
      · rw [if_neg hrole]
        cases hws : hasWsAdmin (r.userFlags inp.tenant inp.effectiveUser).run inp.workspaceID with
        | true => simpa [allow] using ⟨hopen, .inl hopen⟩
        | false =>
          simp only [Bool.false_eq_true, if_false]
          rw [grantOverlay_allowed_iff rfl true]
          simpa [hrole] using fun _ => hopen

theorem decideTenant_allowed_iff (hadmin : (r.facts env inp false).admin = false) :
    (r.decideTenant env inp (actionVerb inp.action)
        (r.userFlags inp.tenant inp.effectiveUser).run).run.allowed = true ↔
      ¬(r.facts env inp false).ArchivedDeny ∧ (r.facts env inp false).Opens := by
  have hactions : (r.facts env inp false).tenantActions =
    (r.tenantActions inp.tenant inp.effectiveUser).run.getD [] := rfl
  unfold decideTenant
  simp only [Facts.ArchivedDeny, Facts.Opens, Facts.AdminOpens, Facts.AssignedOpens,
    Facts.TenantOpens, hadmin, hactions, facts_isScoped, facts_action, Id.run_bind,
      apply_ite Id.run,
    Id.run_pure]
  by_cases hmem : inp.action ∈ (r.tenantActions inp.tenant inp.effectiveUser).run.getD []
  · simp [hmem, allow]
  · rw [if_neg hmem, grantOverlay_allowed_iff (by split <;> rfl) false]
    simp [hmem]

theorem decideAdmin_allowed_iff (isScoped : Bool)
    (hadmin : (r.facts env inp isScoped).admin = true) :
    (r.decideAdmin inp (actionVerb inp.action)).run.allowed = true ↔
      ¬(r.facts env inp isScoped).ArchivedDeny ∧ (r.facts env inp isScoped).Opens := by
  have hblock : (r.facts env inp isScoped).WriteBlock ↔ inp.workspaceID ≠ [] ∧
    (r.archivedWorkspaces inp.tenant).run inp.workspaceID = true ∧
    archivedReadVerbs (actionVerb inp.action) = false := Iff.rfl
  unfold decideAdmin
  simp only [Facts.ArchivedDeny, Facts.Opens, Facts.AdminOpens, hadmin, hblock]
  by_cases hws : inp.workspaceID = []
  · simp [hws, allow]
  · cases harch : (r.archivedWorkspaces inp.tenant).run inp.workspaceID <;>
      cases hread : archivedReadVerbs (actionVerb inp.action) <;>
      simp [hws, harch, allow, deny]

/-- The user path with its context, for what no denial without a miss has. -/
theorem decideUser_iff {P : Decision → Prop} (hdeny : ∀ reason, ¬P (deny reason))
    (isScoped : Bool) :
    P (r.decideUser env inp isScoped).run ↔ inp.CtxOk isScoped ∧
      P (if (r.facts env inp isScoped).admin then (r.decideAdmin inp (actionVerb inp.action)).run
        else if isScoped then (r.decideScoped env inp (actionVerb inp.action)
          (r.userFlags inp.tenant inp.effectiveUser).run).run
        else (r.decideTenant env inp (actionVerb inp.action)
          (r.userFlags inp.tenant inp.effectiveUser).run).run) := by
  have hadmin : (r.facts env inp isScoped).admin =
    ((r.userFlags inp.tenant inp.effectiveUser).run.map (·.admin)).getD false := rfl
  unfold decideUser
  simp only [apply_ite Id.run, Id.run_pure, Id.run_bind, ← hadmin]
  by_cases hreq : isScoped = true ∧ inp.workspaceID = []
  · simp [hreq, Input.CtxOk, hdeny]
  · rw [if_neg hreq]
    by_cases hforbid : isScoped = false ∧ inp.workspaceID ≠ []
    · simp [hforbid, Input.CtxOk, hdeny]
    · have hctx : inp.CtxOk isScoped := by
        cases isScoped <;> simp_all [Input.CtxOk]
      simp only [if_neg hforbid, hctx, true_and]

/-- The user path allows when the context is right, no archived denial stands before
the paths, and one of them opens. -/
theorem decideUser_allowed_iff (isScoped : Bool) :
    (r.decideUser env inp isScoped).run.allowed = true ↔ inp.CtxOk isScoped ∧
      ¬(r.facts env inp isScoped).ArchivedDeny ∧ (r.facts env inp isScoped).Opens := by
  rw [decideUser_iff (P := (·.allowed = true)) (fun _ => Bool.false_ne_true) isScoped]
  refine and_congr_right fun _ => ?_
  cases ha : (r.facts env inp isScoped).admin with
  | true => exact decideAdmin_allowed_iff isScoped ha
  | false =>
    cases isScoped with
    | true => exact decideScoped_allowed_iff ha
    | false => exact decideTenant_allowed_iff ha

theorem decideAutonomous_allowed_iff : (r.decideAutonomous inp).run.allowed = true ↔
      inScopes inp.subject.scopes inp.action = true ∧ (r.autonomousEnabled inp.tenant).run =
        true := by
  unfold decideAutonomous
  cases inScopes inp.subject.scopes inp.action <;>
    cases h : (r.autonomousEnabled inp.tenant).run <;> simp [h, deny, allow]

/-- Where `Decide` leads past the blanks and the scopes of a service, for what no denial
without a miss has. -/
theorem decide_iff {P : Decision → Prop} (hdeny : ∀ reason, ¬P (deny reason)) :
    P (r.decide env inp).run ↔ ¬inp.Blank ∧ ((inp.ServiceScope ∧ P (allow .serviceScope)) ∨
      ¬inp.ServiceScope ∧ ∃ isScoped, (r.actionScoped inp.action).run = some isScoped ∧
        ((inp.UserPath ∧ P (r.decideUser env inp isScoped).run) ∨
          inp.subject.typ = .agentAutonomous ∧ P (r.decideAutonomous inp).run)) := by
  unfold Reader.decide
  by_cases hblank : inp.tenant = [] ∨ inp.subject.id = [] ∨ inp.action = []
  · simp [hblank, Input.Blank, hdeny]
  · have hblank' : ¬inp.Blank := hblank
    rw [if_neg hblank]
    by_cases hsvc : inp.subject.typ = .service ∧ inp.action ∈ inp.subject.scopes
    · have hsvc' : inp.ServiceScope := hsvc
      simp [hsvc, hblank', hsvc']
    · have hsvc' : ¬inp.ServiceScope := hsvc
      rw [if_neg hsvc, Id.run_bind]
      simp only [hblank', hsvc', not_false_eq_true, true_and, false_and, false_or]
      cases (r.actionScoped inp.action).run with
      | none => simp [hdeny]
      | some isScoped =>
        simp only [Option.some.injEq, exists_eq_left']
        cases htyp : inp.subject.typ with
        | user => simp [Input.UserPath, htyp]
        | service => simp [Input.UserPath, htyp]
        | agentAutonomous => simp [Input.UserPath, htyp]
        | agentObo =>
          cases hscope : inScopes inp.subject.scopes inp.action <;>
            simp [Input.UserPath, htyp, hscope, hdeny]
        | other text => simp [Input.UserPath, htyp, hdeny]

theorem decide_allowed_iff :
    (r.decide env inp).run.allowed = true ↔ ¬inp.Blank ∧ (inp.ServiceScope ∨ r.Autonomous inp ∨
      ∃ isScoped, r.Base inp isScoped ∧ ¬(r.facts env inp isScoped).ArchivedDeny ∧
        (r.facts env inp isScoped).Opens) := by
  rw [decide_iff (P := (·.allowed = true)) fun _ => Bool.false_ne_true]
  refine and_congr_right fun _ => ?_
  by_cases hsvc : inp.ServiceScope
  · simp [hsvc, allow]
  · simp only [hsvc, false_and, false_or, not_false_eq_true, true_and, decideUser_allowed_iff,
      decideAutonomous_allowed_iff, Autonomous, Base, Input.AutonomousScope]
    cases (r.actionScoped inp.action).run <;> simp [and_assoc, or_comm]

theorem Base.eq {b c : Bool} (hb : r.Base inp b) (hc : r.Base inp c) : b = c :=
  Option.some.inj (hb.1.symm.trans hc.1)

theorem Base.not_autonomous {b : Bool} (h : r.Base inp b) : ¬r.Autonomous inp := by
  rintro ⟨-, ⟨htyp, -⟩, -⟩
  obtain hu | hu | ⟨hu, -⟩ := h.2.1 <;> rw [hu] at htyp <;> cases htyp

theorem decide_allowed_of_base {b : Bool} (hblank : ¬inp.Blank) (hsvc : ¬inp.ServiceScope)
    (hbase : r.Base inp b) : (r.decide env inp).run.allowed = true ↔
      ¬(r.facts env inp b).ArchivedDeny ∧ (r.facts env inp b).Opens := by
  rw [decide_allowed_iff]
  constructor
  · rintro ⟨-, h | h | ⟨c, hc, h⟩⟩
    · exact absurd h hsvc
    · exact absurd h hbase.not_autonomous
    · rw [hbase.eq hc]
      exact h
  · intro h
    exact ⟨hblank, .inr (.inr ⟨b, hbase, h⟩)⟩

/-! ## Misses -/

theorem grantOverlay_eq_none_iff (isScoped : Bool) :
    (r.grantOverlay env inp (actionVerb inp.action)).run = none ↔
      ¬(r.facts env inp isScoped).GrantDecides := by
  rw [grantOverlay_spec isScoped]
  unfold Facts.GrantDecides
  cases (r.facts env inp isScoped).grant with
  | none => simp
  | some g =>
    simp only [Option.mem_some_iff, exists_eq_left', facts_verb]
    by_cases hlevel : levelAllowsVerb g.1 (actionVerb inp.action) = false
    · simp [hlevel]
    · rw [if_neg hlevel]
      split <;> simpa using hlevel

theorem grantOverlay_miss_iff (d : Decision) (isScoped : Bool) :
    ((r.grantOverlay env inp (actionVerb inp.action)).run.getD d).miss = true ↔
      d.miss = true ∧ ¬(r.facts env inp isScoped).GrantDecides := by
  rw [← grantOverlay_eq_none_iff isScoped]
  have hspec := @grantOverlay_spec env r inp isScoped
  cases hov : (r.grantOverlay env inp (actionVerb inp.action)).run with
  | none => simp
  | some d' =>
    have hmiss : d'.miss = false := by
      rw [hov] at hspec
      split at hspec
      · cases hspec
      · split at hspec
        · cases hspec
        · split at hspec <;> rw [Option.some.inj hspec] <;> rfl
    simp [hmiss]

theorem decideScoped_miss_iff (flags : Option Flags) :
    (r.decideScoped env inp (actionVerb inp.action) flags).run.miss = true ↔
      (flags = none ∧ (r.workspace inp.tenant inp.effectiveUser inp.workspaceID).run = none) ∧
        ¬(r.facts env inp true).GrantDecides := by
  unfold decideScoped
  rw [Id.run_bind]
  cases (r.workspace inp.tenant inp.effectiveUser inp.workspaceID).run with
  | none =>
    simp only [Id.run_bind, Id.run_pure]
    rw [grantOverlay_miss_iff _ true]
    cases flags <;> simp [deny, projectionMiss]
  | some e =>
    simp only [reduceCtorEq, and_false, false_and, iff_false]
    simp only [apply_ite Id.run, Id.run_pure, Id.run_bind]
    split
    · exact Bool.false_ne_true
    · split
      · exact Bool.false_ne_true
      · split
        · exact Bool.false_ne_true
        · rw [grantOverlay_miss_iff _ true]
          simp [deny]

theorem decideTenant_miss_iff (flags : Option Flags) :
    (r.decideTenant env inp (actionVerb inp.action) flags).run.miss = true ↔
      (flags = none ∧ (r.tenantActions inp.tenant inp.effectiveUser).run = none) ∧
        ¬(r.facts env inp false).GrantDecides := by
  unfold decideTenant
  simp only [Id.run_bind, apply_ite Id.run, Id.run_pure]
  cases (r.tenantActions inp.tenant inp.effectiveUser).run with
  | none =>
    simp only [Option.getD_none, List.not_mem_nil, if_false]
    rw [grantOverlay_miss_iff _ false]
    cases flags <;> simp [deny, projectionMiss]
  | some actions =>
    simp only [reduceCtorEq, and_false, false_and, iff_false]
    split
    · exact Bool.false_ne_true
    · rw [grantOverlay_miss_iff _ false]
      simp [deny]

theorem decideUser_miss_iff (isScoped : Bool) :
    (r.decideUser env inp isScoped).run.miss = true ↔ inp.CtxOk isScoped ∧
      r.Absent inp isScoped ∧ ¬(r.facts env inp isScoped).GrantDecides := by
  rw [decideUser_iff (P := (·.miss = true)) (fun _ => Bool.false_ne_true) isScoped]
  refine and_congr_right fun _ => ?_
  cases ha : (r.facts env inp isScoped).admin with
  | true =>
    have hflags : (r.userFlags inp.tenant inp.effectiveUser).run ≠ none := by
      intro hnone
      simp [facts, hnone] at ha
    simp only [if_true, Absent, hflags, false_and, iff_false]
    unfold decideAdmin
    simp only [apply_ite Id.run, Id.run_pure, Id.run_bind]
    split
    · exact Bool.false_ne_true
    · split <;> exact Bool.false_ne_true
  | false =>
    cases isScoped with
    | true => exact decideScoped_miss_iff _
    | false => exact decideTenant_miss_iff _

theorem decide_miss_iff : (r.decide env inp).run.miss = true ↔ ¬inp.Blank ∧ ¬inp.ServiceScope ∧
      ∃ isScoped, r.Base inp isScoped ∧ r.Absent inp isScoped ∧
        ¬(r.facts env inp isScoped).GrantDecides := by
  have hautonomous : (r.decideAutonomous inp).run.miss = false := by
    unfold decideAutonomous
    cases inScopes inp.subject.scopes inp.action <;>
      cases h : (r.autonomousEnabled inp.tenant).run <;> simp [h, deny, allow]
  rw [decide_iff (P := (·.miss = true)) fun _ => Bool.false_ne_true]
  simp [allow, decideUser_miss_iff, hautonomous, Base, and_assoc]

end Closed

end Reader

/-! ## The in-memory reader -/

/-- `FlatReader`: projections by user, with the tenant's and the catalog's context. -/
structure FlatReader where
  flats : GoMap Bytes Flat
  catalog : GoMap Bytes Bool
  archived : Bytes → Bool
  autonomous : Bool

namespace FlatReader

/-- `NewFlatReader`. -/
def newFlatReader (f : Flat) (catalog : GoMap Bytes Bool) (archivedWs : List Uuid) :
    FlatReader where
  flats := AList.singleton f.userID f
  catalog := catalog
  archived := fun w => archivedWs.any (·.text = w)
  autonomous := false

/-- `flat`: a projection of another tenant is a miss. -/
def flat (fr : FlatReader) (tenant user : Bytes) : Option Flat :=
  match fr.flats.lookup user with
  | none => none
  | some f => if f.tenantID ≠ Uuid.ofByte 0 ∧ f.tenantID.text ≠ tenant then none else some f

/-- The `Reader` of an in-memory projection. -/
def reader (env : Ext) (fr : FlatReader) : Reader Id where
  tenantActions tenant user := (fr.flat tenant user).map (·.tenantActions)
  workspace tenant user workspaceID :=
    match fr.flat tenant user with
    | none => none
    | some f =>
      match env.parse workspaceID with
      | none => none
      | some id => f.workspaceActions.lookup id
  resource tenant user urnHash := (fr.flat tenant user).bind (·.resources.lookup urnHash)
  userFlags tenant user := (fr.flat tenant user).map (·.flags)
  archivedWorkspaces _ := fr.archived
  actionScoped action := fr.catalog.lookup action
  autonomousEnabled _ := fr.autonomous

theorem reader_workspace (env : Ext) (fr : FlatReader) (tenant user workspaceID : Bytes) :
    (fr.reader env).workspace tenant user workspaceID =
      (fr.flat tenant user).bind fun f =>
        (env.parse workspaceID).bind (f.workspaceActions.lookup ·) := by
  simp only [reader]
  cases fr.flat tenant user with
  | none => rfl
  | some f => cases env.parse workspaceID <;> rfl

end FlatReader

/-- The user of the small tenant updates the granted dashboard in the archived
workspace. -/
def sampleInput : Input where
  subject := ⟨bytes "u-1", .user, [], []⟩
  action := bytes "chart.dashboard.update"
  resourceURN := bytes "wr:t-a:chart:dashboard/d-9"
  workspaceID := (Uuid.ofByte 3).text
  tenant := (Uuid.ofByte 10).text

/-- The reader of a snapshot's projection, as the SQL fallback builds it, with the
tenant's autonomous flag. -/
def Snapshot.reader (env : Ext) (autonomous : Bool) (s : Snapshot) : Reader Id :=
  FlatReader.reader env { FlatReader.newFlatReader (flatten env s) s.catalog
    s.archivedWorkspaceIDs with autonomous := autonomous }

end Windrose.Rbac

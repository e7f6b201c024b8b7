/-
  Rbac/Policy.lean --- the data-projection policy.

  Source: services/rbac-service/policy/datacern_authz.rego (package
  datacern.authz) and policy_test.go (the shape of `data.perm`).

  A rule of the policy is true when one of its bodies is; a reference that is
  undefined makes its body fail.  The policy has no order among its rules, so its
  closed form (`allow_iff`) is the plain union of the paths, where `Decide` has
  the archived denials before them.
-/
import Windrose.Rbac.Decide

set_option autoImplicit false

namespace Windrose.Rbac

open Windrose.Foundation

/-! ## The verb of an action -/

/-- `parts[count(parts) - 1]` of `split(action, ".")`. -/
def lastPart (action : Bytes) : Bytes := ((action.splitOn 46).getLast?).getD []

theorem exists_last_dot {action : Bytes} (h : (46 : UInt8) ∈ action) :
    ∃ pre suf, action = pre ++ 46 :: suf ∧ 46 ∉ suf := by
  obtain ⟨suf, pre, hrev, hsuf⟩ := List.eq_append_cons_of_mem (List.mem_reverse.mpr h)
  refine ⟨pre.reverse, suf.reverse, ?_, by simpa using hsuf⟩
  have := congrArg List.reverse hrev
  simpa using this

theorem lastPart_of_mem {action : Bytes} (h : (46 : UInt8) ∈ action) :
    lastPart action = actionVerb action := by
  obtain ⟨pre, suf, rfl, hsuf⟩ := exists_last_dot h
  have hlast : lastPart (pre ++ 46 :: suf) = suf := by
    unfold lastPart
    rw [List.splitOn_append_cons_self, List.splitOn_eq_singleton hsuf]
    simp
  have hverb : actionVerb (pre ++ 46 :: suf) = suf := by
    have hall : ∀ c ∈ suf.reverse, (decide (c ≠ 46)) = true := by
      intro c hc
      apply decide_eq_true
      rintro rfl
      exact hsuf (List.mem_reverse.mp hc)
    unfold actionVerb
    rw [if_pos h, List.reverse_append, List.reverse_cons, List.append_assoc,
      List.singleton_append, List.takeWhile_append_of_pos hall]
    simp
  rw [hlast, hverb]

/-! ## The data of the policy -/

/-- `data.perm.tenants[t].users[u].flags`. -/
structure PermFlags where
  admin : Bool
  wsAdmin : List Bytes

/-- `data.perm.tenants[t].users[u]`. -/
structure UserData where
  actions : List Bytes
  ws : Bytes → Option WorkspaceEntry
  res : Bytes → Option (GrantLevel × Bool)
  flags : PermFlags

/-- `data.perm.tenants[t]`. -/
structure TenantData where
  archivedWs : Bytes → Bool
  autonomousEnabled : Bool
  users : Bytes → Option UserData

/-- `data.perm`; the catalog gives the `workspace_scoped` of an action. -/
structure Perm where
  catalog : Bytes → Option Bool
  tenants : Bytes → Option TenantData

namespace Perm

/-! ## The rules -/

section Rules

variable (env : Ext) (perm : Perm) (inp : Input)

/-- `read_verbs`. -/
def readVerb (verb : Bytes) : Bool := verb ∈ [bytes "read", bytes "list", bytes "export"]

/-- `level_verbs`. -/
def levelVerb : GrantLevel → Bytes → Bool
  | .viewer, verb => verb ∈ [bytes "read", bytes "list", bytes "export"]
  | .editor, verb =>
    verb ∈ [bytes "read", bytes "list", bytes "export", bytes "update", bytes "execute",
      bytes "share"]
  | .owner, verb =>
    verb ∈ [bytes "read", bytes "list", bytes "export", bytes "update", bytes "execute",
      bytes "share", bytes "delete", bytes "admin"]
  | .other _, _ => false

/-- `effective_user`: its three definitions exclude each other. -/
def effectiveUser : Bytes :=
  if inp.subject.typ = .agentObo then
    if inp.subject.oboSub ≠ [] then inp.subject.oboSub else inp.subject.id
  else inp.subject.id

/-- `scope_ok`. -/
def scopeOk : Bool :=
  inp.subject.scopes.any (· = inp.action) || inp.subject.scopes.any (· = bytes "*")

/-- `action_known`. -/
def actionKnown : Bool := (perm.catalog inp.action).isSome

/-- `scoped`. -/
def isScoped : Bool := perm.catalog inp.action = some true

/-- `autonomous_enabled`. -/
def autonomousEnabled : Bool := (perm.tenants inp.tenant).any (·.autonomousEnabled)

/-- `user_data`. -/
def userData : Option UserData := (perm.tenants inp.tenant).bind (·.users (effectiveUser inp))

/-- `is_admin`. -/
def isAdmin : Bool := (perm.userData inp).any (·.flags.admin)

/-- `ctx_ok`. -/
def ctxOk : Bool :=
  (perm.isScoped inp && inp.workspaceID ≠ []) || (!perm.isScoped inp && inp.workspaceID = [])

/-- `archived_write_block`. -/
def archivedWriteBlock : Bool :=
  inp.workspaceID ≠ [] && (perm.tenants inp.tenant).any (·.archivedWs inp.workspaceID) &&
    !readVerb (lastPart inp.action)

/-- `user_path`. -/
def userPath : Bool :=
  inp.subject.typ = .user || inp.subject.typ = .service ||
    (inp.subject.typ = .agentObo && scopeOk inp)

/-- `ws_entry_archived_block`. -/
def wsEntryArchivedBlock (entry : WorkspaceEntry) : Bool :=
  entry.archived && !readVerb (lastPart inp.action)

/-- `grant_archived_block`. -/
def grantArchivedBlock (grant : GrantLevel × Bool) : Bool :=
  grant.2 && !readVerb (lastPart inp.action)

/-- `user_data.ws[ws_id]`. -/
def wsEntry : Option WorkspaceEntry := (perm.userData inp).bind (·.ws inp.workspaceID)

/-- `user_data.res[urn_hash]`, for a request that names a resource. -/
def resGrant : Option (GrantLevel × Bool) :=
  if inp.resourceURN = [] then none
  else (perm.userData inp).bind (·.res (urnHash env inp.resourceURN))

/-- The bodies of `allow`. -/
def allowBodies : List Bool :=
  [ inp.subject.typ = .agentAutonomous && perm.actionKnown inp && scopeOk inp &&
      perm.autonomousEnabled inp,
    inp.subject.typ = .service && inp.subject.scopes.any (· = inp.action),
    userPath inp && perm.actionKnown inp && perm.ctxOk inp && perm.isAdmin inp &&
      !perm.archivedWriteBlock inp,
    userPath inp && perm.actionKnown inp && perm.isScoped inp && inp.workspaceID ≠ [] &&
      (perm.wsEntry inp).any fun entry =>
        entry.actions.any (· = inp.action) && !wsEntryArchivedBlock inp entry,
    userPath inp && perm.actionKnown inp && perm.isScoped inp && inp.workspaceID ≠ [] &&
      (perm.wsEntry inp).any fun entry =>
        !wsEntryArchivedBlock inp entry &&
          (perm.userData inp).any fun u => u.flags.wsAdmin.any (· = inp.workspaceID),
    userPath inp && perm.actionKnown inp && !perm.isScoped inp && inp.workspaceID = [] &&
      (perm.userData inp).any fun u => u.actions.any (· = inp.action),
    userPath inp && perm.actionKnown inp && perm.ctxOk inp && inp.resourceURN ≠ [] &&
      (perm.resGrant env inp).any fun grant =>
        levelVerb grant.1 (lastPart inp.action) && !grantArchivedBlock inp grant ]

/-- `allow`. -/
def allow : Bool := (perm.allowBodies env inp).any id

end Rules

/-! ## The closed form -/

theorem readVerb_eq (verb : Bytes) : readVerb verb = archivedReadVerbs verb := rfl

theorem levelVerb_eq (level : GrantLevel) (verb : Bytes) :
    levelVerb level verb = levelAllowsVerb level verb := by
  cases level <;> rfl

theorem effectiveUser_eq (inp : Input) : effectiveUser inp = inp.effectiveUser := by
  unfold effectiveUser Input.effectiveUser
  by_cases h : inp.subject.typ = .agentObo <;> simp [h]

theorem scopeOk_eq (inp : Input) : scopeOk inp = inScopes inp.subject.scopes inp.action := by
  unfold scopeOk inScopes
  induction inp.subject.scopes with
  | nil => rfl
  | cons s ss ih =>
    rw [List.any_cons, List.any_cons, List.any_cons, ← ih]
    cases decide (s = inp.action) <;> cases decide (s = bytes "*") <;> simp

theorem userPath_iff (inp : Input) : userPath inp = true ↔ inp.UserPath := by
  simp [userPath, Input.UserPath, scopeOk_eq, or_assoc]

section Closed

variable (env : Ext) (perm : Perm) (inp : Input)

/-- What the policy knows about a request. -/
def facts (isScoped : Bool) : Facts where
  action := inp.action
  workspaceID := inp.workspaceID
  verb := lastPart inp.action
  isScoped := isScoped
  admin := perm.isAdmin inp
  wsAdmin := (perm.userData inp).any fun u => u.flags.wsAdmin.any (· = inp.workspaceID)
  wsArchived := (perm.tenants inp.tenant).any (·.archivedWs inp.workspaceID)
  entry := perm.wsEntry inp
  tenantActions := ((perm.userData inp).map (·.actions)).getD []
  grant := perm.resGrant env inp

/-- The request is known to the catalog, reaches the user path and has its context. -/
def Base (isScoped : Bool) : Prop :=
  perm.catalog inp.action = some isScoped ∧ inp.UserPath ∧ inp.CtxOk isScoped

/-- An autonomous agent in scope, for a tenant that enables them. -/
def Autonomous : Prop :=
  (perm.catalog inp.action).isSome = true ∧ inp.AutonomousScope ∧
    perm.autonomousEnabled inp = true

end Closed

variable {env : Ext} {perm : Perm} {inp : Input}

theorem ctxOk_iff {isScoped : Bool} (h : perm.catalog inp.action = some isScoped) :
    perm.ctxOk inp = true ↔ inp.CtxOk isScoped := by
  unfold ctxOk Perm.isScoped Input.CtxOk
  rw [h]
  cases isScoped <;> simp

variable {b : Bool}

theorem isScoped_eq (h : perm.catalog inp.action = some b) : perm.isScoped inp = b := by
  unfold Perm.isScoped
  rw [h]
  cases b <;> rfl

theorem assignedOpens_iff : (perm.facts env inp b).AssignedOpens ↔ b = true ∧
      (((perm.wsEntry inp).any fun entry =>
          entry.actions.any (· = inp.action) && !wsEntryArchivedBlock inp entry) = true ∨
        ((perm.wsEntry inp).any fun entry => !wsEntryArchivedBlock inp entry &&
          (perm.userData inp).any fun u => u.flags.wsAdmin.any (· = inp.workspaceID)) = true) := by
  unfold Facts.AssignedOpens Facts.EntryOpens Facts.Writes wsEntryArchivedBlock
  rw [show (perm.facts env inp b).entry = perm.wsEntry inp from rfl]
  cases perm.wsEntry inp with
  | none => simp
  | some entry =>
    have hany : (entry.actions.any (· = inp.action)) = true ↔ inp.action ∈ entry.actions := by simp
    simp only [Option.mem_some_iff, exists_eq_left', Option.any_some, Bool.and_eq_true, hany,
      readVerb_eq, facts]
    cases entry.archived <;> cases archivedReadVerbs (lastPart inp.action) <;> simp

theorem tenantOpens_iff : (perm.facts env inp b).TenantOpens ↔ b = false ∧
      ((perm.userData inp).any fun u => u.actions.any (· = inp.action)) = true := by
  unfold Facts.TenantOpens facts
  cases perm.userData inp <;> simp

theorem grantOpens_iff : (perm.facts env inp b).GrantOpens ↔ inp.resourceURN ≠ [] ∧
      ((perm.resGrant env inp).any fun grant =>
        levelVerb grant.1 (lastPart inp.action) && !grantArchivedBlock inp grant) = true := by
  unfold Facts.GrantOpens Facts.Writes grantArchivedBlock
  rw [show (perm.facts env inp b).grant = perm.resGrant env inp from rfl]
  by_cases hurn : inp.resourceURN = []
  · simp [resGrant, hurn]
  · cases perm.resGrant env inp with
    | none => simp
    | some grant =>
      simp only [Option.mem_some_iff, exists_eq_left', Option.any_some, Bool.and_eq_true,
        levelVerb_eq, readVerb_eq, facts]
      cases grant.2 <;> cases archivedReadVerbs (lastPart inp.action) <;> simp [hurn]

theorem adminOpens_iff : (perm.facts env inp b).AdminOpens ↔
      perm.isAdmin inp = true ∧ perm.archivedWriteBlock inp = false := by
  unfold Facts.AdminOpens Facts.WriteBlock Facts.Writes archivedWriteBlock facts
  simp only [readVerb_eq]
  cases archivedReadVerbs (lastPart inp.action) <;> simp

theorem allow_iff : perm.allow env inp = true ↔ inp.ServiceScope ∨ perm.Autonomous inp ∨
      ∃ isScoped, perm.Base inp isScoped ∧ (perm.facts env inp isScoped).Opens := by
  have hsvc : (decide (inp.subject.typ = .service) &&
      inp.subject.scopes.any (· = inp.action)) = true ↔ inp.ServiceScope := by
    simp [Input.ServiceScope]
  simp only [allow, allowBodies, List.any_cons, List.any_nil, id_eq, Bool.or_eq_true, hsvc,
    Bool.or_false]
  unfold Autonomous Base
  cases hcat : perm.catalog inp.action with
  | none => simp [actionKnown, hcat]
  | some b =>
    simp only [Option.some.injEq, and_assoc, exists_eq_left', Facts.Opens, adminOpens_iff,
      assignedOpens_iff, tenantOpens_iff, grantOpens_iff]
    have hknown : perm.actionKnown inp = true := by simp [actionKnown, hcat]
    have hauto : inp.AutonomousScope ↔ inp.subject.typ = .agentAutonomous ∧ scopeOk inp = true := by
      rw [scopeOk_eq]
      rfl
    simp only [hknown, isScoped_eq hcat, Bool.and_eq_true, Bool.and_true, userPath_iff,
      ctxOk_iff hcat, decide_eq_true_eq, Bool.not_eq_true', hauto, Option.isSome_some, true_and]
    -- Off the user path no rule but the first two applies; on it the context of the
    -- request decides which kind of rule does.
    by_cases huser : inp.UserPath
    · cases b with
      | true =>
        have hctx : inp.CtxOk true ↔ inp.workspaceID ≠ [] := by simp [Input.CtxOk]
        by_cases hws : inp.workspaceID = []
        · simpa [huser, hctx, hws] using or_comm
        · simpa [huser, hctx, hws, or_assoc] using or_left_comm
      | false =>
        have hctx : inp.CtxOk false ↔ inp.workspaceID = [] := by simp [Input.CtxOk]
        by_cases hws : inp.workspaceID = []
        · simpa [huser, hctx, hws] using or_left_comm
        · simpa [huser, hctx, hws] using or_comm
    · simpa [huser] using or_comm

theorem allow_of_base (hsvc : ¬inp.ServiceScope) (hbase : perm.Base inp b) :
    perm.allow env inp = true ↔ (perm.facts env inp b).Opens := by
  rw [allow_iff]
  constructor
  · rintro (h | ⟨-, ⟨htyp, -⟩, -⟩ | ⟨c, hc, h⟩)
    · exact absurd h hsvc
    · obtain hu | hu | ⟨hu, -⟩ := hbase.2.1 <;> rw [hu] at htyp <;> cases htyp
    · rw [Option.some.inj (hbase.1.symm.trans hc.1)]
      exact h
  · intro h
    exact .inr (.inr ⟨b, hbase, h⟩)

end Perm

/-! ## Two readings of one request -/

/-- `R` is what a policy knows and `G` what `Decide` knows about one request: the
policy takes the last part of the action for its verb, and may find no entry where
`Decide` finds one. -/
structure Rereads (name : Bytes) (G R : Facts) : Prop where
  action : R.action = G.action
  workspaceID : R.workspaceID = G.workspaceID
  isScoped : R.isScoped = G.isScoped
  admin : R.admin = G.admin
  wsAdmin : R.wsAdmin = G.wsAdmin
  wsArchived : G.workspaceID ≠ [] → R.wsArchived = G.wsArchived
  tenantActions : R.tenantActions = G.tenantActions
  grant : R.grant = G.grant
  verb : G.verb = actionVerb name
  verbPart : R.verb = lastPart name
  entry : G.isScoped = true → R.entry = G.entry ∨ R.entry = none

namespace Rereads

variable {name : Bytes} {G R : Facts}

theorem writes (h : Rereads name G R) (hw : R.Writes) : G.Writes := by
  unfold Facts.Writes at hw ⊢
  rw [h.verb]
  by_cases hdot : (46 : UInt8) ∈ name
  · rw [← lastPart_of_mem hdot, ← h.verbPart]
    exact hw
  · rw [actionVerb_of_not_mem hdot]
    rfl

theorem grantOpens_iff (h : Rereads name G R) (hdot : (46 : UInt8) ∈ name) :
    R.GrantOpens ↔ G.GrantOpens := by
  have hverb : R.verb = G.verb := by rw [h.verbPart, lastPart_of_mem hdot, h.verb]
  unfold Facts.GrantOpens Facts.Writes
  rw [hverb, h.grant]

theorem not_grantOpens (h : Rereads name G R) (hdot : (46 : UInt8) ∉ name) : ¬G.GrantOpens := by
  rintro ⟨g, -, hlevel, -⟩
  rw [h.verb, actionVerb_of_not_mem hdot] at hlevel
  have hnone : levelAllowsVerb g.1 [] = false := by
    cases g.1 <;> rfl
  rw [hnone] at hlevel
  cases hlevel

theorem grantOpens (h : Rereads name G R) (hg : G.GrantOpens) : R.GrantOpens := by
  by_cases hdot : (46 : UInt8) ∈ name
  · exact (h.grantOpens_iff hdot).mpr hg
  · exact absurd hg (h.not_grantOpens hdot)

theorem tenantOpens_iff (h : Rereads name G R) : R.TenantOpens ↔ G.TenantOpens := by
  unfold Facts.TenantOpens
  rw [h.isScoped, h.action, h.tenantActions]

theorem opens_of_admin (h : Rereads name G R) (hdeny : ¬G.ArchivedDeny)
    (hadmin : G.admin = true) : G.Opens ∧ R.Opens := by
  have hblock : ¬G.WriteBlock := fun hb => hdeny (.inl ⟨hadmin, hb⟩)
  refine ⟨.inl ⟨hadmin, hblock⟩, .inl ⟨h.admin.trans hadmin, ?_⟩⟩
  rintro ⟨hws, harch, hwrites⟩
  rw [h.workspaceID] at hws
  rw [h.wsArchived hws] at harch
  exact hblock ⟨hws, harch, h.writes hwrites⟩

theorem assignedOpens (h : Rereads name G R) (hdeny : ¬G.ArchivedDeny) (hadmin : G.admin = false)
    (hr : R.AssignedOpens) : G.AssignedOpens := by
  obtain ⟨hscoped, e, he, -, hpath⟩ := hr
  rw [h.isScoped] at hscoped
  have hentry : R.entry = G.entry := by
    obtain heq | hnone := h.entry hscoped
    · exact heq
    · rw [hnone] at he
      cases he
  rw [hentry] at he
  rw [h.action, h.wsAdmin] at hpath
  exact ⟨hscoped, e, he, fun hb => hdeny (.inr ⟨hadmin, hscoped, e, he, hb⟩), hpath⟩

theorem assignedOpens_of_entry (h : Rereads name G R) (hg : G.AssignedOpens)
    (hsome : R.entry ≠ none) : R.AssignedOpens := by
  obtain ⟨hscoped, e, he, hblock, hpath⟩ := hg
  have hentry : R.entry = G.entry := (h.entry hscoped).resolve_right hsome
  refine ⟨h.isScoped.trans hscoped, e, hentry ▸ he, ?_, ?_⟩
  · rintro ⟨harch, hwrites⟩
    exact hblock ⟨harch, h.writes hwrites⟩
  · rw [h.action, h.wsAdmin]
    exact hpath

theorem opens_iff (h : Rereads name G R) (hdeny : ¬G.ArchivedDeny) :
    (G.Opens ↔ R.Opens) ↔ ((46 : UInt8) ∉ name → R.GrantOpens → G.Opens) ∧
      (G.admin = false → R.entry = none → G.AssignedOpens → R.GrantOpens) := by
  cases hadmin : G.admin with
  | true =>
    obtain ⟨hgo, hrego⟩ := h.opens_of_admin hdeny hadmin
    simp [hgo, hrego]
  | false =>
    have hadminG : ¬G.AdminOpens := by
      rintro ⟨ha, -⟩
      rw [hadmin] at ha
      cases ha
    have hadminR : ¬R.AdminOpens := by
      rintro ⟨ha, -⟩
      rw [h.admin, hadmin] at ha
      cases ha
    constructor
    · intro hiff
      refine ⟨fun _ hg => hiff.mpr (.inr (.inr (.inr hg))), fun _ hnone hassigned => ?_⟩
      obtain ho | ho | ho | ho := hiff.mp (.inr (.inl hassigned))
      · exact absurd ho hadminR
      · obtain ⟨-, e, he, -⟩ := ho
        rw [hnone] at he
        cases he
      · -- A request through an assigned workspace is workspace-scoped.
        have hscoped := hassigned.1
        rw [(h.tenantOpens_iff.mp ho).1] at hscoped
        cases hscoped
      · exact ho
    · rintro ⟨hdotless, hlost⟩
      constructor
      · rintro (ho | ho | ho | ho)
        · exact absurd ho hadminG
        · by_cases hnone : R.entry = none
          · exact .inr (.inr (.inr (hlost rfl hnone ho)))
          · exact .inr (.inl (h.assignedOpens_of_entry ho hnone))
        · exact .inr (.inr (.inl (h.tenantOpens_iff.mpr ho)))
        · exact .inr (.inr (.inr (h.grantOpens ho)))
      · rintro (ho | ho | ho | ho)
        · exact absurd ho hadminR
        · exact .inr (.inl (h.assignedOpens hdeny hadmin ho))
        · exact .inr (.inr (.inl (h.tenantOpens_iff.mp ho)))
        · by_cases hdot : (46 : UInt8) ∈ name
          · exact .inr (.inr (.inr ((h.grantOpens_iff hdot).mp ho)))
          · exact hdotless hdot ho

end Rereads

end Windrose.Rbac

/-
  Rbac/Paths.lean --- requests, and the paths that open one.

  The service documents its model as additive: access is a union of paths, and a path into
  an archived workspace is closed for every verb but the read verbs.  `Facts` is what a
  decision knows about one request and `Opens` is the union of the paths.

  The engines that decide requests are compared with this union: `authz.Decide`
  in Rbac/Decide.lean and the two policies in Rbac/Policy.lean and
  Rbac/PolicyInput.lean.
-/
import Windrose.Rbac.Flatten

set_option autoImplicit false

namespace Windrose.Rbac

open Windrose.Foundation

/-! ## Requests -/

/-- Who asks. -/
structure Subject where
  id : Bytes
  typ : Typ
  oboSub : Bytes
  scopes : List Bytes
  deriving DecidableEq

/-- `Input`: the decision contract. -/
structure Input where
  subject : Subject
  action : Bytes
  resourceURN : Bytes
  workspaceID : Bytes
  tenant : Bytes
  deriving DecidableEq

/-- `inScopes`: the action itself or the wildcard. -/
def inScopes (scopes : List Bytes) (action : Bytes) : Bool :=
  scopes.any fun s => s = action || s = bytes "*"

namespace Input

/-- `EffectiveUser`: an agent on behalf of a user acts with the user's grants. -/
def effectiveUser (inp : Input) : Bytes :=
  if inp.subject.typ = .agentObo ∧ inp.subject.oboSub ≠ [] then inp.subject.oboSub
  else inp.subject.id

/-- One of the fields every request must have is empty. -/
def Blank (inp : Input) : Prop := inp.tenant = [] ∨ inp.subject.id = [] ∨ inp.action = []

/-- A service token that names the action itself. -/
def ServiceScope (inp : Input) : Prop :=
  inp.subject.typ = .service ∧ inp.action ∈ inp.subject.scopes

/-- An autonomous agent with the action in scope. -/
def AutonomousScope (inp : Input) : Prop :=
  inp.subject.typ = .agentAutonomous ∧ inScopes inp.subject.scopes inp.action = true

/-- The principals whose user projection is consulted. -/
def UserPath (inp : Input) : Prop :=
  inp.subject.typ = .user ∨ inp.subject.typ = .service ∨
    inp.subject.typ = .agentObo ∧ inScopes inp.subject.scopes inp.action = true

/-- A workspace-scoped action carries a workspace and a tenant-scoped one does not. -/
def CtxOk (inp : Input) (isScoped : Bool) : Prop := isScoped = true ↔ inp.workspaceID ≠ []

instance (inp : Input) : Decidable inp.Blank := inferInstanceAs (Decidable (_ ∨ _))
instance (inp : Input) : Decidable inp.ServiceScope := inferInstanceAs (Decidable (_ ∧ _))
instance (inp : Input) : Decidable inp.UserPath := inferInstanceAs (Decidable (_ ∨ _))

end Input

/-! ## Paths -/

/-- What a decision knows about one request. -/
structure Facts where
  action : Bytes
  workspaceID : Bytes
  verb : Bytes
  isScoped : Bool
  admin : Bool
  /-- The user administers the workspace of the request. -/
  wsAdmin : Bool
  /-- The tenant's archived set has the workspace of the request. -/
  wsArchived : Bool
  /-- The user's entry for the workspace of the request. -/
  entry : Option WorkspaceEntry
  tenantActions : List Bytes
  /-- The level and the archived flag of the grant on the resource of the request. -/
  grant : Option (GrantLevel × Bool)
  deriving DecidableEq

namespace Facts

/-- The verb is none of those an archived workspace lets through. -/
def Writes (f : Facts) : Prop := archivedReadVerbs f.verb = false

/-- The tenant's archived set closes the workspace of the request. -/
def WriteBlock (f : Facts) : Prop := f.workspaceID ≠ [] ∧ f.wsArchived = true ∧ f.Writes

/-- The admin flag. -/
def AdminOpens (f : Facts) : Prop := f.admin = true ∧ ¬f.WriteBlock

/-- A role, or the workspace-admin flag, in the assigned workspace `e`. -/
def EntryOpens (f : Facts) (e : WorkspaceEntry) : Prop :=
  ¬(e.archived = true ∧ f.Writes) ∧ (f.action ∈ e.actions ∨ f.wsAdmin = true)

/-- The assigned workspace opens. -/
def AssignedOpens (f : Facts) : Prop := f.isScoped = true ∧ ∃ e ∈ f.entry, f.EntryOpens e

/-- A tenant-scoped action. -/
def TenantOpens (f : Facts) : Prop := f.isScoped = false ∧ f.action ∈ f.tenantActions

/-- A resource grant whose level allows the verb. -/
def GrantOpens (f : Facts) : Prop :=
  ∃ g ∈ f.grant, levelAllowsVerb g.1 f.verb = true ∧ ¬(g.2 = true ∧ f.Writes)

/-- A grant whose level allows the verb is there, open or not. -/
def GrantDecides (f : Facts) : Prop := ∃ g ∈ f.grant, levelAllowsVerb g.1 f.verb = true

/-- The union of the paths. -/
def Opens (f : Facts) : Prop := f.AdminOpens ∨ f.AssignedOpens ∨ f.TenantOpens ∨ f.GrantOpens

/-- The denials that come before a path is tried: an admin's write into a workspace
of the archived set, and a write into an archived workspace of one's own. -/
def ArchivedDeny (f : Facts) : Prop :=
  (f.admin = true ∧ f.WriteBlock) ∨
    (f.admin = false ∧ f.isScoped = true ∧ ∃ e ∈ f.entry, e.archived = true ∧ f.Writes)

instance (f : Facts) : Decidable f.Writes := inferInstanceAs (Decidable (_ = _))
instance (f : Facts) : Decidable f.WriteBlock := inferInstanceAs (Decidable (_ ∧ _))
instance (f : Facts) : Decidable f.GrantOpens := inferInstanceAs (Decidable (∃ g ∈ f.grant, _))
instance (f : Facts) : Decidable f.ArchivedDeny :=
  inferInstanceAs (Decidable (_ ∨ _ ∧ _ ∧ ∃ e ∈ f.entry, _))

end Facts

end Windrose.Rbac

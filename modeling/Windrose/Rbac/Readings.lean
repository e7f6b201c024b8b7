/-
  Rbac/Readings.lean --- what a decision reads of a projection.

  Source: services/rbac-service/internal/authz/decide.go (Decide).

  `Reader.decide` is written for a reader in any monad, so that it can be run in one that
  notes what is read.  A decision over another reader comes to the same when that reader
  answers what the first decision reads alike, as far as a decision uses an answer.
-/
import Windrose.Rbac.Decide

set_option autoImplicit false

namespace Windrose.Rbac

open Windrose.Foundation

/-! ## The trace of a decision -/

/-- What a decision reads. -/
inductive Reading where
  | catalog
  | autonomousEnabled
  | userFlags
  | archivedWorkspaces
  | workspace
  | resource
  | tenantActions
  deriving DecidableEq

/-- A value, and what was read on the way to it. -/
structure Traced (α : Type) where
  log : List Reading
  val : α

instance : Monad Traced where
  pure a := ⟨[], a⟩
  bind x f := ⟨x.log ++ (f x.val).log, (f x.val).val⟩

namespace Reader

/-- The reader, with a note of each reading. -/
def traced (r : Reader Id) : Reader Traced where
  tenantActions tenant user := ⟨[.tenantActions], (r.tenantActions tenant user).run⟩
  workspace tenant user workspaceID := ⟨[.workspace], (r.workspace tenant user workspaceID).run⟩
  resource tenant user urnHash := ⟨[.resource], (r.resource tenant user urnHash).run⟩
  userFlags tenant user := ⟨[.userFlags], (r.userFlags tenant user).run⟩
  archivedWorkspaces tenant := ⟨[.archivedWorkspaces], (r.archivedWorkspaces tenant).run⟩
  actionScoped action := ⟨[.catalog], (r.actionScoped action).run⟩
  autonomousEnabled tenant := ⟨[.autonomousEnabled], (r.autonomousEnabled tenant).run⟩

/-- What `Decide` reads of a request. -/
def reads (env : Ext) (r : Reader Id) (inp : Input) : List Reading := (r.traced.decide env inp).log

end Reader

/-! ## Answers that are alike -/

section Uses

variable (inp : Input)

/-- The verb of the request is one that an archived workspace keeps out. -/
def Input.writes : Bool := !archivedReadVerbs (actionVerb inp.action)

/-- The entry denies the request. -/
def WorkspaceEntry.denies (e : WorkspaceEntry) : Bool := e.archived && inp.writes

/-- The entry has the action of the request, and does not deny it. -/
def WorkspaceEntry.opens (e : WorkspaceEntry) : Bool := !e.denies inp && inp.action ∈ e.actions

/-- The grant opens the request. -/
def ResourceEntry.opens (e : ResourceEntry) : Bool :=
  levelAllowsVerb e.level (actionVerb inp.action) && !(e.archived && inp.writes)

end Uses

section Alike

variable (env : Ext) (want got : Reader Id) (inp : Input)

namespace Reader

/-- The entry of the workspace of the request. -/
def entry : Option WorkspaceEntry :=
  (want.workspace inp.tenant inp.effectiveUser inp.workspaceID).run

/-- The administered workspaces of the flags have the workspace of the request. -/
def administers : Bool :=
  hasWsAdmin (want.userFlags inp.tenant inp.effectiveUser).run inp.workspaceID

/-- The flags have the user as an admin. -/
def isAdmin : Bool := ((want.userFlags inp.tenant inp.effectiveUser).run.map (·.admin)).getD false

/-- The grant on the resource of the request. -/
def grant : Option ResourceEntry :=
  (want.resource inp.tenant inp.effectiveUser (urnHash env inp.resourceURN)).run

/-- The flags agree on the administered workspace, where the entry leaves it to them. -/
def AdministersAlike : Prop :=
  want.isAdmin inp = false → inp.workspaceID ≠ [] →
    (want.entry inp).any (·.denies inp) = false → (want.entry inp).any (·.opens inp) = false →
      want.administers inp = got.administers inp

/-- The two readers answer a reading alike, as far as a decision over the first uses the
answer. -/
def AnswersAlike : Reading → Prop
  | .catalog =>
    (inp.UserPath → (want.actionScoped inp.action).run = (got.actionScoped inp.action).run) ∧
      (inp.AutonomousScope →
        (want.actionScoped inp.action).run.isSome = (got.actionScoped inp.action).run.isSome)
  | .autonomousEnabled =>
    (want.autonomousEnabled inp.tenant).run = (got.autonomousEnabled inp.tenant).run
  | .userFlags => want.isAdmin inp = got.isAdmin inp ∧ want.AdministersAlike got inp
  | .archivedWorkspaces =>
    inp.writes = true → (want.archivedWorkspaces inp.tenant).run inp.workspaceID =
      (got.archivedWorkspaces inp.tenant).run inp.workspaceID
  | .workspace =>
    (want.entry inp).any (·.denies inp) = (got.entry inp).any (·.denies inp) ∧
      (want.entry inp).any (·.opens inp) = (got.entry inp).any (·.opens inp) ∧
      (want.administers inp = true →
        (want.entry inp).any (!·.denies inp) = (got.entry inp).any (!·.denies inp))
  | .resource => (want.grant env inp).any (·.opens inp) = (got.grant env inp).any (·.opens inp)
  | .tenantActions =>
    (inp.action ∈ (want.tenantActions inp.tenant inp.effectiveUser).run.getD [] ↔
      inp.action ∈ (got.tenantActions inp.tenant inp.effectiveUser).run.getD [])

end Reader

end Alike

/-! ## Decisions that are alike -/

section Follows

variable {Ok : Reading → Prop} {α : Type} {d d' : Decision}

/-- A decision comes to the same as a traced one, when all that this reads is as it should. -/
def Follows (Ok : Reading → Prop) (c : Traced Decision) (d : Decision) : Prop :=
  (∀ k ∈ c.log, Ok k) → d.allowed = c.val.allowed

theorem Follows.pure (h : d'.allowed = d.allowed) : Follows Ok (Pure.pure d) d' := fun _ => h

theorem Follows.read {k : Reading} {a : α} {f : α → Traced Decision}
    (h : Ok k → Follows Ok (f a) d) : Follows Ok ((⟨[k], a⟩ : Traced α) >>= f) d :=
  fun hall => h (hall k List.mem_cons_self) fun k' hk' => hall k' (List.mem_cons_of_mem k hk')

end Follows

namespace Reader

variable {env : Ext} {want got : Reader Id} {inp : Input} {d d' : Decision}

theorem getD_grantOverlay (hd : d.allowed = false) :
    ((got.grantOverlay env inp (actionVerb inp.action)).run.getD d).allowed =
      (decide (inp.resourceURN ≠ []) && (got.grant env inp).any (·.opens inp)) := by
  rw [Bool.eq_iff_iff, grantOverlay_allowed_iff hd true]
  by_cases hurn : inp.resourceURN = []
  · simp [Facts.GrantOpens, facts, hurn]
  · simp [Facts.GrantOpens, Facts.Writes, facts, hurn, grant, ResourceEntry.opens, Input.writes,
      Option.any_eq_true, imp_iff_not_or]

theorem traced_grantOverlay (verb : Bytes) : want.traced.grantOverlay env inp verb =
    ⟨if inp.resourceURN = [] then [] else [.resource], (want.grantOverlay env inp verb).run⟩ := by
  unfold grantOverlay
  by_cases hurn : inp.resourceURN = []
  · rw [if_pos hurn, if_pos hurn, if_pos hurn]
    rfl
  · rw [if_neg hurn, if_neg hurn, if_neg hurn]
    change (⟨[.resource], want.grant env inp⟩ : Traced _) >>= _ =
      ⟨[.resource], Id.run (bind (m := Id) (want.grant env inp) _)⟩
    cases want.grant env inp with
    | none => rfl
    | some e =>
      dsimp only [bind]
      by_cases hlevel : (!levelAllowsVerb e.level verb) = true
      · simp only [if_pos hlevel]
        rfl
      · simp only [if_neg hlevel]
        by_cases hblock : (e.archived && !archivedReadVerbs verb) = true
        · simp only [if_pos hblock]
          rfl
        · simp only [if_neg hblock]
          rfl

theorem follows_grantOverlay (hd : d.allowed = false) (hd' : d'.allowed = false) :
    Follows (AnswersAlike env want got inp)
      (want.traced.grantOverlay env inp (actionVerb inp.action) >>= fun o => pure (o.getD d))
      ((got.grantOverlay env inp (actionVerb inp.action)).run.getD d') := by
  intro hall
  change _ = ((want.traced.grantOverlay env inp (actionVerb inp.action)).val.getD d).allowed
  rw [traced_grantOverlay] at hall ⊢
  rw [getD_grantOverlay hd', getD_grantOverlay hd]
  by_cases hurn : inp.resourceURN = []
  · simp [hurn]
  · rw [if_neg hurn] at hall
    have hgrant : (want.grant env inp).any (·.opens inp) = (got.grant env inp).any (·.opens inp) :=
      hall .resource List.mem_cons_self
    rw [hgrant]

theorem decideScoped_eq {m : Type → Type} [Monad m] (r : Reader m) (flags : Option Flags) :
    r.decideScoped env inp (actionVerb inp.action) flags =
      r.workspace inp.tenant inp.effectiveUser inp.workspaceID >>= fun entry =>
        if entry.any (·.denies inp) then pure (deny .workspaceArchived)
        else if entry.any (·.opens inp) then pure (allow .roleAction)
        else if entry.any (!·.denies inp) && hasWsAdmin flags inp.workspaceID then
          pure (allow .workspaceAdmin)
        else r.grantOverlay env inp (actionVerb inp.action) >>= fun overlay =>
          pure (overlay.getD (if entry.isSome then deny .denyDefault
            else if flags.isSome then deny .notAssigned else projectionMiss)) := by
  unfold decideScoped
  refine congrArg _ (funext fun entry => ?_)
  cases entry with
  | none => rfl
  | some e =>
    simp only [Option.any_some, WorkspaceEntry.opens, WorkspaceEntry.denies, Input.writes]
    by_cases hblock : (e.archived && !archivedReadVerbs (actionVerb inp.action)) = true
    · simp only [if_pos hblock]
      exact (if_pos hblock).symm
    · simp [hblock]

theorem follows_decideScoped (hadmin : want.isAdmin inp = false) (hws : inp.workspaceID ≠ [])
    (hflags : AnswersAlike env want got inp .userFlags) :
    Follows (AnswersAlike env want got inp)
      (want.traced.decideScoped env inp (actionVerb inp.action)
        (want.userFlags inp.tenant inp.effectiveUser).run)
      (got.decideScoped env inp (actionVerb inp.action)
        (got.userFlags inp.tenant inp.effectiveUser).run).run := by
  rw [decideScoped_eq, decideScoped_eq]
  refine Follows.read fun ⟨hdenies, hopens, hpasses⟩ => ?_
  have hadministers := hflags.2 hadmin hws
  change Follows _ (if (want.entry inp).any (·.denies inp) then _
    else if (want.entry inp).any (·.opens inp) then _
    else if (want.entry inp).any (!·.denies inp) && want.administers inp then _ else _)
    (Id.run (if (got.entry inp).any (·.denies inp) then _
    else if (got.entry inp).any (·.opens inp) then _
    else if (got.entry inp).any (!·.denies inp) && got.administers inp then _ else _))
  rw [← hdenies, ← hopens]
  cases hdeny : (want.entry inp).any (·.denies inp) with
  | true => exact Follows.pure rfl
  | false =>
    cases hopen : (want.entry inp).any (·.opens inp) with
    | true => exact Follows.pure rfl
    | false =>
      rw [← hadministers hdeny hopen]
      have hsame : ((got.entry inp).any (!·.denies inp) && want.administers inp) =
          ((want.entry inp).any (!·.denies inp) && want.administers inp) := by
        cases h : want.administers inp with
        | true => rw [hpasses h]
        | false => rw [Bool.and_false, Bool.and_false]
      rw [hsame]
      simp only [Bool.false_eq_true, if_false]
      split
      · exact Follows.pure rfl
      · refine follows_grantOverlay ?_ ?_
        · split <;> [rfl; split <;> rfl]
        · split <;> [rfl; split <;> rfl]

theorem follows_decideTenant (flags flags' : Option Flags) :
    Follows (AnswersAlike env want got inp)
      (want.traced.decideTenant env inp (actionVerb inp.action) flags)
      (got.decideTenant env inp (actionVerb inp.action) flags').run := by
  unfold decideTenant
  refine Follows.read fun hmem => ?_
  rw [Id.run_bind]
  by_cases hhas : inp.action ∈ (want.tenantActions inp.tenant inp.effectiveUser).run.getD []
  · rw [if_pos hhas, if_pos (hmem.mp hhas)]
    exact Follows.pure rfl
  · rw [if_neg hhas, if_neg (mt hmem.mpr hhas)]
    exact follows_grantOverlay (by split <;> rfl) (by split <;> rfl)

theorem follows_decideAdmin : Follows (AnswersAlike env want got inp)
    (want.traced.decideAdmin inp (actionVerb inp.action))
    (got.decideAdmin inp (actionVerb inp.action)).run := by
  unfold decideAdmin
  split
  · exact Follows.pure rfl
  · refine Follows.read fun harchived => ?_
    rw [Id.run_bind]
    cases hwrites : archivedReadVerbs (actionVerb inp.action) with
    | true =>
      simp only [Bool.not_true, Bool.and_false, Bool.false_eq_true, if_false]
      exact Follows.pure rfl
    | false =>
      have harchived := harchived (by rw [Input.writes, hwrites]; rfl)
      rw [← harchived]
      split
      · exact Follows.pure rfl
      · exact Follows.pure rfl

theorem follows_decideUser (isScoped : Bool) : Follows (AnswersAlike env want got inp)
    (want.traced.decideUser env inp isScoped) (got.decideUser env inp isScoped).run := by
  unfold decideUser
  split
  · exact Follows.pure rfl
  next hrequired =>
  split
  · exact Follows.pure rfl
  · refine Follows.read fun hflags => ?_
    rw [Id.run_bind]
    change Follows _ (if want.isAdmin inp then _ else _) (Id.run (if got.isAdmin inp then _ else _))
    rw [← hflags.1]
    cases hadmin : want.isAdmin inp with
    | true => exact follows_decideAdmin
    | false =>
      cases isScoped with
      | true => exact follows_decideScoped hadmin (fun hws => hrequired ⟨rfl, hws⟩) hflags
      | false => exact follows_decideTenant _ _

theorem follows_decideAutonomous : Follows (AnswersAlike env want got inp)
    (want.traced.decideAutonomous inp) (got.decideAutonomous inp).run := by
  unfold decideAutonomous
  split
  · exact Follows.pure rfl
  · refine Follows.read fun henabled => ?_
    rw [Id.run_bind, ← show _ = _ from henabled]
    split <;> exact Follows.pure rfl

theorem follows_decide : Follows (AnswersAlike env want got inp) (want.traced.decide env inp)
    (got.decide env inp).run := by
  unfold Reader.decide
  split
  · exact Follows.pure rfl
  split
  · exact Follows.pure rfl
  refine Follows.read fun ⟨hscoped, hknown⟩ => ?_
  rw [Id.run_bind]
  cases htyp : inp.subject.typ with
  | user =>
    rw [← hscoped (.inl htyp)]
    cases (want.actionScoped inp.action).run with
    | none => exact Follows.pure rfl
    | some isScoped => exact follows_decideUser isScoped
  | service =>
    rw [← hscoped (.inr (.inl htyp))]
    cases (want.actionScoped inp.action).run with
    | none => exact Follows.pure rfl
    | some isScoped => exact follows_decideUser isScoped
  | agentAutonomous =>
    cases hscope : inScopes inp.subject.scopes inp.action with
    | true =>
      have hknown := hknown ⟨htyp, hscope⟩
      cases hw : (want.actionScoped inp.action).run <;>
        cases hg : (got.actionScoped inp.action).run <;> rw [hw, hg] at hknown
      · exact Follows.pure rfl
      · cases hknown
      · cases hknown
      · exact follows_decideAutonomous
    | false =>
      simp only [decideAutonomous, hscope, Bool.not_false, if_true]
      cases (want.actionScoped inp.action).run <;> cases (got.actionScoped inp.action).run <;>
        exact Follows.pure rfl
  | agentObo =>
    cases hscope : inScopes inp.subject.scopes inp.action with
    | true =>
      rw [← hscoped (.inr (.inr ⟨htyp, hscope⟩))]
      cases (want.actionScoped inp.action).run with
      | none => exact Follows.pure rfl
      | some isScoped => exact follows_decideUser isScoped
    | false =>
      cases (want.actionScoped inp.action).run <;> cases (got.actionScoped inp.action).run <;>
        exact Follows.pure rfl
  | other text =>
    cases (want.actionScoped inp.action).run <;> cases (got.actionScoped inp.action).run <;>
      exact Follows.pure rfl

/-- **A decision over another reader is the same when all that the first reads is answered
alike.** -/
theorem decide_alike (h : ∀ k ∈ want.reads env inp, AnswersAlike env want got inp k) :
    (got.decide env inp).run.allowed = (want.decide env inp).run.allowed := by
  have hself : ∀ k, AnswersAlike env want want inp k := by
    rintro ⟨⟩
    · exact ⟨fun _ => rfl, fun _ => rfl⟩
    · rfl
    · exact ⟨rfl, fun _ _ _ _ => rfl⟩
    · exact fun _ => rfl
    · exact ⟨rfl, rfl, fun _ => rfl⟩
    · rfl
    · exact Iff.rfl
  exact (follows_decide h).trans (follows_decide fun k _ => hself k).symm

end Reader

end Windrose.Rbac

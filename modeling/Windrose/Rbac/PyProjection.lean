/-
  Rbac/PyProjection.lean --- the single-key projection of the Python services.

  Source: services/rbac-service/internal/projection/pyprojection.go and
  libs/py-common/datacern_common/opaclient.py (projection_key, OpaClient).

  The Python services load one assembled slice per tenant, subject, action and workspace,
  and evaluate the input-projection policy on it.  The slices exist for the workspaces a
  user is assigned to, so what they leave out is denied.
-/
import Windrose.Rbac.PolicyInput
import Windrose.Rbac.Additive

set_option autoImplicit false

namespace Windrose.Rbac

open Windrose.Foundation

/-! ## The keys and their slices -/

/-- `PyProjectionKey`, and `projection_key` of the client. -/
def pyProjectionKey (tenant user action workspace : Bytes) : Bytes :=
  bytes "authz:proj:" ++ tenant ++ bytes ":" ++ user ++ bytes ":" ++ action ++ bytes ":" ++
    workspace

theorem pyProjectionKey_eq_iff {tenant user a b v w : Bytes} :
    pyProjectionKey tenant user a v = pyProjectionKey tenant user b w ↔
      a ++ 58 :: v = b ++ 58 :: w := by
  have hcolon : bytes ":" = [58] := rfl
  unfold pyProjectionKey
  simp [hcolon]

namespace Flat

variable (f : Flat) (autonomous : Bool)

/-- The facts every slice of the user shares. -/
def pyBase : Projection where
  actionKnown := true
  actionScoped := false
  autonomousEnabled := autonomous
  flagsFound := true
  admin := f.flags.admin
  wsAdmin := f.flags.wsAdmin.map (·.text)
  tenantFound := true
  tenantActions := f.tenantActions
  assigned := false
  wsActions := []
  wsArchived := false
  resourceFound := false
  level := .other []
  resourceArchived := false
  workspaceArchivedTenant := false

/-- The slice of a workspace-scoped action in an assigned workspace. -/
def pyWorkspace (entry : WorkspaceEntry) : Projection :=
  { f.pyBase autonomous with
    actionScoped := true
    assigned := true
    wsActions := entry.actions
    wsArchived := entry.archived
    workspaceArchivedTenant := entry.archived }

def adminExpand : Bool := f.flags.admin || f.flags.wsAdmin.length > 0

/-- The registered actions of one scope, for the users that are expanded over them. -/
def catalogActions (isScoped : Bool) : List Bytes :=
  if f.adminExpand then (f.catalog.entries.filter (·.2 = isScoped)).map (·.1) else []

/-- The assignments of `BuildPyProjection`, key by key. -/
def pyEntries : List (Bytes × Projection) :=
  (f.tenantActions ++ f.catalogActions false).map (fun a =>
      (pyProjectionKey f.tenantID.text f.userID a [], f.pyBase autonomous)) ++
    f.workspaceActions.entries.flatMap fun p =>
      (p.2.actions ++ f.catalogActions true).map fun a =>
        (pyProjectionKey f.tenantID.text f.userID a p.1.text, f.pyWorkspace autonomous p.2)

/-- `BuildPyProjection`. -/
def buildPyProjection : GoMap Bytes Projection := mapOf (f.pyEntries autonomous)

variable {f autonomous}

theorem mem_catalogActions {isScoped : Bool} {a : Bytes} :
    a ∈ f.catalogActions isScoped ↔ f.adminExpand = true ∧ f.catalog.lookup a = some isScoped := by
  unfold catalogActions
  cases f.adminExpand with
  | false => simp
  | true =>
    simp only [if_true, List.mem_map, List.mem_filter, decide_eq_true_eq, true_and]
    rw [← Option.mem_def, AList.mem_lookup_iff]
    constructor
    · rintro ⟨⟨b, c⟩, ⟨hmem, rfl⟩, rfl⟩
      exact hmem
    · intro hmem
      exact ⟨⟨a, isScoped⟩, ⟨hmem, rfl⟩, rfl⟩

theorem mem_pyEntries {k : Bytes} {p : Projection} : (k, p) ∈ f.pyEntries autonomous ↔
    (∃ a, (a ∈ f.tenantActions ∨ a ∈ f.catalogActions false) ∧
      k = pyProjectionKey f.tenantID.text f.userID a [] ∧ p = f.pyBase autonomous) ∨
    (∃ u e a, f.workspaceActions.lookup u = some e ∧
      (a ∈ e.actions ∨ a ∈ f.catalogActions true) ∧
      k = pyProjectionKey f.tenantID.text f.userID a u.text ∧ p = f.pyWorkspace autonomous e) := by
  unfold pyEntries
  simp only [List.mem_append, List.mem_map, List.mem_flatMap, Prod.mk.injEq]
  refine or_congr ?_ ?_
  · constructor
    · rintro ⟨a, ha, hk, hp⟩
      exact ⟨a, ha, hk.symm, hp.symm⟩
    · rintro ⟨a, ha, hk, hp⟩
      exact ⟨a, ha, hk.symm, hp.symm⟩
  · constructor
    · rintro ⟨⟨u, e⟩, hmem, a, ha, hk, hp⟩
      exact ⟨u, e, a, AList.mem_lookup_iff.mpr hmem, ha, hk.symm, hp.symm⟩
    · rintro ⟨u, e, a, hlookup, ha, hk, hp⟩
      exact ⟨⟨u, e⟩, AList.mem_lookup_iff.mp hlookup, a, ha, hk.symm, hp.symm⟩

end Flat

theorem colon_not_mem_text (u : Uuid) : (58 : UInt8) ∉ u.text := Uuid.not_mem_text rfl (by decide) u

variable {u : Uuid}

theorem join_nil_ne_join_text {a b : Bytes} : a ++ 58 :: [] ≠ b ++ 58 :: u.text := by
  intro h
  obtain ⟨-, hnil⟩ := append_last_sep_inj List.not_mem_nil (colon_not_mem_text u) h
  have hlen := u.length_text
  rw [← hnil] at hlen
  cases hlen

namespace Flat

variable {f : Flat} {autonomous : Bool}

theorem pyEntries_once (k : Bytes) (p q : Projection) (hp : (k, p) ∈ f.pyEntries autonomous)
    (hq : (k, q) ∈ f.pyEntries autonomous) : p = q := by
  rw [mem_pyEntries] at hp hq
  obtain ⟨a, -, hk, rfl⟩ | ⟨u, e, a, he, -, hk, rfl⟩ := hp
  · obtain ⟨b, -, -, rfl⟩ | ⟨v, d, b, -, -, hk', rfl⟩ := hq
    · rfl
    · rw [hk] at hk'
      exact absurd (pyProjectionKey_eq_iff.mp hk') join_nil_ne_join_text
  · obtain ⟨b, -, hk', rfl⟩ | ⟨v, d, b, hd, -, hk', rfl⟩ := hq
    · rw [hk'] at hk
      exact absurd (pyProjectionKey_eq_iff.mp hk) join_nil_ne_join_text
    · rw [hk] at hk'
      obtain ⟨-, huv⟩ := append_last_sep_inj (colon_not_mem_text u) (colon_not_mem_text v)
        (pyProjectionKey_eq_iff.mp hk')
      rw [Uuid.text_injective huv, hd, Option.some.injEq] at he
      rw [he]

theorem lookup_buildPyProjection {k : Bytes} {p : Projection} :
    (f.buildPyProjection autonomous).lookup k = some p ↔ (k, p) ∈ f.pyEntries autonomous :=
  lookup_mapOf_iff pyEntries_once

end Flat

/-! ## What a slice opens -/

section Slices

variable {f : Flat} {autonomous : Bool} {inp : Input}

/-- The slice of a tenant-scoped action opens without a workspace, for an admin and for
the holder of the action. -/
theorem pyBase_allow_iff (htyp : inp.subject.typ = .user) (hurn : inp.resourceURN = []) :
    (f.pyBase autonomous).allow inp = true ↔ inp.workspaceID = [] ∧
      (f.flags.admin = true ∨ inp.action ∈ f.tenantActions) := by
  have hsvc : ¬inp.ServiceScope := by simp [Input.ServiceScope, htyp]
  by_cases hws : inp.workspaceID = []
  · have hbase : (f.pyBase autonomous).Base inp :=
      ⟨rfl, .inl htyp, by simp [Input.CtxOk, Flat.pyBase, hws]⟩
    rw [Projection.allow_of_base hsvc hbase]
    unfold Facts.Opens
    rw [Projection.adminOpens_iff, Projection.assignedOpens_iff, Projection.tenantOpens_iff,
      Projection.grantOpens_iff]
    simp [Projection.isAdmin, Projection.archivedWriteBlock, Flat.pyBase, hws, hurn]
  · have hbase : ¬(f.pyBase autonomous).Base inp := by
      rintro ⟨-, -, hctx⟩
      exact Bool.false_ne_true (hctx.mpr hws)
    rw [Projection.allow_iff]
    simp [hsvc, hbase, hws, Input.AutonomousScope, htyp]

/-- The slice of an assigned workspace opens for an admin, for the holder of the action
and for an admin of the workspace, but for a write into an archived one. -/
theorem pyWorkspace_allow_iff {e : WorkspaceEntry} (htyp : inp.subject.typ = .user)
    (hurn : inp.resourceURN = []) :
    (f.pyWorkspace autonomous e).allow inp = true ↔ inp.workspaceID ≠ [] ∧
      ¬(e.archived = true ∧ Projection.writes inp = true) ∧
      (f.flags.admin = true ∨ inp.action ∈ e.actions ∨
        ∃ u ∈ f.flags.wsAdmin, u.text = inp.workspaceID) := by
  have hsvc : ¬inp.ServiceScope := by simp [Input.ServiceScope, htyp]
  by_cases hws : inp.workspaceID = []
  · have hbase : ¬(f.pyWorkspace autonomous e).Base inp := by
      rintro ⟨-, -, hctx⟩
      exact hctx.mp rfl hws
    rw [Projection.allow_iff]
    simp [hsvc, hbase, hws, Input.AutonomousScope, htyp]
  · have hbase : (f.pyWorkspace autonomous e).Base inp :=
      ⟨rfl, .inl htyp, by simp [Input.CtxOk, Flat.pyWorkspace, hws]⟩
    rw [Projection.allow_of_base hsvc hbase]
    unfold Facts.Opens
    rw [Projection.adminOpens_iff, Projection.assignedOpens_iff, Projection.tenantOpens_iff,
      Projection.grantOpens_iff]
    have hmem : inp.workspaceID ∈ (f.pyWorkspace autonomous e).wsAdmin ↔
        ∃ u ∈ f.flags.wsAdmin, u.text = inp.workspaceID := List.mem_map
    rw [hmem]
    cases harch : e.archived <;> cases hw : Projection.writes inp <;>
      simp [Projection.isAdmin, Projection.archivedWriteBlock, Projection.wsArchivedBlock,
        Flat.pyWorkspace, Flat.pyBase, hws, hurn, harch, hw]

end Slices

/-! ## The requests of a user -/

/-- What `OpaClient` evaluates for a request; an absent key is the empty projection. -/
def pyProjection (env : Ext) (s : Snapshot) (autonomous : Bool) (inp : Input) : Projection :=
  (((flatten env s).buildPyProjection autonomous).lookup
    (pyProjectionKey inp.tenant inp.subject.id inp.action inp.workspaceID)).getD .empty

namespace Snapshot

/-- A request of the user of the snapshot, on no resource. -/
structure Asks (s : Snapshot) (inp : Input) : Prop where
  typ : inp.subject.typ = .user
  id : inp.subject.id = s.userID
  tenant : inp.tenant = s.tenantID.text
  resource : inp.resourceURN = []

/-- The user's slices cover the registered actions. -/
def Expanded (s : Snapshot) : Prop :=
  s.admin = true ∨ s.useCaseAdmin = true ∧ s.assignedWorkspaces ≠ []

/-- The key of the request is that of `action` in the assigned workspace `u`.  The two
can differ from those of the request, since a key joins texts with colons. -/
structure Slice (s : Snapshot) (inp : Input) (action : Bytes) (u : Uuid) (e : WorkspaceEntry) :
    Prop where
  key : inp.action ++ 58 :: inp.workspaceID = action ++ 58 :: u.text
  entry : s.workspaceActions.lookup u = some e
  written : action ∈ e.actions ∨ s.Expanded ∧ s.catalog.lookup action = some true

/-- The slice with the entry `e` opens the request. -/
def SliceOpens (s : Snapshot) (inp : Input) (e : WorkspaceEntry) : Prop :=
  ¬(e.archived = true ∧ Projection.writes inp = true) ∧
    (s.admin = true ∨ inp.action ∈ e.actions ∨
      s.useCaseAdmin = true ∧ ∃ w ∈ s.assignedWorkspaces, w.id.text = inp.workspaceID)

/-- The tenant-scoped part: an admin and the holder of the action. -/
def TenantSliceOpens (s : Snapshot) (inp : Input) : Prop :=
  inp.workspaceID = [] ∧ s.catalog.lookup inp.action = some false ∧
    (s.admin = true ∨ inp.action ∈ s.actions)

/-- Some slice opens the request. -/
def PyOpens (s : Snapshot) (inp : Input) : Prop :=
  s.TenantSliceOpens inp ∨ ∃ action u e, s.Slice inp action u e ∧ s.SliceOpens inp e

section Requests

variable {env : Ext} {s : Snapshot} {autonomous : Bool} {inp : Input}

theorem Asks.effectiveUser (h : s.Asks inp) : inp.effectiveUser = s.userID := by
  unfold Input.effectiveUser
  rw [if_neg (by simp [h.typ]), h.id]

theorem Asks.names (h : s.Asks inp) : s.Names inp := ⟨h.effectiveUser, .inr h.tenant.symm⟩

theorem adminExpand_flatten : (flatten env s).adminExpand = true ↔ s.Expanded := by
  have hlen : s.wsAdmin.length =
      (if s.useCaseAdmin then s.assignedWorkspaces.map (·.id) else []).length :=
    List.length_insertionSort _ _
  unfold Flat.adminExpand Expanded
  simp only [flatten, Bool.or_eq_true, decide_eq_true_eq, hlen]
  cases s.useCaseAdmin <;> simp [List.length_pos_iff]

/-- The slices of a user open exactly these requests. -/
theorem pyProjection_allow_iff (h : s.Asks inp) :
    (pyProjection env s autonomous inp).allow inp = true ↔ s.PyOpens inp := by
  have hkey : pyProjectionKey inp.tenant inp.subject.id inp.action inp.workspaceID =
      pyProjectionKey (flatten env s).tenantID.text (flatten env s).userID inp.action
        inp.workspaceID := by
    rw [h.tenant, h.id]
    rfl
  have hempty : Projection.empty.allow inp = false := by
    simp [Projection.allow, Projection.allowBodies, Projection.empty, h.typ]
  have hfound : (pyProjection env s autonomous inp).allow inp = true ↔
      ∃ p, (pyProjectionKey inp.tenant inp.subject.id inp.action inp.workspaceID, p) ∈
        (flatten env s).pyEntries autonomous ∧ p.allow inp = true := by
    simp only [← Flat.lookup_buildPyProjection]
    unfold pyProjection
    cases ((flatten env s).buildPyProjection autonomous).lookup
      (pyProjectionKey inp.tenant inp.subject.id inp.action inp.workspaceID) <;> simp [hempty]
  rw [hfound, hkey]
  simp only [Flat.mem_pyEntries, Flat.mem_catalogActions, adminExpand_flatten,
    pyProjectionKey_eq_iff]
  have htenant : ∀ a, a ∈ (flatten env s).tenantActions ↔
      a ∈ s.actions ∧ s.catalog.lookup a = some false := fun a => mem_scopedActions
  have hadmin : ∀ u, u ∈ (flatten env s).flags.wsAdmin ↔
      s.useCaseAdmin = true ∧ ∃ w ∈ s.assignedWorkspaces, w.id = u := fun u => mem_wsAdmin
  constructor
  · rintro ⟨p, ⟨a, ha, hjoin, rfl⟩ | ⟨u, e, a, he, ha, hjoin, rfl⟩, hallow⟩
    · obtain ⟨hws, hopen⟩ := (pyBase_allow_iff h.typ h.resource).mp hallow
      rw [hws] at hjoin
      obtain ⟨rfl, -⟩ := append_last_sep_inj List.not_mem_nil List.not_mem_nil hjoin
      refine .inl ⟨hws, ?_, hopen.imp_right fun ha => ((htenant _).mp ha).1⟩
      exact ha.elim (fun ha => ((htenant _).mp ha).2) fun ha => ha.2
    · obtain ⟨-, hblock, hopen⟩ := (pyWorkspace_allow_iff h.typ h.resource).mp hallow
      refine .inr ⟨a, u, e, ⟨hjoin, he, ha⟩, hblock, ?_⟩
      obtain hopen | hopen | ⟨v, hv, htext⟩ := hopen
      · exact .inl hopen
      · exact .inr (.inl hopen)
      · obtain ⟨hflag, w, hw, rfl⟩ := (hadmin v).mp hv
        exact .inr (.inr ⟨hflag, w, hw, htext⟩)
  · rintro (⟨hws, hcat, hopen⟩ | ⟨a, u, e, hslice, hblock, hopen⟩)
    · refine ⟨_, .inl ⟨inp.action, ?_, by rw [hws], rfl⟩, ?_⟩
      · exact hopen.elim (fun ha => .inr ⟨.inl ha, hcat⟩) fun ha =>
          .inl ((htenant _).mpr ⟨ha, hcat⟩)
      · rw [pyBase_allow_iff h.typ h.resource]
        exact ⟨hws, hopen.imp_right fun ha => (htenant _).mpr ⟨ha, hcat⟩⟩
    · refine ⟨_, .inr ⟨u, e, a, hslice.entry, hslice.written, hslice.key, rfl⟩, ?_⟩
      rw [pyWorkspace_allow_iff h.typ h.resource]
      refine ⟨?_, hblock, ?_⟩
      · intro hws
        have hjoin := hslice.key
        rw [hws] at hjoin
        exact join_nil_ne_join_text hjoin
      · obtain hopen | hopen | ⟨hflag, w, hw, htext⟩ := hopen
        · exact .inl hopen
        · exact .inr (.inl hopen)
        · exact .inr (.inr ⟨w.id, (hadmin w.id).mpr ⟨hflag, w, hw, rfl⟩, htext⟩)

/-! ## `Decide` on the same requests -/

/-- The verb of the action is a write for `Decide`. -/
def Writes (inp : Input) : Prop := archivedReadVerbs (actionVerb inp.action) = false

/-- What `Decide` opens in a workspace: anything but a blocked write for an admin, and
otherwise the actions and the workspace-admin flag of an entry that is not archived
against the verb. -/
def WorkspaceOpens (env : Ext) (s : Snapshot) (inp : Input) : Prop :=
  (s.admin = true ∧ ¬((∃ u ∈ s.archivedWorkspaceIDs, u.text = inp.workspaceID) ∧ Writes inp)) ∨
    (s.admin = false ∧ ∃ u e, env.parse inp.workspaceID = some u ∧
      s.workspaceActions.lookup u = some e ∧ ¬(e.archived = true ∧ Writes inp) ∧
      (inp.action ∈ e.actions ∨
        s.useCaseAdmin = true ∧ ∃ w ∈ s.assignedWorkspaces, w.id.text = inp.workspaceID))

theorem decide_allowed_of_asks (h : s.Asks inp) :
    ((s.reader env autonomous).decide env inp).run.allowed = true ↔ ¬inp.Blank ∧
      ∃ b, s.catalog.lookup inp.action = some b ∧ inp.CtxOk b ∧
        ¬(s.facts env inp b).ArchivedDeny ∧ (s.facts env inp b).Opens := by
  have hsvc : ¬inp.ServiceScope := by simp [Input.ServiceScope, h.typ]
  have hauto : ¬(s.reader env autonomous).Autonomous inp := by
    simp [Reader.Autonomous, Input.AutonomousScope, h.typ]
  have huser : inp.UserPath := .inl h.typ
  rw [Reader.decide_allowed_iff]
  simp only [hsvc, hauto, false_or, Reader.Base, huser, true_and, reader_facts, and_assoc]
  rfl

theorem grantOpens_of_asks (h : s.Asks inp) {b : Bool} : ¬(s.facts env inp b).GrantOpens := by
  have hgrants : s.requestGrants env inp = [] := by
    unfold requestGrants
    exact if_neg fun hc => hc.2 h.resource
  rw [facts_grantOpens_iff, hgrants]
  simp

theorem facts_admin_of_asks (h : s.Asks inp) {b : Bool} : (s.facts env inp b).admin = s.admin := by
  rw [Bool.eq_iff_iff, facts_admin_iff]
  simp [h.names]

/-- Without a workspace `Decide` opens a tenant-scoped action for an admin and for its
holder. -/
theorem decide_allowed_of_no_workspace (h : s.Asks inp) (hblank : ¬inp.Blank)
    (hws : inp.workspaceID = []) :
    ((s.reader env autonomous).decide env inp).run.allowed = true ↔ s.TenantSliceOpens inp := by
  have hblock : ∀ b, ¬(s.facts env inp b).WriteBlock := fun b hb => hb.1 hws
  rw [decide_allowed_of_asks h]
  unfold TenantSliceOpens
  simp only [hblank, not_false_eq_true, true_and, hws]
  constructor
  · rintro ⟨b, hcat, hctx, -, hopen⟩
    have hb : b = false := by
      cases b with
      | false => rfl
      | true => exact absurd hws (hctx.mp rfl)
    subst hb
    refine ⟨hcat, ?_⟩
    obtain ⟨hadmin, -⟩ | ⟨hscoped, -⟩ | ⟨-, hmem⟩ | hgrant := hopen
    · exact .inl ((facts_admin_of_asks h).symm.trans hadmin)
    · cases hscoped
    · exact .inr (facts_tenantActions.mp hmem).2.1
    · exact absurd hgrant (grantOpens_of_asks h)
  · rintro ⟨hcat, hopen⟩
    refine ⟨false, hcat, by simp [Input.CtxOk, hws], ?_, ?_⟩
    · rintro (⟨-, hb⟩ | ⟨-, hscoped, -⟩)
      · exact hblock false hb
      · cases hscoped
    · obtain hadmin | hmem := hopen
      · exact .inl ⟨(facts_admin_of_asks h).trans hadmin, hblock false⟩
      · exact .inr (.inr (.inl ⟨rfl, facts_tenantActions.mpr ⟨h.names, hmem, hcat⟩⟩))

/-- In a workspace `Decide` opens a workspace-scoped action as `WorkspaceOpens` says. -/
theorem decide_allowed_of_workspace (h : s.Asks inp) (hblank : ¬inp.Blank)
    (hws : inp.workspaceID ≠ []) : ((s.reader env autonomous).decide env inp).run.allowed = true ↔
      s.catalog.lookup inp.action = some true ∧ s.WorkspaceOpens env inp := by
  have hadmin : (s.facts env inp true).admin = s.admin := facts_admin_of_asks h
  have hblock : (s.facts env inp true).WriteBlock ↔
      (∃ u ∈ s.archivedWorkspaceIDs, u.text = inp.workspaceID) ∧ Writes inp := by
    rw [← @facts_wsArchived_iff env s inp true]
    exact and_iff_right hws
  have hwsAdmin : (s.facts env inp true).wsAdmin = true ↔ s.useCaseAdmin = true ∧
      ∃ w ∈ s.assignedWorkspaces, w.id.text = inp.workspaceID := by
    rw [facts_wsAdmin_iff, and_iff_right h.names]
  have hentry : ∀ e, e ∈ (s.facts env inp true).entry ↔ ∃ u, env.parse inp.workspaceID = some u ∧
      s.workspaceActions.lookup u = some e := by
    intro e
    rw [facts_entry_eq, if_pos h.names, Option.mem_def, Option.bind_eq_some_iff]
  have hctx : ∀ b, inp.CtxOk b ↔ b = true := by
    intro b
    simp [Input.CtxOk, hws]
  rw [decide_allowed_of_asks h]
  simp only [hblank, not_false_eq_true, true_and, hctx]
  constructor
  · rintro ⟨b, hcat, rfl, hdeny, hopen⟩
    refine ⟨hcat, ?_⟩
    obtain ⟨ha, hfree⟩ | ⟨-, e, he, hfree, hpath⟩ | ⟨hscoped, -⟩ | hgrant := hopen
    · exact .inl ⟨hadmin.symm.trans ha, fun hb => hfree (hblock.mpr hb)⟩
    · cases ha : s.admin with
      | true => exact .inl ⟨ha, fun hb => hdeny (.inl ⟨hadmin.trans ha, hblock.mpr hb⟩)⟩
      | false =>
        obtain ⟨u, hparse, hlookup⟩ := (hentry e).mp he
        exact .inr ⟨ha, u, e, hparse, hlookup, hfree, hpath.imp_right hwsAdmin.mp⟩
    · cases hscoped
    · exact absurd hgrant (grantOpens_of_asks h)
  · rintro ⟨hcat, ⟨ha, hfree⟩ | ⟨ha, u, e, hparse, hlookup, hfree, hpath⟩⟩
    · refine ⟨true, hcat, rfl, ?_, .inl ⟨hadmin.trans ha, fun hb => hfree (hblock.mp hb)⟩⟩
      rintro (⟨-, hb⟩ | ⟨hno, -⟩)
      · exact hfree (hblock.mp hb)
      · rw [hadmin, ha] at hno
        cases hno
    · have he : e ∈ (s.facts env inp true).entry := (hentry e).mpr ⟨u, hparse, hlookup⟩
      refine ⟨true, hcat, rfl, ?_, .inr (.inl ⟨rfl, e, he, hfree, hpath.imp_right hwsAdmin.mpr⟩)⟩
      rintro (⟨hyes, -⟩ | ⟨-, -, d, hd, hd'⟩)
      · rw [hadmin, ha] at hyes
        cases hyes
      · rw [Option.mem_unique hd he] at hd'
        exact hfree hd'

/-! ## Where the two agree -/

theorem of_mem_entry {e : WorkspaceEntry} (he : s.workspaceActions.lookup u = some e)
    (hmem : inp.action ∈ e.actions) : s.catalog.lookup inp.action = some true ∧
      ¬(e.archived = true ∧ Writes inp) := by
  obtain ⟨w, -, -, rfl⟩ := exists_of_lookup_workspaceActions he
  obtain ⟨⟨-, hcat⟩, hread⟩ := mem_workspaceEntry.mp hmem
  refine ⟨hcat, ?_⟩
  rintro ⟨harch, hw⟩
  have hverb := hread harch
  unfold Writes at hw
  rw [hverb] at hw
  cases hw

theorem writes_of_policy (h : Projection.writes inp = true) : Writes inp := by
  unfold Projection.writes at h
  rw [Perm.readVerb_eq, Bool.not_eq_true'] at h
  unfold Writes
  by_cases hdot : (46 : UInt8) ∈ inp.action
  · rw [← lastPart_of_mem hdot]
    exact h
  · rw [actionVerb_of_not_mem hdot]
    rfl

theorem pyOpens_of_text (hws : inp.workspaceID = u.text) :
    s.PyOpens inp ↔ s.catalog.lookup inp.action = some true ∧
      ∃ e, s.workspaceActions.lookup u = some e ∧
        ¬(e.archived = true ∧ Projection.writes inp = true) ∧
        (s.admin = true ∨ inp.action ∈ e.actions ∨ s.useCaseAdmin = true) := by
  have hne : inp.workspaceID ≠ [] := by
    intro hnil
    have hlen := u.length_text
    rw [← hws, hnil] at hlen
    cases hlen
  constructor
  · rintro (⟨hnil, -⟩ | ⟨a, v, e, hslice, hblock, hpath⟩)
    · exact absurd hnil hne
    · have hjoin := hslice.key
      rw [hws] at hjoin
      obtain ⟨rfl, htext⟩ := append_last_sep_inj (colon_not_mem_text u) (colon_not_mem_text v) hjoin
      obtain rfl := Uuid.text_injective htext
      refine ⟨?_, e, hslice.entry, hblock, hpath.imp_right (Or.imp_right And.left)⟩
      exact hslice.written.elim (fun hmem => (of_mem_entry hslice.entry hmem).1) And.right
  · rintro ⟨hcat, e, he, hblock, hpath⟩
    obtain ⟨w, hw, hid, -⟩ := exists_of_lookup_workspaceActions he
    have hassigned : s.assignedWorkspaces ≠ [] := List.ne_nil_of_mem hw
    have htext : w.id.text = inp.workspaceID := by rw [hid, hws]
    refine .inr ⟨inp.action, u, e, ⟨by rw [hws], he, ?_⟩, hblock, ?_⟩
    · obtain hadmin | hmem | hflag := hpath
      · exact .inr ⟨.inl hadmin, hcat⟩
      · exact .inl hmem
      · exact .inr ⟨.inr ⟨hflag, hassigned⟩, hcat⟩
    · exact hpath.imp_right (Or.imp_right fun hflag => ⟨hflag, w, hw, htext⟩)

theorem workspaceOpens_of_text (hws : inp.workspaceID = u.text) : s.WorkspaceOpens env inp ↔
      (s.admin = true ∧ ¬(u ∈ s.archivedWorkspaceIDs ∧ Writes inp)) ∨
      (s.admin = false ∧ ∃ e, s.workspaceActions.lookup u = some e ∧
        ¬(e.archived = true ∧ Writes inp) ∧
        (inp.action ∈ e.actions ∨ s.useCaseAdmin = true)) := by
  have harch : (∃ v ∈ s.archivedWorkspaceIDs, v.text = inp.workspaceID) ↔
      u ∈ s.archivedWorkspaceIDs := by
    rw [hws]
    constructor
    · rintro ⟨v, hv, htext⟩
      rw [← Uuid.text_injective htext]
      exact hv
    · intro hu
      exact ⟨u, hu, rfl⟩
  unfold WorkspaceOpens
  rw [harch]
  refine or_congr_right (and_congr_right fun _ => ?_)
  constructor
  · rintro ⟨v, e, hparse, he, hblock, hpath⟩
    rw [hws, env.parse_text, Option.some.injEq] at hparse
    subst hparse
    exact ⟨e, he, hblock, hpath.imp_right And.left⟩
  · rintro ⟨e, he, hblock, hpath⟩
    obtain ⟨w, hw, hid, -⟩ := exists_of_lookup_workspaceActions he
    refine ⟨u, e, by rw [hws, env.parse_text], he, hblock, ?_⟩
    exact hpath.imp_right fun hflag => ⟨hflag, w, hw, by rw [hid, hws]⟩

/-- A workspace text that is no canonical one, and yet opens in `Decide`: for an admin,
and for the holder of the action in the workspace the text parses to. -/
def Respelt (env : Ext) (s : Snapshot) (inp : Input) : Prop :=
  s.catalog.lookup inp.action = some true ∧
    (s.admin = true ∨ ∃ u e, env.parse inp.workspaceID = some u ∧
      s.workspaceActions.lookup u = some e ∧ inp.action ∈ e.actions)

/-- A workspace text that is no canonical one, and yet ends in one: the key of the
request is that of a longer action. -/
def Spliced (s : Snapshot) (inp : Input) : Prop :=
  ∃ action u e, s.Slice inp action u e ∧
    ¬(e.archived = true ∧ Projection.writes inp = true) ∧
    (s.admin = true ∨ inp.action ∈ e.actions)

/-- The requests on which the slices and `Decide` agree. -/
structure PyMirrored (env : Ext) (s : Snapshot) (inp : Input) : Prop where
  /-- No slice opens a request that lacks a required field. -/
  blank : inp.Blank → ¬s.PyOpens inp
  /-- An admin is assigned to the workspace, or its archive blocks the write. -/
  unassigned : ¬inp.Blank → s.catalog.lookup inp.action = some true → s.admin = true →
    ∀ u, inp.workspaceID = u.text → s.workspaceActions.lookup u = none →
      u ∈ s.archivedWorkspaceIDs ∧ Writes inp
  /-- For an admin the archived set and the entry close the workspace to the same verbs. -/
  archive : ¬inp.Blank → s.catalog.lookup inp.action = some true → s.admin = true →
    ∀ u e, inp.workspaceID = u.text → s.workspaceActions.lookup u = some e →
      (u ∈ s.archivedWorkspaceIDs ∧ Writes inp ↔
        e.archived = true ∧ Projection.writes inp = true)
  /-- An action without a dot is no read verb of a workspace admin in an archive. -/
  dotless : ¬inp.Blank → s.catalog.lookup inp.action = some true → s.admin = false →
    s.useCaseAdmin = true → ∀ u e, inp.workspaceID = u.text →
      s.workspaceActions.lookup u = some e → e.archived = true → Writes inp →
      Projection.writes inp = true
  respelt : ¬inp.Blank → inp.workspaceID ≠ [] → (∀ u : Uuid, inp.workspaceID ≠ u.text) →
    (s.Respelt env inp ↔ s.Spliced inp)

theorem pyOpens_iff_of_text (hws : inp.workspaceID = u.text) :
    (s.PyOpens inp ↔ s.catalog.lookup inp.action = some true ∧ s.WorkspaceOpens env inp) ↔
      (s.catalog.lookup inp.action = some true →
        (s.admin = true → s.workspaceActions.lookup u = none →
          u ∈ s.archivedWorkspaceIDs ∧ Writes inp) ∧
        (s.admin = true → ∀ e, s.workspaceActions.lookup u = some e →
          (u ∈ s.archivedWorkspaceIDs ∧ Writes inp ↔
            e.archived = true ∧ Projection.writes inp = true)) ∧
        (s.admin = false → s.useCaseAdmin = true → ∀ e, s.workspaceActions.lookup u = some e →
          e.archived = true → Writes inp → Projection.writes inp = true)) := by
  rw [pyOpens_of_text hws, workspaceOpens_of_text hws, and_congr_right_iff]
  refine imp_congr_right fun _ => ?_
  cases hentry : s.workspaceActions.lookup u with
  | none => cases s.admin <;> simp
  | some e =>
    have hread : inp.action ∈ e.actions → ¬(e.archived = true ∧ Writes inp) :=
      fun hmem => (of_mem_entry hentry hmem).2
    have hw : Projection.writes inp = true → Writes inp := writes_of_policy
    simp only [Option.some.injEq, exists_eq_left', reduceCtorEq, false_implies, implies_true,
      true_and, forall_eq']
    cases s.admin with
    | true =>
      simp only [true_or, and_true, true_and, Bool.true_eq_false, false_and, or_false,
        false_implies, forall_const]
      rw [not_iff_not]
      exact iff_comm
    | false =>
      simp only [Bool.false_eq_true, false_and, false_or, true_and, false_implies, forall_const]
      by_cases hmem : inp.action ∈ e.actions
      · have hfree := hread hmem
        have hfree' : ¬(e.archived = true ∧ Projection.writes inp = true) :=
          fun h => hfree ⟨h.1, hw h.2⟩
        simp only [hfree, hfree', hmem, not_false_eq_true, true_or, and_self, true_iff]
        exact fun _ harch hwr => absurd ⟨harch, hwr⟩ hfree
      · simp only [hmem, false_or]
        constructor
        · intro h hflag harch hwr
          by_contra hno
          exact (h.mp ⟨fun hb => hno hb.2, hflag⟩).1 ⟨harch, hwr⟩
        · intro h
          constructor
          · rintro ⟨hblock, hflag⟩
            exact ⟨fun hb => hblock ⟨hb.1, h hflag hb.1 hb.2⟩, hflag⟩
          · rintro ⟨hblock, hflag⟩
            exact ⟨fun hb => hblock ⟨hb.1, hw hb.2⟩, hflag⟩

theorem respelt_iff (hother : ∀ u : Uuid, inp.workspaceID ≠ u.text) : s.Respelt env inp ↔
    s.catalog.lookup inp.action = some true ∧ s.WorkspaceOpens env inp := by
  unfold Respelt WorkspaceOpens
  refine and_congr_right fun _ => ?_
  constructor
  · rintro (hadmin | ⟨u, e, hparse, he, hmem⟩)
    · refine .inl ⟨hadmin, ?_⟩
      rintro ⟨⟨u, -, htext⟩, -⟩
      exact hother u htext.symm
    · cases hadmin : s.admin with
      | true =>
        refine .inl ⟨rfl, ?_⟩
        rintro ⟨⟨v, -, htext⟩, -⟩
        exact hother v htext.symm
      | false => exact .inr ⟨rfl, u, e, hparse, he, (of_mem_entry he hmem).2, .inl hmem⟩
  · rintro (⟨hadmin, -⟩ | ⟨-, u, e, hparse, he, -, hmem | ⟨-, w, -, htext⟩⟩)
    · exact .inl hadmin
    · exact .inr ⟨u, e, hparse, he, hmem⟩
    · exact absurd htext.symm (hother w.id)

theorem spliced_iff (hws : inp.workspaceID ≠ []) (hother : ∀ u : Uuid, inp.workspaceID ≠ u.text) :
    s.Spliced inp ↔ s.PyOpens inp := by
  constructor
  · rintro ⟨a, u, e, hslice, hblock, hpath⟩
    exact .inr ⟨a, u, e, hslice, hblock, hpath.imp_right Or.inl⟩
  · rintro (⟨hnil, -⟩ | ⟨a, u, e, hslice, hblock, hadmin | hmem | ⟨-, w, -, htext⟩⟩)
    · exact absurd hnil hws
    · exact ⟨a, u, e, hslice, hblock, .inl hadmin⟩
    · exact ⟨a, u, e, hslice, hblock, .inr hmem⟩
    · exact absurd htext.symm (hother w.id)

theorem pyOpens_of_no_workspace (hws : inp.workspaceID = []) :
    s.PyOpens inp ↔ s.TenantSliceOpens inp := by
  constructor
  · rintro (h | ⟨a, u, e, hslice, -⟩)
    · exact h
    · have hjoin := hslice.key
      rw [hws] at hjoin
      exact absurd hjoin join_nil_ne_join_text
  · exact Or.inl

/-- The single-key projection decides as `Decide` does on exactly the mirrored
requests. -/
theorem pyAllow_eq_decide_iff (env : Ext) (autonomous : Bool) {s : Snapshot} {inp : Input}
    (h : s.Asks inp) : (pyProjection env s autonomous inp).allow inp =
        ((s.reader env autonomous).decide env inp).run.allowed ↔ s.PyMirrored env inp := by
  rw [Bool.eq_iff_iff, pyProjection_allow_iff h]
  by_cases hblank : inp.Blank
  · have hdeny : ¬((s.reader env autonomous).decide env inp).run.allowed = true := by
      rw [decide_allowed_of_asks h]
      exact fun hd => hd.1 hblank
    constructor
    · intro hiff
      exact ⟨fun _ hopen => hdeny (hiff.mp hopen), fun hn => absurd hblank hn,
        fun hn => absurd hblank hn, fun hn => absurd hblank hn, fun hn => absurd hblank hn⟩
    · intro hm
      exact ⟨fun hopen => absurd hopen (hm.blank hblank), fun hd => absurd hd hdeny⟩
  · by_cases hws : inp.workspaceID = []
    · have hlen : ∀ u : Uuid, inp.workspaceID ≠ u.text := by
        intro u htext
        have hlen := u.length_text
        rw [← htext, hws] at hlen
        cases hlen
      rw [pyOpens_of_no_workspace hws, decide_allowed_of_no_workspace h hblank hws]
      refine ⟨fun _ => ?_, fun _ => Iff.rfl⟩
      exact ⟨fun hb => absurd hb hblank, fun _ _ _ u hu => absurd hu (hlen u),
        fun _ _ _ u _ hu => absurd hu (hlen u), fun _ _ _ _ u _ hu => absurd hu (hlen u),
        fun _ hne => absurd hws hne⟩
    · rw [decide_allowed_of_workspace h hblank hws]
      by_cases hother : ∀ u : Uuid, inp.workspaceID ≠ u.text
      · rw [← respelt_iff hother, ← spliced_iff hws hother]
        constructor
        · intro hiff
          exact ⟨fun hb => absurd hb hblank, fun _ _ _ u hu => absurd hu (hother u),
            fun _ _ _ u _ hu => absurd hu (hother u), fun _ _ _ _ u _ hu => absurd hu (hother u),
            fun _ _ _ => hiff.symm⟩
        · intro hm
          exact (hm.respelt hblank hws hother).symm
      · obtain ⟨u, hu⟩ := not_forall_not.mp hother
        rw [pyOpens_iff_of_text hu]
        constructor
        · intro hcond
          refine ⟨fun hb => absurd hb hblank, ?_, ?_, ?_, fun _ _ hn => absurd hu (hn u)⟩
          · intro _ hcat hadmin v hv hnone
            obtain rfl := Uuid.text_injective (hu.symm.trans hv)
            exact (hcond hcat).1 hadmin hnone
          · intro _ hcat hadmin v e hv he
            obtain rfl := Uuid.text_injective (hu.symm.trans hv)
            exact (hcond hcat).2.1 hadmin e he
          · intro _ hcat hadmin hflag v e hv he
            obtain rfl := Uuid.text_injective (hu.symm.trans hv)
            exact (hcond hcat).2.2 hadmin hflag e he
        · intro hm hcat
          exact ⟨fun hadmin hnone => hm.unassigned hblank hcat hadmin u hu hnone,
            fun hadmin e he => hm.archive hblank hcat hadmin u e hu he,
            fun hadmin hflag e he => hm.dotless hblank hcat hadmin hflag u e hu he⟩

/-- The user of the small tenant as an admin. -/
def sampleAdmin : Snapshot := { sampleSnapshot with admin := true }

/-- An admin in a live workspace the admin is not assigned to: `Decide` allows, and no
slice was written. -/
theorem pyAllow_ne_decide_admin :
    let inp := { sampleInput with resourceURN := [], workspaceID := (Uuid.ofByte 1).text }
    sampleAdmin.Asks inp ∧
      ((sampleAdmin.reader sampleExt false).decide sampleExt inp).run = Rbac.allow .adminBypass ∧
      (pyProjection sampleExt sampleAdmin false inp).allow inp = false := by
  intro inp
  exact ⟨⟨rfl, rfl, rfl, rfl⟩, by decide, by decide⟩

/-- The user of the small tenant, who is no admin. -/
theorem pyAllow_eq_decide_iff_user :
    let inp := { sampleInput with resourceURN := [], workspaceID := (Uuid.ofByte 1).text }
    sampleSnapshot.Asks inp ∧
      ((pyProjection sampleExt sampleSnapshot false inp).allow inp =
          ((sampleSnapshot.reader sampleExt false).decide sampleExt inp).run.allowed ↔
        sampleSnapshot.PyMirrored sampleExt inp) := by
  intro inp
  have hasks : sampleSnapshot.Asks inp := ⟨rfl, rfl, rfl, rfl⟩
  exact ⟨hasks, pyAllow_eq_decide_iff sampleExt false hasks⟩

end Requests

end Snapshot

end Windrose.Rbac

/-
  Rbac/Additive.lean --- what a snapshot gains and what an archived workspace closes.

  Source: services/rbac-service/internal/authz/decide.go ("additive only — no
  negative grants") over services/rbac-service/internal/projection/flatten.go.
-/
import Windrose.Rbac.Decide

set_option autoImplicit false

namespace Windrose.Rbac

open Windrose.Foundation

namespace Snapshot

section Paths

variable {env : Ext} {autonomous : Bool} {s : Snapshot} {inp : Input}

/-- The request is about the user and the tenant of the snapshot. -/
def Names (s : Snapshot) (inp : Input) : Prop :=
  inp.effectiveUser = s.userID ∧ (s.tenantID = Uuid.ofByte 0 ∨ s.tenantID.text = inp.tenant)

instance (s : Snapshot) (inp : Input) : Decidable (s.Names inp) :=
  inferInstanceAs (Decidable (_ ∧ _))

/-- What `Decide` knows about a request over the snapshot. -/
def facts (env : Ext) (s : Snapshot) (inp : Input) (isScoped : Bool) : Facts :=
  (s.reader env false).facts env inp isScoped

theorem reader_facts (b : Bool) : (s.reader env autonomous).facts env inp b = s.facts env inp b :=
  rfl

/-- The reader's context of a snapshot. -/
abbrev flatReader (env : Ext) (s : Snapshot) : FlatReader :=
  FlatReader.newFlatReader (flatten env s) s.catalog s.archivedWorkspaceIDs

theorem lookup_flats (user : Bytes) : (s.flatReader env).flats.lookup user =
    if user = s.userID then some (flatten env s) else none := by
  have hflats : (s.flatReader env).flats = (∅ : GoMap Bytes Flat).insert s.userID (flatten env s) :=
    rfl
  rw [hflats]
  by_cases h : user = s.userID
  · subst h
    rw [if_pos rfl, AList.lookup_insert]
  · rw [if_neg h, AList.lookup_insert_ne h]
    rfl

theorem flat_of_names (h : s.Names inp) :
    (s.flatReader env).flat inp.tenant inp.effectiveUser = some (flatten env s) := by
  obtain ⟨huser, htenant⟩ := h
  unfold FlatReader.flat
  rw [lookup_flats, if_pos huser]
  have hmatch : ¬(s.tenantID ≠ Uuid.ofByte 0 ∧ s.tenantID.text ≠ inp.tenant) := by
    rintro ⟨hnil, hne⟩
    exact htenant.elim hnil hne
  exact if_neg hmatch

theorem flat_of_not_names (h : ¬s.Names inp) :
    (s.flatReader env).flat inp.tenant inp.effectiveUser = none := by
  unfold FlatReader.flat
  rw [lookup_flats]
  by_cases huser : inp.effectiveUser = s.userID
  · rw [if_pos huser]
    have hmatch : s.tenantID ≠ Uuid.ofByte 0 ∧ s.tenantID.text ≠ inp.tenant :=
      ⟨fun hnil => h ⟨huser, .inl hnil⟩, fun ht => h ⟨huser, .inr ht⟩⟩
    exact if_pos hmatch
  · rw [if_neg huser]

/-! ## The facts of a snapshot -/

variable {b : Bool}

theorem facts_admin_iff : (s.facts env inp b).admin = true ↔ s.Names inp ∧ s.admin = true := by
  have hdef : (s.facts env inp b).admin =
    ((((s.flatReader env).flat inp.tenant inp.effectiveUser).map (·.flags)).map (·.admin)).getD
      false := rfl
  rw [hdef]
  by_cases h : s.Names inp
  · simp [flat_of_names h, h, flatten]
  · simp [flat_of_not_names h, h]

theorem facts_wsAdmin_iff :
    (s.facts env inp b).wsAdmin = true ↔ s.Names inp ∧ s.useCaseAdmin = true ∧
      ∃ w ∈ s.assignedWorkspaces, w.id.text = inp.workspaceID := by
  have hdef : (s.facts env inp b).wsAdmin =
    hasWsAdmin (((s.flatReader env).flat inp.tenant inp.effectiveUser).map (·.flags))
      inp.workspaceID := rfl
  rw [hdef]
  unfold hasWsAdmin
  by_cases h : s.Names inp
  · rw [flat_of_names h]
    simp only [Option.map_some, Option.getD_some, List.any_eq_true, decide_eq_true_eq, h, true_and,
      flatten, mem_wsAdmin]
    constructor
    · rintro ⟨u, ⟨hadmin, w, hw, rfl⟩, htext⟩
      exact ⟨hadmin, w, hw, htext⟩
    · rintro ⟨hadmin, w, hw, htext⟩
      exact ⟨w.id, ⟨hadmin, w, hw, rfl⟩, htext⟩
  · simp [flat_of_not_names h, h]

theorem facts_wsArchived_iff : (s.facts env inp b).wsArchived = true ↔
    ∃ u ∈ s.archivedWorkspaceIDs, u.text = inp.workspaceID := by
  have hdef : (s.facts env inp b).wsArchived =
    s.archivedWorkspaceIDs.any (·.text = inp.workspaceID) := rfl
  simp [hdef]

theorem facts_entry_eq : (s.facts env inp b).entry =
    if s.Names inp then (env.parse inp.workspaceID).bind (s.workspaceActions.lookup ·)
      else none := by
  have hdef : (s.facts env inp b).entry =
    ((s.flatReader env).flat inp.tenant inp.effectiveUser).bind fun f =>
      (env.parse inp.workspaceID).bind (f.workspaceActions.lookup ·) :=
    FlatReader.reader_workspace _ _ _ _ _
  rw [hdef]
  by_cases h : s.Names inp
  · rw [flat_of_names h, if_pos h]
    rfl
  · rw [flat_of_not_names h, if_neg h]
    rfl

theorem exists_of_facts_entry {e : WorkspaceEntry} (h : e ∈ (s.facts env inp b).entry) :
    s.Names inp ∧ ∃ w ∈ s.assignedWorkspaces, env.parse inp.workspaceID = some w.id ∧
      e = s.workspaceEntry w := by
  rw [facts_entry_eq] at h
  by_cases hn : s.Names inp
  · rw [if_pos hn] at h
    obtain ⟨u, hparse, hlookup⟩ := Option.bind_eq_some_iff.mp h
    obtain ⟨w, hw, rfl, he⟩ := exists_of_lookup_workspaceActions hlookup
    exact ⟨hn, w, hw, hparse, he⟩
  · rw [if_neg hn] at h
    cases h

theorem exists_facts_entry {w : WorkspaceRef} (hn : s.Names inp)
    (hw : w ∈ s.assignedWorkspaces) (hparse : env.parse inp.workspaceID = some w.id) :
    ∃ e, e ∈ (s.facts env inp b).entry := by
  rw [facts_entry_eq, if_pos hn, hparse, Option.bind_some]
  exact exists_lookup_workspaceActions hw

theorem facts_tenantActions {a : Bytes} : a ∈ (s.facts env inp b).tenantActions ↔
      s.Names inp ∧ a ∈ s.actions ∧ s.catalog.lookup a = some false := by
  have hdef : (s.facts env inp b).tenantActions =
    (((s.flatReader env).flat inp.tenant inp.effectiveUser).map (·.tenantActions)).getD [] := rfl
  rw [hdef]
  by_cases h : s.Names inp
  · simp [flat_of_names h, h, flatten, mem_scopedActions]
  · simp [flat_of_not_names h, h]

/-- The grants that bear on a request. -/
def requestGrants (env : Ext) (s : Snapshot) (inp : Input) : List ResourceGrant :=
  if s.Names inp ∧ inp.resourceURN ≠ [] then
    grantsAt env s.resourceGrants (urnHash env inp.resourceURN)
  else []

theorem facts_grant : match (s.facts env inp b).grant with
    | some g => ∃ e : ResourceEntry, g = (e.level, e.archived) ∧ Merges (s.requestGrants env inp) e
    | none => s.requestGrants env inp = [] := by
  have hdef : (s.facts env inp b).grant =
    if inp.resourceURN = [] then none
    else (((s.flatReader env).flat inp.tenant inp.effectiveUser).bind
      (·.resources.lookup (urnHash env inp.resourceURN))).map fun e => (e.level, e.archived) := rfl
  rw [hdef]
  unfold requestGrants
  by_cases hurn : inp.resourceURN = []
  · simp [hurn]
  · by_cases h : s.Names inp
    · rw [if_neg hurn, flat_of_names h, if_pos ⟨h, hurn⟩, Option.bind_some]
      have hmerge := lookup_addGrants env s.resourceGrants (urnHash env inp.resourceURN)
      have hres : (flatten env s).resources = s.resourceGrants.foldl (addGrant env) ∅ := rfl
      rw [hres]
      generalize (s.resourceGrants.foldl (addGrant env) ∅).lookup (urnHash env inp.resourceURN) = o
        at hmerge ⊢
      cases o with
      | none => exact hmerge
      | some e => exact ⟨e, rfl, hmerge⟩
    · rw [if_neg hurn, flat_of_not_names h, if_neg fun hc => h hc.1]
      rfl

/-- A grant opens when one of the merged grants has a level that allows the verb and,
for a write, one of them is live. -/
theorem facts_grantOpens_iff : (s.facts env inp b).GrantOpens ↔
    (∃ g ∈ s.requestGrants env inp, levelAllowsVerb g.level (actionVerb inp.action) = true) ∧
      ((s.facts env inp b).Writes → ∃ g ∈ s.requestGrants env inp, g.archived = false) := by
  have hgrant := @facts_grant env s inp b
  unfold Facts.GrantOpens
  cases hg : (s.facts env inp b).grant with
  | none =>
    rw [hg] at hgrant
    simp only at hgrant
    simp [hgrant]
  | some g =>
    rw [hg] at hgrant
    obtain ⟨e, rfl, hmerge⟩ := hgrant
    have hlevel : levelAllowsVerb e.level (actionVerb inp.action) = true ↔
        ∃ g ∈ s.requestGrants env inp, levelAllowsVerb g.level (actionVerb inp.action) = true := by
      constructor
      · intro h
        obtain ⟨g, hg, hl⟩ := hmerge.level_mem
        exact ⟨g, hg, by rw [hl]; exact h⟩
      · rintro ⟨g, hg, h⟩
        exact levelAllowsVerb_mono (hmerge.rank_le g hg) h
    have hlive : ¬(e.archived = true ∧ (s.facts env inp b).Writes) ↔
        ((s.facts env inp b).Writes → ∃ g ∈ s.requestGrants env inp, g.archived = false) := by
      rw [hmerge.archived_iff]
      constructor
      · intro h hw
        by_contra hne
        refine h ⟨fun g hg => ?_, hw⟩
        by_contra ha
        exact hne ⟨g, hg, Bool.eq_false_of_not_eq_true ha⟩
      · rintro h ⟨hall, hw⟩
        obtain ⟨g, hg, ha⟩ := h hw
        rw [hall g hg] at ha
        cases ha
    rw [← hlevel, ← hlive]
    simp [facts]

end Paths

/-! ## Gaining access -/

/-- `t` is a snapshot of the same user under the same catalog and archived workspaces,
with at least the actions, assignments, grants and role flags of `s`. -/
structure Grows (s t : Snapshot) : Prop where
  tenantID : t.tenantID = s.tenantID
  userID : t.userID = s.userID
  catalog : t.catalog = s.catalog
  archived : ∀ u, u ∈ t.archivedWorkspaceIDs ↔ u ∈ s.archivedWorkspaceIDs
  actions : s.actions ⊆ t.actions
  assigned : s.assignedWorkspaces ⊆ t.assignedWorkspaces
  grants : s.resourceGrants ⊆ t.resourceGrants
  admin : s.admin = true → t.admin = true
  useCaseAdmin : s.useCaseAdmin = true → t.useCaseAdmin = true

/-- The gain shuts the user out of a write: the user was no admin and had the
workspace of the request not as an archived one of the user's own, so a path was
open; the gain makes the user an admin in a workspace of the archived set, or brings
the workspace as an archived one. -/
structure Locked (env : Ext) (s t : Snapshot) (inp : Input) (b : Bool) : Prop where
  base : (s.reader env false).Base inp b
  writes : (s.facts env inp b).Writes
  noAdmin : (s.facts env inp b).admin = false
  notOwn : ∀ e ∈ (s.facts env inp b).entry, e.archived = false
  path : (s.facts env inp b).AssignedOpens ∨ (s.facts env inp b).GrantOpens
  gain : ((t.facts env inp b).admin = true ∧ inp.workspaceID ≠ [] ∧
      (s.facts env inp b).wsArchived = true) ∨
    ((t.facts env inp b).admin = false ∧ b = true ∧
      ∃ e ∈ (t.facts env inp b).entry, e.archived = true)

section Grows

variable {env : Ext} {autonomous : Bool} {s t : Snapshot} {inp : Input} {b : Bool}

theorem Grows.names (h : Grows s t) : t.Names inp ↔ s.Names inp := by
  unfold Names
  rw [h.tenantID, h.userID]

theorem Grows.base (h : Grows s t) :
    (t.reader env autonomous).Base inp b ↔ (s.reader env autonomous).Base inp b := by
  have hcat : (t.reader env autonomous).actionScoped inp.action =
      (s.reader env autonomous).actionScoped inp.action := by
    have ht : (t.reader env autonomous).actionScoped inp.action = t.catalog.lookup inp.action := rfl
    rw [ht, h.catalog]
    rfl
  unfold Reader.Base
  rw [hcat]

theorem Grows.facts_admin (h : Grows s t) (ha : (s.facts env inp b).admin = true) :
    (t.facts env inp b).admin = true := by
  rw [facts_admin_iff] at ha ⊢
  exact ⟨h.names.mpr ha.1, h.admin ha.2⟩

theorem Grows.facts_wsAdmin (h : Grows s t) (ha : (s.facts env inp b).wsAdmin = true) :
    (t.facts env inp b).wsAdmin = true := by
  rw [facts_wsAdmin_iff] at ha ⊢
  obtain ⟨hn, hflag, w, hw, htext⟩ := ha
  exact ⟨h.names.mpr hn, h.useCaseAdmin hflag, w, h.assigned hw, htext⟩

theorem Grows.facts_wsArchived (h : Grows s t) :
    (t.facts env inp b).wsArchived = (s.facts env inp b).wsArchived := by
  rw [Bool.eq_iff_iff, facts_wsArchived_iff, facts_wsArchived_iff]
  constructor
  · rintro ⟨u, hu, htext⟩
    exact ⟨u, (h.archived u).mp hu, htext⟩
  · rintro ⟨u, hu, htext⟩
    exact ⟨u, (h.archived u).mpr hu, htext⟩

theorem Grows.writeBlock (h : Grows s t) :
    (t.facts env inp b).WriteBlock ↔ (s.facts env inp b).WriteBlock := by
  unfold Facts.WriteBlock
  rw [h.facts_wsArchived]
  rfl

theorem Grows.requestGrants (h : Grows s t) :
    s.requestGrants env inp ⊆ t.requestGrants env inp := by
  intro g hg
  unfold Snapshot.requestGrants at hg ⊢
  by_cases hc : s.Names inp ∧ inp.resourceURN ≠ []
  · rw [if_pos hc, mem_grantsAt] at hg
    rw [if_pos ⟨h.names.mpr hc.1, hc.2⟩, mem_grantsAt]
    exact ⟨h.grants hg.1, hg.2⟩
  · rw [if_neg hc] at hg
    cases hg

theorem Grows.grantOpens (h : Grows s t) (hg : (s.facts env inp b).GrantOpens) :
    (t.facts env inp b).GrantOpens := by
  rw [facts_grantOpens_iff] at hg ⊢
  obtain ⟨⟨g, hmem, hlevel⟩, hlive⟩ := hg
  refine ⟨⟨g, h.requestGrants hmem, hlevel⟩, fun hw => ?_⟩
  obtain ⟨g', hmem', ha⟩ := hlive hw
  exact ⟨g', h.requestGrants hmem', ha⟩

theorem Grows.tenantOpens (h : Grows s t) (ht : (s.facts env inp b).TenantOpens) :
    (t.facts env inp b).TenantOpens := by
  obtain ⟨hb, hmem⟩ := ht
  refine ⟨hb, ?_⟩
  have haction : (s.facts env inp b).action = inp.action := rfl
  rw [haction, facts_tenantActions] at hmem
  have haction' : (t.facts env inp b).action = inp.action := rfl
  rw [haction', facts_tenantActions, h.catalog]
  exact ⟨h.names.mpr hmem.1, h.actions hmem.2.1, hmem.2.2⟩

theorem Grows.assignedOpens (h : Grows s t) (ha : (s.facts env inp b).AssignedOpens)
    (hopen : ∀ e ∈ (t.facts env inp b).entry, ¬(e.archived = true ∧ (t.facts env inp b).Writes)) :
    (t.facts env inp b).AssignedOpens := by
  obtain ⟨hb, e, he, -, hpath⟩ := ha
  obtain ⟨hn, w, hw, hparse, rfl⟩ := exists_of_facts_entry he
  obtain ⟨e', he'⟩ := exists_facts_entry (h.names.mpr hn) (h.assigned hw) hparse
  refine ⟨hb, e', he', hopen e' he', ?_⟩
  obtain hrole | hws := hpath
  · -- The entry of the larger snapshot may be that of another assignment to the workspace.
    obtain ⟨-, w', -, -, rfl⟩ := exists_of_facts_entry he'
    have haction : (s.facts env inp b).action = inp.action := rfl
    rw [haction, mem_workspaceEntry] at hrole
    refine .inl (mem_workspaceEntry.mpr ⟨⟨h.actions hrole.1.1, ?_⟩, ?_⟩)
    · rw [h.catalog]
      exact hrole.1.2
    · intro harch
      by_contra hread
      exact hopen _ he' ⟨harch, Bool.eq_false_of_not_eq_true hread⟩
  · exact .inr (h.facts_wsAdmin hws)

/-- Past the archived denials of the larger snapshot, every path of the smaller one is
open. -/
theorem Grows.opens (h : Grows s t) (hdeny : ¬(t.facts env inp b).ArchivedDeny)
    (ho : (s.facts env inp b).Opens) : (t.facts env inp b).Opens := by
  by_cases hadmin : (t.facts env inp b).admin = true
  · exact .inl ⟨hadmin, fun hblock => hdeny (.inl ⟨hadmin, hblock⟩)⟩
  · obtain ho | ho | ho | ho := ho
    · exact absurd (h.facts_admin ho.1) hadmin
    · refine .inr (.inl (h.assignedOpens ho fun e he hclosed => hdeny (.inr ?_)))
      exact ⟨Bool.eq_false_of_not_eq_true hadmin, ho.1, e, he, hclosed⟩
    · exact .inr (.inr (.inl (h.tenantOpens ho)))
    · exact .inr (.inr (.inr (h.grantOpens ho)))

/-- A request that a gain shuts out was allowed before it and is denied after it. -/
theorem Locked.allowed_and_denied (autonomous : Bool) (h : Grows s t) (hblank : ¬inp.Blank)
    (hsvc : ¬inp.ServiceScope)
    (hl : Locked env s t inp b) : ((s.reader env autonomous).decide env inp).run.allowed = true ∧
      ¬((t.reader env autonomous).decide env inp).run.allowed = true := by
  have hbase : (s.reader env autonomous).Base inp b := hl.base
  constructor
  · rw [Reader.decide_allowed_of_base hblank hsvc hbase, reader_facts]
    refine ⟨?_, hl.path.elim (fun hp => .inr (.inl hp)) (fun hp => .inr (.inr (.inr hp)))⟩
    rintro (⟨ha, -⟩ | ⟨-, -, e, he, harch, -⟩)
    · rw [hl.noAdmin] at ha
      cases ha
    · rw [hl.notOwn e he] at harch
      cases harch
  · rw [Reader.decide_allowed_of_base hblank hsvc (h.base.mpr hbase), reader_facts]
    rintro ⟨hdeny, -⟩
    apply hdeny
    obtain ⟨ha, hws, harch⟩ | ⟨ha, hb, e, he, harch⟩ := hl.gain
    · refine .inl ⟨ha, h.writeBlock.mpr ⟨hws, harch, hl.writes⟩⟩
    · exact .inr ⟨ha, hb, e, he, harch, hl.writes⟩

/-- An archived denial that only the larger snapshot meets shuts the user out. -/
theorem Grows.locked (h : Grows s t) (hbase : (s.reader env autonomous).Base inp b)
    (hdeny : ¬(s.facts env inp b).ArchivedDeny) (ho : (s.facts env inp b).Opens)
    (hdeny' : (t.facts env inp b).ArchivedDeny) : Locked env s t inp b := by
  have hscoped : b = true := by
    obtain ⟨-, hws, -⟩ | ⟨-, hb, -⟩ := hdeny'
    · exact hbase.2.2.mpr hws
    · exact hb
  have hwrites : (s.facts env inp b).Writes := by
    obtain ⟨-, -, -, hw⟩ | ⟨-, -, e, -, -, hw⟩ := hdeny'
    · exact hw
    · exact hw
  have hnoAdmin : (s.facts env inp b).admin = false := by
    apply Bool.eq_false_of_not_eq_true
    intro ha
    obtain ⟨-, hblock⟩ | ⟨ha', -⟩ := hdeny'
    · exact hdeny (.inl ⟨ha, h.writeBlock.mp hblock⟩)
    · rw [h.facts_admin ha] at ha'
      cases ha'
  refine ⟨hbase, hwrites, hnoAdmin, ?_, ?_, ?_⟩
  · intro e he
    apply Bool.eq_false_of_not_eq_true
    intro harch
    exact hdeny (.inr ⟨hnoAdmin, hscoped, e, he, harch, hwrites⟩)
  · obtain ⟨ha, -⟩ | ho | ⟨hb, -⟩ | ho := ho
    · rw [hnoAdmin] at ha
      cases ha
    · exact .inl ho
    · exact absurd (hscoped.symm.trans hb) Bool.true_eq_false.mp
    · exact .inr ho
  · obtain ⟨ha, hws, harch, -⟩ | ⟨ha, -, e, he, harch, -⟩ := hdeny'
    · exact .inl ⟨ha, hws, h.facts_wsArchived ▸ harch⟩
    · exact .inr ⟨ha, hscoped, e, he, harch⟩

/-- A gain keeps an allowed request allowed, unless it shuts the user out of it. -/
theorem decide_additive_iff (env : Ext) (autonomous : Bool) {s t : Snapshot} (h : Grows s t)
    (inp : Input) : (((s.reader env autonomous).decide env inp).run.allowed = true →
      ((t.reader env autonomous).decide env inp).run.allowed = true) ↔
      ¬(¬inp.Blank ∧ ¬inp.ServiceScope ∧ ∃ b, Locked env s t inp b) := by
  constructor
  · rintro hmono ⟨hblank, hsvc, b, hl⟩
    obtain ⟨hs, ht⟩ := hl.allowed_and_denied autonomous h hblank hsvc
    exact ht (hmono hs)
  · intro hnot hs
    obtain ⟨hblank, hsvc | hauto | ⟨b, hbase, hdeny, ho⟩⟩ := Reader.decide_allowed_iff.mp hs
    · exact Reader.decide_allowed_iff.mpr ⟨hblank, .inl hsvc⟩
    · refine Reader.decide_allowed_iff.mpr ⟨hblank, .inr (.inl ?_)⟩
      obtain ⟨hknown, hscope, hon⟩ := hauto
      refine ⟨?_, hscope, hon⟩
      have hcat : (t.reader env autonomous).actionScoped inp.action = t.catalog.lookup inp.action :=
        rfl
      rw [hcat, h.catalog]
      exact hknown
    · rw [reader_facts] at hdeny ho
      by_cases hsvc : inp.ServiceScope
      · exact Reader.decide_allowed_iff.mpr ⟨hblank, .inl hsvc⟩
      · have hdeny' : ¬(t.facts env inp b).ArchivedDeny := fun hd =>
          hnot ⟨hblank, hsvc, b, h.locked hbase hdeny ho hd⟩
        rw [Reader.decide_allowed_of_base hblank hsvc (h.base.mpr hbase), reader_facts]
        exact ⟨hdeny', h.opens hdeny' ho⟩

/-- An assignment to the archived workspace takes away the write that a live grant
through another workspace allowed. -/
theorem decide_not_additive :
    let t := { sampleSnapshot with assignedWorkspaces := [⟨Uuid.ofByte 3, true⟩] }
    Grows sampleSnapshot t ∧
      ((sampleSnapshot.reader sampleExt false).decide sampleExt sampleInput).run =
        allow (.resourceGrant .editor) ∧
      ((t.reader sampleExt false).decide sampleExt sampleInput).run = deny .workspaceArchived := by
  refine ⟨⟨rfl, rfl, rfl, fun _ => Iff.rfl, List.Subset.refl _, List.nil_subset _,
    List.Subset.refl _, id, id⟩, ?_⟩
  decide

/-- An assignment to a live workspace gains its actions and loses nothing. -/
theorem decide_additive_live :
    let t := { sampleSnapshot with assignedWorkspaces := [⟨Uuid.ofByte 1, false⟩] }
    let inp := { sampleInput with workspaceID := (Uuid.ofByte 1).text }
    Grows sampleSnapshot t ∧
      ((((sampleSnapshot.reader sampleExt false).decide sampleExt inp).run.allowed = true →
        ((t.reader sampleExt false).decide sampleExt inp).run.allowed = true) ↔
        ¬(¬inp.Blank ∧ ¬inp.ServiceScope ∧ ∃ b, Locked sampleExt sampleSnapshot t inp b)) := by
  have hgrows : Grows sampleSnapshot
      { sampleSnapshot with assignedWorkspaces := [⟨Uuid.ofByte 1, false⟩] } :=
    ⟨rfl, rfl, rfl, fun _ => Iff.rfl, List.Subset.refl _, List.nil_subset _,
      List.Subset.refl _, id, id⟩
  exact ⟨hgrows, decide_additive_iff sampleExt false hgrows _⟩

end Grows

/-! ## Writes into an archived workspace -/

/-- The archived flags of a snapshot are those of its archived workspaces. -/
structure FlagsAgree (s : Snapshot) : Prop where
  assigned : ∀ w ∈ s.assignedWorkspaces, w.archived = true ↔ w.id ∈ s.archivedWorkspaceIDs
  grants : ∀ g ∈ s.resourceGrants, g.archived = true ↔ g.workspaceID ∈ s.archivedWorkspaceIDs

/-- The ways past the write protection of the workspace `u`: an admin who spells its
id in another way than the canonical one, and a user who is neither admin nor
assigned to it, with a grant of a fitting level and a grant through a workspace that
is not archived on the resource. -/
def Bypasses (env : Ext) (s : Snapshot) (inp : Input) (u : Uuid) : Prop :=
  s.Names inp ∧
    ((s.admin = true ∧ u.text ≠ inp.workspaceID) ∨
      (s.admin = false ∧ (∀ w ∈ s.assignedWorkspaces, w.id ≠ u) ∧
        (∃ g ∈ s.requestGrants env inp, levelAllowsVerb g.level (actionVerb inp.action) = true) ∧
        ∃ g ∈ s.requestGrants env inp, g.workspaceID ∉ s.archivedWorkspaceIDs))

section Archived

variable {env : Ext} {autonomous : Bool} {s : Snapshot} {inp : Input} {u : Uuid}

theorem facts_wsArchived_iff_text {b : Bool} (hu : u ∈ s.archivedWorkspaceIDs)
    (hparse : env.parse inp.workspaceID = some u) :
    (s.facts env inp b).wsArchived = true ↔ u.text = inp.workspaceID := by
  rw [facts_wsArchived_iff]
  constructor
  · rintro ⟨v, -, hv⟩
    have hpv := env.parse_text v
    rw [hv, hparse, Option.some.injEq] at hpv
    rw [hpv]
    exact hv
  · intro htext
    exact ⟨u, hu, htext⟩

theorem archived_of_mem_entry (hagree : s.FlagsAgree) (hu : u ∈ s.archivedWorkspaceIDs)
    (hparse : env.parse inp.workspaceID = some u) {b : Bool} {e : WorkspaceEntry}
    (he : e ∈ (s.facts env inp b).entry) : e.archived = true := by
  obtain ⟨-, w, hw, hpw, rfl⟩ := exists_of_facts_entry he
  have hid : w.id = u := Option.some.inj (hpw.symm.trans hparse)
  exact (hagree.assigned w hw).mpr (hid ▸ hu)

theorem exists_live_iff (hagree : s.FlagsAgree) :
    (∃ g ∈ s.requestGrants env inp, g.archived = false) ↔
      ∃ g ∈ s.requestGrants env inp, g.workspaceID ∉ s.archivedWorkspaceIDs := by
  have hmem : ∀ g ∈ s.requestGrants env inp, g ∈ s.resourceGrants := by
    intro g hg
    unfold requestGrants at hg
    split at hg
    · exact (mem_grantsAt.mp hg).1
    · cases hg
  have hlive : ∀ g ∈ s.requestGrants env inp,
      (g.archived = false ↔ g.workspaceID ∉ s.archivedWorkspaceIDs) := by
    intro g hg
    rw [← hagree.grants g (hmem g hg), Bool.not_eq_true]
  constructor
  · rintro ⟨g, hg, h⟩
    exact ⟨g, hg, (hlive g hg).mp h⟩
  · rintro ⟨g, hg, h⟩
    exact ⟨g, hg, (hlive g hg).mpr h⟩

theorem workspaceID_ne_nil (hparse : env.parse inp.workspaceID = some u) :
    inp.workspaceID ≠ [] := by
  intro hnil
  rw [hnil, env.parse_nil] at hparse
  cases hparse

theorem names_of_requestGrants {g : ResourceGrant} (h : g ∈ s.requestGrants env inp) :
    s.Names inp := by
  unfold requestGrants at h
  split at h
  · rename_i hc
    exact hc.1
  · cases h

theorem opens_archived_iff (hagree : s.FlagsAgree) (hu : u ∈ s.archivedWorkspaceIDs)
    (hparse : env.parse inp.workspaceID = some u) (hwrites : (s.facts env inp true).Writes) :
    (¬(s.facts env inp true).ArchivedDeny ∧ (s.facts env inp true).Opens) ↔
      s.Bypasses env inp u := by
  have harchived := @archived_of_mem_entry env s inp u hagree hu hparse true
  constructor
  · rintro ⟨hdeny, ho⟩
    by_cases hadmin : (s.facts env inp true).admin = true
    · obtain ⟨hn, ha⟩ := facts_admin_iff.mp hadmin
      refine ⟨hn, .inl ⟨ha, fun htext => hdeny (.inl ⟨hadmin, ?_⟩)⟩⟩
      exact ⟨workspaceID_ne_nil hparse, (facts_wsArchived_iff_text hu hparse).mpr htext, hwrites⟩
    · have hnoEntry : ∀ e, e ∉ (s.facts env inp true).entry := fun e he => hdeny
        (.inr ⟨Bool.eq_false_of_not_eq_true hadmin, rfl, e, he, harchived he, hwrites⟩)
      obtain ⟨ha, -⟩ | ⟨-, e, he, -⟩ | ⟨hb, -⟩ | ho := ho
      · exact absurd ha hadmin
      · exact absurd he (hnoEntry e)
      · cases hb
      · obtain ⟨hlevel, hlive⟩ := facts_grantOpens_iff.mp ho
        have hn : s.Names inp := names_of_requestGrants hlevel.choose_spec.1
        refine ⟨hn, .inr ⟨?_, ?_, hlevel, (exists_live_iff hagree).mp (hlive hwrites)⟩⟩
        · exact Bool.eq_false_of_not_eq_true fun ha => hadmin (facts_admin_iff.mpr ⟨hn, ha⟩)
        · intro w hw hid
          obtain ⟨e, he⟩ := exists_facts_entry (b := true) hn hw (hid ▸ hparse)
          exact hnoEntry e he
  · rintro ⟨hn, ⟨ha, htext⟩ | ⟨ha, hnot, hlevel, hlive⟩⟩
    · have hadmin : (s.facts env inp true).admin = true := facts_admin_iff.mpr ⟨hn, ha⟩
      have hblock : ¬(s.facts env inp true).WriteBlock := fun h =>
        htext ((facts_wsArchived_iff_text hu hparse).mp h.2.1)
      refine ⟨?_, .inl ⟨hadmin, hblock⟩⟩
      rintro (⟨-, h⟩ | ⟨h, -⟩)
      · exact hblock h
      · rw [hadmin] at h
        cases h
    · have hadmin : ¬(s.facts env inp true).admin = true := by
        rw [facts_admin_iff, ha]
        exact fun h => Bool.false_ne_true h.2
      refine ⟨?_, .inr (.inr (.inr (facts_grantOpens_iff.mpr ⟨hlevel, fun _ => ?_⟩)))⟩
      · rintro (⟨h, -⟩ | ⟨-, -, e, he, -⟩)
        · exact hadmin h
        · obtain ⟨-, w, hw, hpw, -⟩ := exists_of_facts_entry he
          exact hnot w hw (Option.some.inj (hpw.symm.trans hparse))
      · exact (exists_live_iff hagree).mpr hlive

/-- A write into an archived workspace is denied, unless it takes the user path in one
of the two ways past the protection. -/
theorem archived_write_denied_iff (env : Ext) (autonomous : Bool) {s : Snapshot} {inp : Input}
    {u : Uuid} (hagree : s.FlagsAgree)
    (htyp : inp.subject.typ = .user ∨ inp.subject.typ = .agentObo)
    (hu : u ∈ s.archivedWorkspaceIDs) (hparse : env.parse inp.workspaceID = some u)
    (hverb : archivedReadVerbs (actionVerb inp.action) = false) :
    ((s.reader env autonomous).decide env inp).run.allowed = false ↔
      ¬(¬inp.Blank ∧ (s.reader env autonomous).Base inp true ∧ s.Bypasses env inp u) := by
  have hsvc : ¬inp.ServiceScope := by
    rintro ⟨h, -⟩
    obtain ht | ht := htyp <;> rw [ht] at h <;> cases h
  have hauto : ¬(s.reader env autonomous).Autonomous inp := by
    rintro ⟨-, ⟨h, -⟩, -⟩
    obtain ht | ht := htyp <;> rw [ht] at h <;> cases h
  rw [← Bool.not_eq_true, not_iff_not, Reader.decide_allowed_iff]
  constructor
  · rintro ⟨hblank, h | h | ⟨b, hbase, h⟩⟩
    · exact absurd h hsvc
    · exact absurd h hauto
    · obtain rfl : b = true := hbase.2.2.mpr (workspaceID_ne_nil hparse)
      exact ⟨hblank, hbase, (opens_archived_iff hagree hu hparse hverb).mp h⟩
  · rintro ⟨hblank, hbase, h⟩
    exact ⟨hblank, .inr (.inr ⟨true, hbase, (opens_archived_iff hagree hu hparse hverb).mpr h⟩)⟩

theorem sampleSnapshot_flagsAgree : sampleSnapshot.FlagsAgree := by
  constructor
  · intro w hw
    cases hw
  · decide

/-- A user without a role in the archived workspace writes there through a grant of a
live workspace. -/
theorem archived_write_allowed : sampleSnapshot.FlagsAgree ∧ sampleInput.subject.typ = .user ∧
      Uuid.ofByte 3 ∈ sampleSnapshot.archivedWorkspaceIDs ∧
      sampleExt.parse sampleInput.workspaceID = some (Uuid.ofByte 3) ∧
      archivedReadVerbs (actionVerb sampleInput.action) = false ∧
      ((sampleSnapshot.reader sampleExt false).decide sampleExt sampleInput).run =
        allow (.resourceGrant .editor) := by
  refine ⟨sampleSnapshot_flagsAgree, ?_⟩
  decide

/-- The same user, once assigned to the archived workspace. -/
theorem archived_write_denied_assigned :
    let s := { sampleSnapshot with assignedWorkspaces := [⟨Uuid.ofByte 3, true⟩] }
    ((s.reader sampleExt false).decide sampleExt sampleInput).run.allowed = false ↔
      ¬(¬sampleInput.Blank ∧ (s.reader sampleExt false).Base sampleInput true ∧
        s.Bypasses sampleExt sampleInput (Uuid.ofByte 3)) := by
  refine archived_write_denied_iff sampleExt false ⟨?_, ?_⟩ (.inl rfl) ?_ ?_ ?_
  · decide
  · decide
  · decide
  · decide
  · decide

end Archived

end Snapshot

end Windrose.Rbac

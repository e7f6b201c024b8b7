/-
  Rbac/InputParity.lean --- `Decide` against the input-projection policy.

  Source: libs/go-common/opaclient/projection.go (ProjectionLoader.Load) and
  services/rbac-service/internal/authz/decide.go over RedisReader.

  The loader and the reader find the same facts in a store, so the engines can
  differ only by what they make of them: the order of the archived denials, the
  verb of an action without a dot, and what they report of a projection that is
  absent.
-/
import Windrose.Rbac.PolicyInput

set_option autoImplicit false

namespace Windrose.Rbac

open Windrose.Foundation

/-! ## The loader -/

section Load

variable (env : Ext) (store : Store) (inp : Input)

/-- The entry of the request's workspace. -/
def loadWorkspace : Option WorkspaceEntry :=
  if inp.workspaceID = [] then none
  else (live (store (keyWorkspace inp.tenant inp.effectiveUser inp.workspaceID))).bind fun v =>
    v.actionList.map fun as => ⟨as, v.archived⟩

/-- Whether the tenant's archived set has the request's workspace. -/
def loadArchived : Bool :=
  inp.workspaceID ≠ [] &&
    (store (keyArchivedWs inp.tenant)).any fun v => v.workspaces.any (· = inp.workspaceID)

/-- The grant on the request's resource. -/
def loadResource : Option ResourceEntry :=
  if inp.resourceURN = [] then none
  else (live (store (keyResource inp.tenant inp.effectiveUser
    (urnHash env inp.resourceURN)))).map (·.resource)

/-- The catalog's `workspace_scoped` of the request's action. -/
def loadScoped : Option Bool :=
  (store catalogKey).bind fun v => v.actionMap.bind (·.lookup inp.action)

/-- `ProjectionLoader.Load`. -/
def load : Projection where
  actionKnown := (loadScoped store inp).isSome
  actionScoped := (loadScoped store inp).getD false
  autonomousEnabled := (store (keyTenantMeta inp.tenant)).any (·.autonomousEnabled)
  flagsFound := (store (keyFlags inp.tenant inp.effectiveUser)).isSome
  admin := (store (keyFlags inp.tenant inp.effectiveUser)).any (·.admin)
  wsAdmin := ((store (keyFlags inp.tenant inp.effectiveUser)).map (·.wsAdmin)).getD []
  tenantFound := ((store (keyActions inp.tenant inp.effectiveUser)).bind (·.actionList)).isSome
  tenantActions := ((store (keyActions inp.tenant inp.effectiveUser)).bind (·.actionList)).getD []
  assigned := (loadWorkspace store inp).isSome
  wsActions := ((loadWorkspace store inp).map (·.actions)).getD []
  wsArchived := (loadWorkspace store inp).any (·.archived)
  resourceFound := (loadResource env store inp).isSome
  level := ((loadResource env store inp).map (·.level)).getD (.other [])
  resourceArchived := (loadResource env store inp).any (·.archived)
  workspaceArchivedTenant := loadArchived store inp

end Load

/-! ## The facts of the two engines -/

section Facts

variable {env : Ext} {store : Store} {inp : Input} {b : Bool}

theorem any_filterMap_wsAdmin (v : Value) (w : Bytes) :
    (v.wsAdmin.filterMap env.parse).any (·.text = w) = v.wsAdmin.any (· = w) := by
  have hids : ∀ ids : List Uuid, (ids.map (·.text)).filterMap env.parse = ids := by
    intro ids
    rw [List.filterMap_map, show env.parse ∘ (·.text) = some from funext env.parse_text,
      List.filterMap_some]
  cases v with
  | flags n f =>
    simp only [Value.wsAdmin]
    rw [hids, List.any_map]
    rfl
  | _ => rfl

theorem entry_of_parts (o : Option WorkspaceEntry) :
    (if o.isSome then some (⟨(o.map (·.actions)).getD [], o.any (·.archived)⟩ : WorkspaceEntry)
      else none) = o := by
  cases o <;> rfl

theorem grant_of_parts (o : Option ResourceEntry) :
    (if o.isSome then some ((o.map (·.level)).getD (.other []), o.any (·.archived)) else none) =
      o.map fun e => (e.level, e.archived) := by
  cases o <;> rfl

theorem load_facts_entry : ((load env store inp).facts inp).entry = loadWorkspace store inp :=
  entry_of_parts (loadWorkspace store inp)

theorem load_facts_grant : ((load env store inp).facts inp).grant =
    (loadResource env store inp).map fun e => (e.level, e.archived) := by
  rw [← grant_of_parts]
  unfold Projection.facts
  by_cases hurn : inp.resourceURN = []
  · simp [hurn, load, loadResource]
  · simp [hurn, load]

theorem load_rereads (hscoped : loadScoped store inp = some b) :
    Rereads inp.action ((redisReader env store).facts env inp b)
      ((load env store inp).facts inp) where
  action := rfl
  workspaceID := rfl
  isScoped := by
    change (loadScoped store inp).getD false = b
    rw [hscoped, Option.getD_some]
  admin := by
    change ((store (keyFlags inp.tenant inp.effectiveUser)).isSome &&
      (store (keyFlags inp.tenant inp.effectiveUser)).any (·.admin)) =
      (((store (keyFlags inp.tenant inp.effectiveUser)).map (·.userFlags env)).map
        (·.admin)).getD false
    cases store (keyFlags inp.tenant inp.effectiveUser) <;> rfl
  wsAdmin := by
    change (((store (keyFlags inp.tenant inp.effectiveUser)).map (·.wsAdmin)).getD []).any
      (· = inp.workspaceID) = hasWsAdmin ((store (keyFlags inp.tenant inp.effectiveUser)).map
        (·.userFlags env)) inp.workspaceID
    cases store (keyFlags inp.tenant inp.effectiveUser) with
    | none => rfl
    | some v => exact (any_filterMap_wsAdmin v inp.workspaceID).symm
  wsArchived := by
    intro hws
    have hws : inp.workspaceID ≠ [] := hws
    change loadArchived store inp = _
    simp [loadArchived, hws, Reader.facts, redisReader, Id.run]
  tenantActions := by
    change (if ((store (keyActions inp.tenant inp.effectiveUser)).bind (·.actionList)).isSome
      then ((store (keyActions inp.tenant inp.effectiveUser)).bind (·.actionList)).getD []
        else []) =
      ((store (keyActions inp.tenant inp.effectiveUser)).bind (·.actionList)).getD []
    cases (store (keyActions inp.tenant inp.effectiveUser)).bind (·.actionList) <;> rfl
  grant := by
    rw [load_facts_grant]
    unfold loadResource
    by_cases hurn : inp.resourceURN = []
    · simp [hurn, Reader.facts]
    · simp [hurn, Reader.facts, redisReader, Id.run]
  verb := rfl
  verbPart := rfl
  entry := by
    intro _
    rw [load_facts_entry]
    unfold loadWorkspace
    by_cases hws : inp.workspaceID = []
    · exact .inr (if_pos hws)
    · exact .inl (if_neg hws)

theorem load_base_iff (hscoped : loadScoped store inp = some b) :
    (load env store inp).Base inp ↔ (redisReader env store).Base inp b := by
  have hknown : (load env store inp).actionKnown = true := by
    change (loadScoped store inp).isSome = true
    rw [hscoped, Option.isSome_some]
  have hsc : (load env store inp).actionScoped = b := by
    change (loadScoped store inp).getD false = b
    rw [hscoped, Option.getD_some]
  have hread : ((redisReader env store).actionScoped inp.action).run = some b := hscoped
  unfold Projection.Base Reader.Base
  rw [hknown, hsc, hread]
  simp

theorem load_absent_iff (hscoped : loadScoped store inp = some b) (hctx : inp.CtxOk b) :
    (load env store inp).Absent ↔ (redisReader env store).Absent inp b := by
  have hsc : (load env store inp).actionScoped = b := by
    change (loadScoped store inp).getD false = b
    rw [hscoped, Option.getD_some]
  have hflags : (load env store inp).flagsFound = false ↔
      ((redisReader env store).userFlags inp.tenant inp.effectiveUser).run = none := by
    change (store (keyFlags inp.tenant inp.effectiveUser)).isSome = false ↔
      (store (keyFlags inp.tenant inp.effectiveUser)).map (·.userFlags env) = none
    simp
  unfold Projection.Absent Reader.Absent
  rw [hsc, hflags]
  cases b with
  | true =>
    have hws : inp.workspaceID ≠ [] := hctx.mp rfl
    have hentry : loadWorkspace store inp =
      ((redisReader env store).workspace inp.tenant inp.effectiveUser inp.workspaceID).run :=
      if_neg hws
    have hassigned : (load env store inp).assigned = (loadWorkspace store inp).isSome := rfl
    rw [hassigned, hentry]
    simp
  | false =>
    have hfound : (load env store inp).tenantFound =
      ((redisReader env store).tenantActions inp.tenant inp.effectiveUser).run.isSome := rfl
    rw [hfound]
    simp

end Facts

/-! ## Parity -/

section Parity

variable (env : Ext) (store : Store) (inp : Input)

/-- The requests on which the policy decides as `Decide` does: for an explicitly
scoped service token the projection is not absent; an admin's write into a workspace
of the archived set is into one of the admin's own; a request that `Decide` denies
for an archived workspace has no open path in the policy; an action without a dot
opens no grant as its own verb that no path of `Decide` opens; and no grant decides
a request whose projection is absent. -/
structure InputMirrored : Prop where
  service : inp.ServiceScope → ∀ b, (redisReader env store).Base inp b →
    ¬(redisReader env store).Absent inp b
  ownArchive : ¬inp.ServiceScope → ∀ b, (redisReader env store).Base inp b →
    ((redisReader env store).facts env inp b).admin = true →
    ((redisReader env store).facts env inp b).WriteBlock →
    ((redisReader env store).facts env inp b).entry ≠ none
  archived : ¬inp.ServiceScope → ∀ b, (redisReader env store).Base inp b →
    ((redisReader env store).facts env inp b).ArchivedDeny →
    ¬((load env store inp).facts inp).Opens
  dotless : ¬inp.ServiceScope → ∀ b, (redisReader env store).Base inp b →
    ¬((redisReader env store).facts env inp b).ArchivedDeny → (46 : UInt8) ∉ inp.action →
    ((load env store inp).facts inp).GrantOpens → ((redisReader env store).facts env inp b).Opens
  grant : ¬inp.ServiceScope → ∀ b, (redisReader env store).Base inp b →
    (redisReader env store).Absent inp b →
    ¬((redisReader env store).facts env inp b).GrantDecides

/-- The policy evaluates to a decision, and it is that of `Decide`. -/
def InputParity : Prop :=
  (load env store inp).reason inp ≠ none ∧
    (load env store inp).allow inp = ((redisReader env store).decide env inp).run.allowed ∧
    (load env store inp).miss inp = ((redisReader env store).decide env inp).run.miss

end Parity

variable {env : Ext} {store : Store} {inp : Input} {b : Bool}

theorem inputParity_of_base (hblank : ¬inp.Blank) (hsvc : ¬inp.ServiceScope)
    (hbase : (redisReader env store).Base inp b) :
    InputParity env store inp ↔ ¬(load env store inp).Clash inp ∧
      (((load env store inp).facts inp).Opens ↔
        ¬((redisReader env store).facts env inp b).ArchivedDeny ∧
          ((redisReader env store).facts env inp b).Opens) ∧
      ((redisReader env store).Absent inp b →
        ¬((redisReader env store).facts env inp b).GrantDecides) := by
  have hscoped : loadScoped store inp = some b := hbase.1
  have hload : (load env store inp).Base inp := (load_base_iff hscoped).mpr hbase
  have hmiss : (load env store inp).miss inp = true ↔ (redisReader env store).Absent inp b := by
    rw [Projection.miss_iff, and_iff_right hload, load_absent_iff hscoped hbase.2.2]
  have hmissGo : ((redisReader env store).decide env inp).run.miss = true ↔
      (redisReader env store).Absent inp b ∧
        ¬((redisReader env store).facts env inp b).GrantDecides := by
    rw [Reader.decide_miss_iff]
    constructor
    · rintro ⟨-, -, c, hc, h⟩
      rw [hbase.eq hc]
      exact h
    · intro h
      exact ⟨hblank, hsvc, b, hbase, h⟩
  unfold InputParity
  rw [Projection.reason_ne_none_iff, Bool.eq_iff_iff, Projection.allow_of_base hsvc hload,
    Reader.decide_allowed_of_base hblank hsvc hbase, Bool.eq_iff_iff, hmiss, hmissGo]
  refine and_congr_right fun _ => and_congr_right fun _ => ?_
  exact ⟨fun h ha => (h.mp ha).2, fun h => ⟨fun ha => ⟨ha, h ha⟩, fun h => h.1⟩⟩

theorem inputParity_of_service (hblank : ¬inp.Blank) (hsvc : inp.ServiceScope) :
    InputParity env store inp ↔
      ∀ b, (redisReader env store).Base inp b → ¬(redisReader env store).Absent inp b := by
  have hallow : (load env store inp).allow inp = true := Projection.allow_iff.mpr (.inl hsvc)
  have hallowGo : ((redisReader env store).decide env inp).run.allowed = true :=
    Reader.decide_allowed_iff.mpr ⟨hblank, .inl hsvc⟩
  have hmissGo : ¬((redisReader env store).decide env inp).run.miss = true := by
    rw [Reader.decide_miss_iff]
    rintro ⟨-, h, -⟩
    exact h hsvc
  have hclash : ¬(load env store inp).Clash inp := by
    intro h
    rw [h.denied] at hallow
    cases hallow
  unfold InputParity
  rw [Bool.not_eq_true] at hmissGo
  rw [Projection.reason_ne_none_iff, hallow, hallowGo, hmissGo, ← Bool.not_eq_true,
    Projection.miss_iff]
  simp only [hclash, not_false_eq_true, true_and]
  constructor
  · intro h b hbase habs
    have hscoped : loadScoped store inp = some b := hbase.1
    exact h ⟨(load_base_iff hscoped).mpr hbase, (load_absent_iff hscoped hbase.2.2).mpr habs⟩
  · rintro h ⟨hload, habs⟩
    obtain ⟨b, hscoped⟩ := Option.isSome_iff_exists.mp hload.1
    have hbase := (@load_base_iff env store inp b hscoped).mp hload
    exact h b hbase ((load_absent_iff hscoped hbase.2.2).mp habs)

theorem inputParity_of_not_base (hblank : ¬inp.Blank)
    (hbase : ∀ b, ¬(redisReader env store).Base inp b) : InputParity env store inp := by
  have hload : ¬(load env store inp).Base inp := by
    intro h
    obtain ⟨b, hscoped⟩ := Option.isSome_iff_exists.mp h.1
    exact hbase b ((load_base_iff hscoped).mp h)
  refine ⟨?_, ?_, ?_⟩
  · rw [Projection.reason_ne_none_iff]
    exact fun h => hload h.base
  · have hauto : ((load env store inp).actionKnown = true ∧ inp.AutonomousScope ∧
      (load env store inp).autonomousEnabled = true) ↔ (redisReader env store).Autonomous inp :=
      Iff.rfl
    rw [Bool.eq_iff_iff, Projection.allow_iff, Reader.decide_allowed_iff, hauto]
    simp [hload, hblank, hbase]
  · rw [Bool.eq_iff_iff, Projection.miss_iff, Reader.decide_miss_iff]
    simp [hload, hbase]

theorem load_clash_iff (hsvc : ¬inp.ServiceScope) (hbase : (redisReader env store).Base inp b) :
    (load env store inp).Clash inp ↔ ¬((load env store inp).facts inp).Opens ∧
      ((redisReader env store).facts env inp b).admin = true ∧
      ((load env store inp).facts inp).WriteBlock ∧
      ((redisReader env store).facts env inp b).entry = none := by
  have hscoped : loadScoped store inp = some b := hbase.1
  have hload : (load env store inp).Base inp := (load_base_iff hscoped).mpr hbase
  have hread := @load_rereads env store inp b hscoped
  rw [Projection.clash_iff, ← Bool.not_eq_true, Projection.allow_of_base hsvc hload,
    and_iff_right hload, hread.admin]
  refine and_congr_right fun _ => and_congr_right fun _ => and_congr_right fun hblock => ?_
  rw [load_facts_entry]
  have hentry : loadWorkspace store inp = ((redisReader env store).facts env inp b).entry :=
    if_neg hblock.1
  rw [hentry]

theorem inputParity_of_base_iff (hblank : ¬inp.Blank) (hsvc : ¬inp.ServiceScope)
    (hbase : (redisReader env store).Base inp b) : InputParity env store inp ↔
      (((redisReader env store).facts env inp b).admin = true →
        ((redisReader env store).facts env inp b).WriteBlock →
        ((redisReader env store).facts env inp b).entry ≠ none) ∧
      (((redisReader env store).facts env inp b).ArchivedDeny →
        ¬((load env store inp).facts inp).Opens) ∧
      (¬((redisReader env store).facts env inp b).ArchivedDeny → (46 : UInt8) ∉ inp.action →
        ((load env store inp).facts inp).GrantOpens →
        ((redisReader env store).facts env inp b).Opens) ∧
      ((redisReader env store).Absent inp b →
        ¬((redisReader env store).facts env inp b).GrantDecides) := by
  have hscoped : loadScoped store inp = some b := hbase.1
  have hread := @load_rereads env store inp b hscoped
  -- Where the reader finds an entry, the loader finds it too.
  have hlost : ((load env store inp).facts inp).entry = none →
      ¬((redisReader env store).facts env inp b).AssignedOpens := by
    rintro hnone ⟨hsc, e, he, -⟩
    have hws : inp.workspaceID ≠ [] := hbase.2.2.mp hsc
    have hentry : loadWorkspace store inp = ((redisReader env store).facts env inp b).entry :=
      if_neg hws
    rw [load_facts_entry, hentry, he] at hnone
    cases hnone
  rw [inputParity_of_base hblank hsvc hbase, load_clash_iff hsvc hbase]
  constructor
  · rintro ⟨hclash, hopens, hmiss⟩
    have harchived : ((redisReader env store).facts env inp b).ArchivedDeny →
        ¬((load env store inp).facts inp).Opens := fun hd ho => (hopens.mp ho).1 hd
    refine ⟨?_, harchived, ?_, hmiss⟩
    · intro hadmin hblock hnone
      have hclosed := harchived (.inl ⟨hadmin, hblock⟩)
      refine hclash ⟨hclosed, hadmin, ?_, hnone⟩
      by_contra hfree
      exact hclosed (.inl ⟨hread.admin.trans hadmin, hfree⟩)
    · intro hdeny
      rw [and_iff_right hdeny] at hopens
      exact ((hread.opens_iff hdeny).mp hopens.symm).1
  · rintro ⟨hown, harchived, hdotless, hmiss⟩
    refine ⟨?_, ?_, hmiss⟩
    · rintro ⟨-, hadmin, ⟨hws, harch, hw⟩, hnone⟩
      refine hown hadmin ⟨hws, ?_, hread.writes hw⟩ hnone
      rw [← hread.wsArchived hws]
      exact harch
    · by_cases hdeny : ((redisReader env store).facts env inp b).ArchivedDeny
      · have hclosed := harchived hdeny
        exact ⟨fun ho => absurd ho hclosed, fun h => absurd hdeny h.1⟩
      · rw [and_iff_right hdeny]
        refine ((hread.opens_iff hdeny).mpr ⟨hdotless hdeny, ?_⟩).symm
        exact fun _ hnone hassigned => absurd hassigned (hlost hnone)

/-- The policy decides as `Decide` does on exactly the mirrored requests. -/
theorem inputParity_iff (env : Ext) (store : Store) {inp : Input} (hblank : ¬inp.Blank) :
    InputParity env store inp ↔ InputMirrored env store inp := by
  by_cases hsvc : inp.ServiceScope
  · rw [inputParity_of_service hblank hsvc]
    constructor
    · intro h
      exact ⟨fun _ => h, fun hn => absurd hsvc hn, fun hn => absurd hsvc hn,
        fun hn => absurd hsvc hn, fun hn => absurd hsvc hn⟩
    · intro h
      exact h.service hsvc
  · by_cases hex : ∃ b, (redisReader env store).Base inp b
    · obtain ⟨b, hbase⟩ := hex
      rw [inputParity_of_base_iff hblank hsvc hbase]
      constructor
      · rintro ⟨hown, harchived, hdotless, hmiss⟩
        refine ⟨fun hs => absurd hs hsvc, ?_, ?_, ?_, ?_⟩
        · rintro - c hc
          exact hbase.eq hc ▸ hown
        · rintro - c hc
          exact hbase.eq hc ▸ harchived
        · rintro - c hc
          exact hbase.eq hc ▸ hdotless
        · rintro - c hc
          exact hbase.eq hc ▸ hmiss
      · intro h
        exact ⟨h.ownArchive hsvc b hbase, h.archived hsvc b hbase, h.dotless hsvc b hbase,
          h.grant hsvc b hbase⟩
    · have hbase := not_exists.mp hex
      constructor
      · intro _
        exact ⟨fun _ b hb => absurd hb (hbase b), fun _ b hb => absurd hb (hbase b),
          fun _ b hb => absurd hb (hbase b), fun _ b hb => absurd hb (hbase b),
          fun _ b hb => absurd hb (hbase b)⟩
      · intro _
        exact inputParity_of_not_base hblank hbase

/-- The store of the small tenant, once its user is an admin. -/
def sampleStore : Store := fun k =>
  [ (catalogKey, Value.catalog 1 sampleSnapshot.catalog),
    (keyArchivedWs (Uuid.ofByte 10).text, .archivedWs 1 [(Uuid.ofByte 3).text]),
    (keyActions (Uuid.ofByte 10).text (bytes "u-1"), .actions 1 []),
    (keyFlags (Uuid.ofByte 10).text (bytes "u-1"), .flags 1 ⟨true, [], []⟩)].lookup k

/-- An admin's write into an archived workspace the admin is not assigned to:
`Decide` denies, and the policy has two reasons at once. -/
theorem inputParity_fails_admin : let inp := { sampleInput with resourceURN := [] }
    ¬inp.Blank ∧
      ((redisReader sampleExt sampleStore).decide sampleExt inp).run = deny .workspaceArchived ∧
      (load sampleExt sampleStore inp).reason inp = none ∧
      ¬InputParity sampleExt sampleStore inp := by
  intro inp
  have hnone : (load sampleExt sampleStore inp).reason inp = none := by decide
  refine ⟨by decide, by decide, hnone, ?_⟩
  intro hparity
  exact hparity.1 hnone

/-- The same admin in a live workspace. -/
theorem inputParity_iff_live : let inp := { sampleInput with workspaceID := (Uuid.ofByte 1).text }
    ¬inp.Blank ∧
      (InputParity sampleExt sampleStore inp ↔ InputMirrored sampleExt sampleStore inp) := by
  have hblank : ¬Input.Blank { sampleInput with workspaceID := (Uuid.ofByte 1).text } := by
    decide
  exact ⟨hblank, inputParity_iff sampleExt sampleStore hblank⟩

end Windrose.Rbac

/-
  Packs/Installer.lean --- installing, completing, upgrading and removing packs.

  Source: services/pack-service/app/domain/installer.py,
  services/pack-service/app/api/routes/installs.py, packs/packctl/manifest.py.

  A run writes one ledger row for each object that it makes or finds.  What `run_uninstall`
  deletes for a row is `Row.targets`.  `World` has two ghosts: the objects that were
  deleted, each with the pack that did it, and the entries of a target manifest that were
  not there at the end of an upgrade or a rollback.
-/
import Windrose.Packs.Tenant

set_option autoImplicit false

namespace Windrose.Packs

/-! ## Manifests -/

/-- A component of a manifest. -/
structure Component where
  kind : Kind
  identity : String
  /-- The dataset of the cases of the file. -/
  dataset : String := ""
  entries : List Entry
  /-- The manifest is refused otherwise (`SUPPORTED_KINDS`). -/
  supported : kind ≠ .permissionGroups := by decide

/-- The manifest of a pack. -/
structure Manifest where
  name : String
  components : List Component

def Manifest.componentsOf (m : Manifest) (kind : Kind) : List Component :=
  m.components.filter (·.kind = kind)

/-- All entries, under the kinds of their components. -/
def Manifest.entries (m : Manifest) : List (Kind × Entry) :=
  m.components.flatMap fun c => c.entries.map (c.kind, ·)

/-- The entries of a kind, in the order of the install. -/
def Manifest.entriesOf (m : Manifest) (kind : Kind) : List Entry :=
  (m.componentsOf kind).flatMap (·.entries)

/-- The entries of a kind, each under its number in its file. -/
def Manifest.numberedOf (m : Manifest) (kind : Kind) : List (String × Entry) :=
  (m.componentsOf kind).flatMap fun c => c.entries.zipIdx.map fun x => (s!"{c.identity}_{x.2}", x.1)

/-- `INC1_KINDS`. -/
def inc1Kinds : List Kind :=
  [.dispositions, .caseFields, .caseSchemas, .displayLabels, .guardrails, .agentConfigs,
    .evalSets, .modelArchetypes, .ontology, .writeAdapters, .connectionTemplates, .roles,
    .decisionModels]

/-- `REVERSIBLE_KINDS`. -/
def Kind.isReversible : Kind → Bool
  | .roles | .savedQueries | .dashboards | .caseFields | .caseSchemas | .displayLabels
  | .guardrails | .agentConfigs | .pipelines | .memories | .modelArchetypes | .ontology
  | .writeAdapters | .connectionTemplates => true
  | _ => false

/-- The names of a component in a plan or a version diff. -/
def componentNames (c : Component) : List String :=
  match c.kind with
  | .memories | .dashboards => [c.identity]
  | .verifiedQueries => (List.range c.entries.length).map fun i => s!"{c.identity}_{i}"
  | _ => c.entries.map (·.name)

/-- `_target_object_names`. -/
def targetObjectNames (m : Manifest) : List (Kind × String) :=
  m.components.flatMap fun c => (componentNames c).map (c.kind, ·)

/-! ## The ledger -/

/-- A row of the ledger. -/
structure Row where
  kind : Kind
  identity : String
  targetId : Option Id
  action : Action
  reversible : Bool
  tombstoned : Bool := false
  deriving DecidableEq

/-- What `run_uninstall` deletes for a row. -/
def Row.targets (r : Row) : List (Kind × Id) :=
  match r.targetId with
  | none => []
  | some id =>
    match r.kind with
    -- `_unbind_role_group` drops the group with the name of the role
    | .roles => if r.reversible then [(.permissionGroups, .key r.identity), (.roles, id)] else []
    | .savedQueries | .caseFields | .caseSchemas | .ontology | .writeAdapters
    | .connectionTemplates | .displayLabels | .guardrails | .agentConfigs | .pipelines
    | .memories | .modelArchetypes | .dashboards => [(r.kind, id)]
    | _ => []

/-- `do` of `run_install`: the row of a call. -/
def record (kind : Kind) (name : String) (a : Answer) : Row :=
  { kind, identity := name, targetId := a.id, action := a.action
    reversible := kind.isReversible && a.action = .create && a.id.isSome }

/-! ## run_install -/

/-- An install under way. -/
structure Progress where
  tenant : Tenant
  records : List Row := []
  datasetUrns : List (String × Id) := []

namespace Progress

/-- A call, and the row that it leaves. -/
def call (f : Tenant → Answer) (kind : Kind) (name : String) (x : Progress) : Progress :=
  { x with
    tenant := (f x.tenant).tenant
    records := x.records ++ [record kind name (f x.tenant)] }

def note (r : Row) (x : Progress) : Progress := { x with records := x.records ++ [r] }

end Progress

section Run

variable (p : String)

/-- The call for an entry of one of the `INC1_KINDS`. -/
def ensureInc1 (kind : Kind) (e : Entry) : Tenant → Answer :=
  match kind with
  | .dispositions => ensureDisposition p e
  | .caseFields => ensureCaseField p e
  | .caseSchemas => ensureCaseSchema p e
  | .displayLabels => ensureLabel p e
  | .guardrails => ensureGuardrail p e
  | .agentConfigs => ensureAgentConfig p e
  | .evalSets => ensureEvalSet p e
  | .modelArchetypes => ensureArchetype p e
  | .ontology => ensureOntologyEntity p e
  | .writeAdapters => ensureWriteAdapter p e
  | .connectionTemplates => ensureConnectionTemplate p e
  | .roles => ensureRole p e
  | _ => ensureDecisionModel p e

/-- The `INC1_KINDS`, kind by kind. -/
def runInc1 (m : Manifest) (x : Progress) : Progress :=
  inc1Kinds.foldl (fun x kind => (m.entriesOf kind).foldl
    (fun x e => x.call (ensureInc1 p kind e) kind e.name) x) x

/-- A dataset is bound, or uploaded when it has a file and no binding. -/
def installDataset (bindings : List (String × Id)) (x : Progress) (e : Entry) : Progress :=
  let explicit := bindings.lookup e.identity
  let a := if explicit.isSome ∨ e.file = none then bindDataset e explicit x.tenant
    else ensureDataset p e x.tenant
  { tenant := a.tenant
    records := x.records ++ [{ record .datasets e.name a with reversible := false }]
    datasetUrns := match a.id with
      | some id => (e.identity, id) :: x.datasetUrns
      | none => x.datasetUrns }

/-- `_semantic_draft`: a model that is not published is submitted again. -/
def semanticDraft (e : Entry) (t : Tenant) : Answer :=
  match t.find .semanticModels e.name with
  | some o => ⟨t, if o.details = .ready true then .noop else .submitted, some o.id⟩
  | none => { ensureNamed p .semanticModels e.name (.ready false) t with action := .submitted }

/-- A verified query that is there answers 409, and its id is not asked for. -/
def verifiedQuery (e : Entry) (t : Tenant) : Answer :=
  match t.find .verifiedQueries e.name with
  | some _ => ⟨t, .noop, none⟩
  | none => { ensureNamed p .verifiedQueries e.name .plain t with action := .submitted }

def installCases (x : Progress) (c : Component) : Progress :=
  match x.datasetUrns.lookup c.dataset with
  | none => x.note ⟨.cases, c.identity, none, .failed, false, false⟩
  | some ds =>
    let (t, some_) := createCases p ds c.entries x.tenant
    -- the row has the id of the dataset
    { x with
      tenant := t
      records := x.records ++
        [⟨.cases, c.identity, some ds, if some_ then .create else .noop, false, false⟩] }

def installPipeline (x : Progress) (e : Entry) : Progress :=
  match x.datasetUrns.lookup e.dataset with
  | none => x.note ⟨.pipelines, e.name, none, .failed, false, false⟩
  | some _ => x.call (ensurePipeline p e) .pipelines e.name

/-- The tag of the records of a pack. -/
def sourceTag : String := "pack:" ++ p

def installMemories (x : Progress) (c : Component) : Progress :=
  let (t, ids) := ensureMemories p (sourceTag p) x.tenant.objects c.entries x.tenant
  { x with
    tenant := t
    records := x.records ++ match ids with
      | [] => [⟨.memories, c.identity, none, .noop, false, false⟩]
      | ids => ids.map fun id => ⟨.memories, c.identity, some id, .create, true, false⟩ }

/-- `run_data_chain`. -/
def runDataChain (m : Manifest) (bindings : List (String × Id)) (x : Progress) : Progress :=
  let x := (m.entriesOf .datasets).foldl (installDataset p bindings) x
  let x := (m.entriesOf .semanticModels).foldl
    (fun x e => x.call (semanticDraft p e) .semanticModels e.name) x
  let x := (m.numberedOf .verifiedQueries).foldl
    (fun x e => x.call (verifiedQuery p e.2) .verifiedQueries e.1) x
  let x := (m.entriesOf .savedQueries).foldl
    (fun x e => x.call (ensureSavedQuery p e) .savedQueries e.name) x
  let x := (m.componentsOf .cases).foldl (installCases p) x
  let x := (m.entriesOf .pipelines).foldl (installPipeline p) x
  (m.componentsOf .memories).foldl (installMemories p) x

end Run

/-- The pack of a run is the one of its manifest. -/
def runInstall (m : Manifest) (bindings : List (String × Id)) (t : Tenant) : Progress :=
  runDataChain m.name m bindings (runInc1 m.name m { tenant := t })

/-- `_semantic_published`. -/
def semanticPublished (t : Tenant) (name : String) : Bool :=
  (t.find .semanticModels name).any (·.details = .ready true)

/-- Every semantic model that the pack ships is published. -/
def modelsPublished (m : Manifest) (t : Tenant) : Bool :=
  (m.entriesOf .semanticModels).all (semanticPublished t ·.name)

/-- `run_complete`: the dashboards, once every semantic model is published.  A dashboard
that was found is recorded as made. -/
def runComplete (m : Manifest) (t : Tenant) : Option Progress :=
  if modelsPublished m t then
    some ((m.entriesOf .dashboards).foldl (fun x e =>
      let a := ensureDashboard m.name e x.tenant
      { x with
        tenant := a.tenant
        records := x.records ++ [⟨.dashboards, e.name, a.id, .create, a.id.isSome, false⟩] })
      { tenant := t })
  else none

/-! ## run_uninstall and run_upgrade -/

/-- The objects that are deleted, with the tenant that is left. -/
def deleteAll (t : Tenant) (xs : List (Kind × Id)) : Tenant × List Obj :=
  xs.foldl (fun s x => (s.1.delete x, s.2 ++ s.1.objects.filter fun o => (o.kind, o.id) = x))
    (t, [])

/-- Rows that were tombstoned are passed over. -/
def runUninstall (ledger : List Row) (t : Tenant) : Tenant × List Obj :=
  deleteAll t ((ledger.filter (!·.tombstoned)).flatMap Row.targets)

/-- `removed_rows` of `diff_plan`: the live rows whose kind and name the target lacks. -/
def removedRows (prior : List Row) (target : Manifest) : List Row :=
  (prior.filter (!·.tombstoned)).filter fun r => (r.kind, r.identity) ∉ targetObjectNames target

/-- `prior_reversible`: tombstoned rows count. -/
def priorReversible (prior : List Row) (kind : Kind) (name : String) : Bool :=
  prior.any fun r => r.reversible && r.kind = kind && r.identity = name

/-- A retained row becomes reversible again. -/
def carryOver (prior : List Row) (r : Row) : Row :=
  if priorReversible prior r.kind r.identity && r.targetId.isSome && r.kind.isReversible then
    { r with reversible := true }
  else r

/-- What an upgrade leaves. -/
structure Upgraded where
  tenant : Tenant
  ledger : List Row
  deleted : List Obj

/-- `run_upgrade`. -/
def runUpgrade (target : Manifest) (prior : List Row) (bindings : List (String × Id))
    (t : Tenant) : Upgraded :=
  let x := runInstall target bindings t
  let (t', deleted) := runUninstall (removedRows prior target) x.tenant
  ⟨t', x.records.map (carryOver prior), deleted⟩

/-! ## The service -/

/-- An entry of the manifest of a pack is there, as the client looks for it: a case by the key
of its row. -/
def present (p : String) (bindings : List (String × Id)) (kind : Kind) (e : Entry) (t : Tenant) :
    Bool :=
  match kind with
  | .memories => t.objects.any (isMemory (sourceTag p) e.name)
  | .displayLabels | .guardrails | .agentConfigs =>
    (t.find kind e.name).isSome || kind.default = some e.value
  | .datasets =>
    match bindings.lookup e.identity with
    | some id => t.objects.any fun o => o.kind = .datasets ∧ o.id = id
    | none => (t.find .datasets e.name).isSome
  | _ => (t.find kind e.name).isSome

/-- The entries of a manifest that are not there. -/
def missing (m : Manifest) (bindings : List (String × Id)) (t : Tenant) : List (Kind × Entry) :=
  m.entries.filter fun x => !present m.name bindings x.1 x.2 t

/-- An install with its ledger. -/
structure Install where
  pack : String
  manifest : Manifest
  ledger : List Row
  supersedes : Option Nat := none
  supersededBy : Option Nat := none

/-- The tenant and its installs. -/
structure World where
  tenant : Tenant
  /-- An install's id is its position. -/
  installs : List Install := []
  deleted : List (String × Obj) := []
  lacking : List (Kind × Entry) := []

/-- `tombstone_all_ledger`. -/
def Install.tombstoneAll (i : Install) : Install :=
  { i with ledger := i.ledger.map ({ · with tombstoned := true }) }

/-- A steward publishes a semantic model. -/
def Tenant.publish (t : Tenant) (name : String) : Tenant :=
  { t with
    objects := t.objects.map fun o =>
      if o.kind = .semanticModels ∧ o.key = name then { o with details := .ready true } else o
    issued := by
      intro o' ho'
      obtain ⟨o, ho, rfl⟩ := List.mem_map.mp ho'
      split <;> exact t.issued o ho
    distinct := by
      refine List.pairwise_map.mpr (t.distinct.imp fun h => ?_)
      split <;> split <;> exact h }

/-- A call of the installer. -/
inductive Op where
  | install (m : Manifest) (bindings : List (String × Id))
  /-- `m` is the version on disk. -/
  | complete (i : Nat) (m : Manifest)
  | upgrade (i : Nat) (m : Manifest) (bindings : List (String × Id))
  | rollback (i : Nat) (version : Option Nat) (bindings : List (String × Id))
  | uninstall (i : Nat)
  | publish (name : String)

namespace World

/-- `run_install`. -/
def runInstall (w : World) (m : Manifest) (bindings : List (String × Id)) : World :=
  let x := Packs.runInstall m bindings w.tenant
  { w with tenant := x.tenant, installs := w.installs ++ [⟨m.name, m, x.records, none, none⟩] }

def complete (w : World) (i : Nat) (inst : Install) (m : Manifest) : World :=
  match runComplete m w.tenant with
  | none => w
  | some x =>
    { w with
      tenant := x.tenant
      installs := w.installs.set i { inst with ledger := inst.ledger ++ x.records } }

/-- `_transition`: the new install takes the place of the prior one. -/
def transition (w : World) (i : Nat) (prior : Install) (target : Manifest)
    (bindings : List (String × Id)) : World :=
  let u := runUpgrade target prior.ledger bindings w.tenant
  { tenant := u.tenant
    installs := w.installs.set i
        { prior.tombstoneAll with supersededBy := some w.installs.length } ++
      [⟨target.name, target, u.ledger, some i, none⟩]
    deleted := w.deleted ++ u.deleted.map (prior.pack, ·)
    lacking := w.lacking ++ missing target bindings u.tenant }

/-- `uninstall`. -/
def uninstall (w : World) (i : Nat) (inst : Install) : World :=
  let (t, deleted) := runUninstall inst.ledger w.tenant
  { w with
    tenant := t
    installs := w.installs.set i inst.tombstoneAll
    deleted := w.deleted ++ deleted.map (inst.pack, ·) }

/-- The install that a rollback restores. -/
def rollbackTarget (w : World) (prior : Install) (version : Option Nat) : Option Install :=
  (version.or prior.supersedes).bind (w.installs[·]?)

/-- One step. -/
def step (w : World) : Op → World
  | .install m bindings => w.runInstall m bindings
  | .complete i m =>
    match w.installs[i]? with
    | some inst => if inst.pack = m.name then w.complete i inst m else w
    | none => w
  | .upgrade i m bindings =>
    match w.installs[i]? with
    | some prior =>
      if prior.pack = m.name ∧ prior.supersededBy = none then w.transition i prior m bindings
      else w
    | none => w
  | .rollback i version bindings =>
    match w.installs[i]? with
    | some prior =>
      if prior.supersededBy = none then
        match w.rollbackTarget prior version with
        | some target => w.transition i prior target.manifest bindings
        | none => w
      else w
    | none => w
  | .uninstall i =>
    match w.installs[i]? with
    | some inst => w.uninstall i inst
    | none => w
  | .publish name => { w with tenant := w.tenant.publish name }

end World

end Windrose.Packs

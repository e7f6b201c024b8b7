/-
  Semantic/Versions.lean --- the versions of semantic models.

  Source: services/semantic-service/app/domain/services.py (ModelService, VersionService),
  app/domain/state.py, app/domain/entities.py and app/store/sql.py.

  A version is drafted, submitted, decided on and in the end superseded.  An operation
  reads rows, decides and writes; what it decides from the rows that it read is a function
  here (`patchDraft`, `submit`, `approve`, `reject`), and `write` puts whole rows back.
  Models and versions stand in tables, and the place of a row is its id.
-/
import Windrose.Semantic.Compiler

set_option autoImplicit false

namespace Windrose.Semantic

open Windrose.Foundation

/-! ## Rows -/

/-- The status of a version. -/
inductive VersionStatus where
  | draft | inReview | published | rejected | superseded
  deriving DecidableEq

/-- `MODEL_VERSION_TRANSITIONS`. -/
def modelVersionTransitions : List (VersionStatus × VersionStatus) :=
  [(.draft, .inReview), (.inReview, .published), (.inReview, .rejected), (.rejected, .draft),
    (.published, .superseded)]

/-- The versions that are still worked on. -/
def VersionStatus.open (status : VersionStatus) : Bool := status ∈ [draft, inReview, rejected]

/-- The kind of a broken object. -/
inductive ObjectType where
  | entity | dimension | measure
  deriving DecidableEq

/-- An object that is broken. -/
structure BrokenRef where
  objectType : ObjectType
  name : Name
  deriving DecidableEq

/-- `health`: whether the status is "broken", and the broken references. -/
structure Health where
  broken : Bool
  brokenRefs : List BrokenRef
  deriving DecidableEq

def Health.ok : Health := ⟨false, []⟩

/-- `_broken_names`. -/
def brokenNames (health : Health) : List Name :=
  if health.broken then
    (health.brokenRefs.filter fun r => r.objectType = .measure ∨ r.objectType = .dimension).map
      BrokenRef.name
  else []

/-- A row of the models. -/
structure SemanticModel where
  workspaceId : String
  name : String
  publishedVersionId : Option Nat
  health : Health
  deriving DecidableEq

/-- A row of the versions; definitions are parsed when they are saved. -/
structure ModelVersion where
  modelId : Nat
  versionNo : Nat
  status : VersionStatus
  definition : Definition
  submittedBy : Option String
  approvedBy : Option String
  decisionNote : Option String

/-- The exceptions of the service. -/
inductive ServiceExn where
  | modelNotFound
  | versionNotFound
  | publishedVersionNotFound
  | nameTaken (name : String)
  | openVersion (versionNo : Nat) (status : VersionStatus)
  | notEditable (status : VersionStatus)
  | illegalTransition (current target : VersionStatus)
  | invalid (problems : List Problem)
  | noteRequired
  | ownVersion
  | constraint
  | modelRequired
  | workspaceRequired
  | notPublished (name : String)
  | versionNotOpen
  | compiler (exn : Exn)

/-! ## Decisions -/

/-- `check_version_transition`. -/
def checkVersionTransition (current target : VersionStatus) : Except ServiceExn Unit :=
  if (current, target) ∈ modelVersionTransitions then .ok ()
  else .error (.illegalTransition current target)

/-- `_validate_full`. -/
def validateFull (datasetLookup : String → Option Dataset) (defn : Definition) :
    Except ServiceExn Unit :=
  match validateDefinition defn datasetLookup with
  | [] => .ok ()
  | problems => .error (.invalid problems)

/-- `version.submitted_by and version.submitted_by == ctx.subject`. -/
def ModelVersion.ownedBy (version : ModelVersion) (subject : String) : Bool :=
  match version.submittedBy with
  | some s => s ≠ "" && s = subject
  | none => false

/-- The row that `patch_draft` writes. -/
def patchDraft (definition : Definition) (version : ModelVersion) :
    Except ServiceExn ModelVersion :=
  if version.status = .rejected ∨ version.status = .draft then
    .ok { version with status := .draft, definition }
  else .error (.notEditable version.status)

/-- The row that `submit` writes. -/
def submit (datasetLookup : String → Option Dataset) (subject : String) (version : ModelVersion) :
    Except ServiceExn ModelVersion := do
  checkVersionTransition version.status .inReview
  validateFull datasetLookup version.definition
  return { version with status := .inReview, submittedBy := some subject }

/-- The row that `reject` writes. -/
def reject (subject note : String) (version : ModelVersion) : Except ServiceExn ModelVersion := do
  checkVersionTransition version.status .rejected
  if version.ownedBy subject then .error .ownVersion
  else
    .ok { version with status := .rejected, approvedBy := some subject, decisionNote := some note }

/-- The row that `approve` writes for the version it is about. -/
def approve (datasetLookup : String → Option Dataset) (subject : String) (note : Option String)
    (version : ModelVersion) : Except ServiceExn ModelVersion := do
  checkVersionTransition version.status .published
  if version.ownedBy subject then .error .ownVersion
  else do
    validateFull datasetLookup version.definition
    return { version with
      status := .published, approvedBy := some subject, decisionNote := note }

/-- The row that `approve` writes for the version that was published before. -/
def supersede (previous : ModelVersion) : Except ServiceExn ModelVersion := do
  checkVersionTransition previous.status .superseded
  return { previous with status := .superseded }

/-- The row of the model that `approve` writes. -/
def SemanticModel.publish (model : SemanticModel) (id : Nat) : SemanticModel :=
  { model with publishedVersionId := some id, health := .ok }

/-- The row that `create_draft` adds. -/
def newDraft (modelId : Nat) (latest : Option ModelVersion) (seed : Definition) : ModelVersion where
  modelId := modelId
  versionNo := (latest.map ModelVersion.versionNo).getD 0 + 1
  status := .draft
  definition := seed
  submittedBy := none
  approvedBy := none
  decisionNote := none

/-! ## Tables -/

/-- The tables; an id is a position. -/
structure Store where
  models : List SemanticModel
  versions : List ModelVersion

namespace Store

variable (s : Store)

def model (id : Nat) : Except ServiceExn SemanticModel :=
  match s.models[id]? with
  | some m => .ok m
  | none => .error .modelNotFound

/-- `versions.get`, with the id of the row. -/
def version (modelId versionNo : Nat) : Except ServiceExn (Nat × ModelVersion) :=
  match s.versions.findIdx? fun v => v.modelId = modelId ∧ v.versionNo = versionNo with
  | none => .error .versionNotFound
  | some id =>
    match s.versions[id]? with
    | some v => .ok (id, v)
    | none => .error .versionNotFound

/-- `versions.open_version`. -/
def openVersion (modelId : Nat) : Option ModelVersion :=
  s.versions.find? fun v => v.modelId = modelId && v.status.open

/-- `versions.latest`. -/
def latest (modelId : Nat) : Option ModelVersion :=
  (s.versions.filter fun v => v.modelId = modelId).foldl (fun best v =>
    match best with
    | some b => if v.versionNo ≤ b.versionNo then best else some v
    | none => some v) none

/-- `versions.get_by_id` of the published version. -/
def published (m : SemanticModel) : Option ModelVersion :=
  m.publishedVersionId.bind fun id => s.versions[id]?

/-- `versions.update`: the whole row. -/
def writeVersion (id : Nat) (v : ModelVersion) : Store := { s with versions := s.versions.set id v }

/-- `models.update`: the whole row. -/
def writeModel (id : Nat) (m : SemanticModel) : Store := { s with models := s.models.set id m }

@[simp] theorem versions_writeVersion (id : Nat) (v : ModelVersion) :
    (s.writeVersion id v).versions = s.versions.set id v := rfl

@[simp] theorem models_writeVersion (id : Nat) (v : ModelVersion) :
    (s.writeVersion id v).models = s.models := rfl

@[simp] theorem versions_writeModel (id : Nat) (m : SemanticModel) :
    (s.writeModel id m).versions = s.versions := rfl

@[simp] theorem models_writeModel (id : Nat) (m : SemanticModel) :
    (s.writeModel id m).models = s.models.set id m := rfl

end Store

/-! ## Operations

An operation that meets nobody reads, decides and writes at once. -/

/-- An operation on models and versions. -/
inductive VersionOp where
  | create (workspaceId name : String) (definition : Definition)
  | rename (modelId : Nat) (name : String)
  | createDraft (modelId : Nat)
  | patchDraft (modelId versionNo : Nat) (definition : Definition)
  | submit (modelId versionNo : Nat) (datasetLookup : String → Option Dataset) (subject : String)
  | approve (modelId versionNo : Nat) (datasetLookup : String → Option Dataset) (subject : String)
      (note : Option String)
  | reject (modelId versionNo : Nat) (subject note : String)

/-- What a definition without any object parses to. -/
def Definition.empty : Definition where
  entities := []
  dimensions := []
  measures := []
  joinPaths := []
  entities_nodup := List.nodup_nil
  dimensions_nodup := List.nodup_nil
  measures_nodup := List.nodup_nil
  joinPaths_nodup := List.nodup_nil

namespace Store

/-- `models.get_by_name`, with the id of the row; names are compared in lower case. -/
def modelNamed (lower : String → String) (s : Store) (workspaceId name : String) :
    Option (Nat × SemanticModel) :=
  (s.models.findIdx? fun m => m.workspaceId = workspaceId ∧ lower m.name = lower name).bind
    fun id =>
    (s.models[id]?).map fun m => (id, m)

/-- A version is read, decided on and written back. -/
def updateVersion (s : Store) (modelId versionNo : Nat)
    (decide : ModelVersion → Except ServiceExn ModelVersion) : Except ServiceExn Store := do
  let _ ← s.model modelId
  let version ← s.version modelId versionNo
  let row ← decide version.2
  return s.writeVersion version.1 row

/-- The version that was published before a publication is superseded by it. -/
def supersedePublished (s : Store) (m : SemanticModel) : Except ServiceExn Store :=
  match m.publishedVersionId, s.published m with
  | some id, some previous => (supersede previous).map (s.writeVersion id)
  | _, _ => .ok s

def perform (lower : String → String) (s : Store) : VersionOp → Except ServiceExn Store
  | .create workspaceId name definition =>
    if (s.modelNamed lower workspaceId name).isSome then .error (.nameTaken name)
    else
      .ok { models := s.models ++ [⟨workspaceId, name, none, .ok⟩]
            versions := s.versions ++ [newDraft s.models.length none definition] }
  | .rename modelId name => do
      let m ← s.model modelId
      if (s.modelNamed lower m.workspaceId name).any fun found => found.1 ≠ modelId then
        .error (.nameTaken name)
      else return s.writeModel modelId { m with name }
  | .createDraft modelId => do
      let m ← s.model modelId
      match s.openVersion modelId with
      | some v => .error (.openVersion v.versionNo v.status)
      | none =>
        return { s with
          versions := s.versions ++
            [newDraft modelId (s.latest modelId)
              (((s.published m).map ModelVersion.definition).getD .empty)] }
  | .patchDraft modelId versionNo definition =>
    s.updateVersion modelId versionNo (Semantic.patchDraft definition)
  | .submit modelId versionNo datasetLookup subject =>
    s.updateVersion modelId versionNo (Semantic.submit datasetLookup subject)
  | .approve modelId versionNo datasetLookup subject note => do
      let m ← s.model modelId
      let version ← s.version modelId versionNo
      let row ← Semantic.approve datasetLookup subject note version.2
      let superseded ← s.supersedePublished m
      return (superseded.writeVersion version.1 row).writeModel modelId (m.publish version.1)
  | .reject modelId versionNo subject note =>
    if note = "" then .error .noteRequired
    else s.updateVersion modelId versionNo (Semantic.reject subject note)

end Store

/-! ## What a decision requires and writes -/

theorem checkVersionTransition_ok {current target : VersionStatus}
    (h : checkVersionTransition current target = .ok ()) :
    (current, target) ∈ modelVersionTransitions := by
  unfold checkVersionTransition at h
  split at h
  · assumption
  · cases h

theorem eq_of_transition {current target : VersionStatus}
    (h : (current, target) ∈ modelVersionTransitions) : current = match target with
      | .draft => .rejected
      | .inReview => .draft
      | .published => .inReview
      | .rejected => .inReview
      | .superseded => .published := by
  revert h
  cases current <;> cases target <;> decide

variable {datasetLookup : String → Option Dataset} {v w : ModelVersion} {subject : String}

theorem validateFull_ok {defn : Definition}
    (h : validateFull datasetLookup defn = .ok ()) : Validated defn datasetLookup := by
  unfold validateFull at h
  split at h
  · assumption
  · cases h

theorem patchDraft_ok {definition : Definition} (h : patchDraft definition v = .ok w) :
    v.status.open = true ∧ w = { v with status := .draft, definition } := by
  unfold patchDraft at h
  split at h
  · next hstatus =>
    cases h
    rcases hstatus with hs | hs <;> exact ⟨by rw [hs]; rfl, rfl⟩
  · cases h

theorem submit_ok (h : submit datasetLookup subject v = .ok w) :
    v.status = .draft ∧ Validated v.definition datasetLookup ∧
      w = { v with status := .inReview, submittedBy := some subject } := by
  obtain ⟨⟨⟩, hstatus, h⟩ := bind_eq_ok.mp h
  obtain ⟨⟨⟩, hvalid, h⟩ := bind_eq_ok.mp h
  cases h
  exact ⟨eq_of_transition (checkVersionTransition_ok hstatus), validateFull_ok hvalid, rfl⟩

theorem reject_ok {note : String} (h : reject subject note v = .ok w) :
    v.status = .inReview ∧ v.ownedBy subject = false ∧
      w = { v with
        status := .rejected, approvedBy := some subject, decisionNote := some note } := by
  obtain ⟨⟨⟩, hstatus, h⟩ := bind_eq_ok.mp h
  split at h
  · cases h
  · next hown =>
    cases h
    exact ⟨eq_of_transition (checkVersionTransition_ok hstatus), by simpa using hown, rfl⟩

theorem approve_ok {note : Option String} (h : approve datasetLookup subject note v = .ok w) :
    v.status = .inReview ∧ v.ownedBy subject = false ∧ Validated v.definition datasetLookup ∧
      w = { v with status := .published, approvedBy := some subject, decisionNote := note } := by
  obtain ⟨⟨⟩, hstatus, h⟩ := bind_eq_ok.mp h
  split at h
  · cases h
  · next hown =>
    obtain ⟨⟨⟩, hvalid, h⟩ := bind_eq_ok.mp h
    cases h
    exact ⟨eq_of_transition (checkVersionTransition_ok hstatus), by simpa using hown,
      validateFull_ok hvalid, rfl⟩

theorem supersede_ok (h : supersede v = .ok w) :
    v.status = .published ∧ w = { v with status := .superseded } := by
  obtain ⟨⟨⟩, hstatus, h⟩ := bind_eq_ok.mp h
  cases h
  exact ⟨eq_of_transition (checkVersionTransition_ok hstatus), rfl⟩

variable {s s' : Store}

namespace Store

theorem model_ok {id : Nat} {m : SemanticModel} (h : s.model id = .ok m) :
    s.models[id]? = some m := by
  unfold model at h
  split at h
  · next hm =>
    cases h
    exact hm
  · cases h

theorem version_ok {modelId versionNo : Nat} {r : Nat × ModelVersion}
    (h : s.version modelId versionNo = .ok r) :
    s.versions[r.1]? = some r.2 ∧ r.2.modelId = modelId ∧ r.2.versionNo = versionNo := by
  unfold version at h
  split at h
  · cases h
  · next id hid =>
    split at h
    · next v hv =>
      cases h
      obtain ⟨hlt, hp, -⟩ := List.findIdx?_eq_some_iff_getElem.mp hid
      rw [List.getElem?_eq_getElem hlt] at hv
      cases hv
      exact ⟨List.getElem?_eq_getElem hlt, by simpa using hp⟩
    · cases h

/-! ### Definitions that are no longer worked on -/

/-- Versions that are closed stay closed, with their definitions. -/
def Keeps (s s' : Store) : Prop :=
  ∀ (id : Nat) (v : ModelVersion), s.versions[id]? = some v → v.status.open = false →
    ∃ v', s'.versions[id]? = some v' ∧ v'.status.open = false ∧ v'.definition = v.definition

/-- The version that a model names as published is closed. -/
def PublishedClosed (s : Store) : Prop :=
  ∀ m ∈ s.models, ∀ id, m.publishedVersionId = some id →
    ∃ v, s.versions[id]? = some v ∧ v.status.open = false

theorem Keeps.refl (s : Store) : Keeps s s := fun _ v hv hclosed => ⟨v, hv, hclosed, rfl⟩

theorem Keeps.trans {t u : Store} (hst : Keeps s t) (htu : Keeps t u) : Keeps s u := by
  intro id v hv hclosed
  obtain ⟨w, hw, hwclosed, hwdef⟩ := hst id v hv hclosed
  obtain ⟨x, hx, hxclosed, hxdef⟩ := htu id w hw hwclosed
  exact ⟨x, hx, hxclosed, hxdef.trans hwdef⟩

theorem keeps_writeVersion {id : Nat} (hv : s.versions[id]? = some v)
    (h : v.status.open = false → w.status.open = false ∧ w.definition = v.definition) :
    Keeps s (s.writeVersion id w) := by
  intro k u hu hclosed
  by_cases hk : k = id
  · subst hk
    rw [hv] at hu
    cases hu
    obtain ⟨hlt, -⟩ := List.getElem?_eq_some_iff.mp hv
    exact ⟨w, List.getElem?_set_self hlt, h hclosed⟩
  · exact ⟨u, by rw [versions_writeVersion, List.getElem?_set_ne (Ne.symm hk), hu], hclosed, rfl⟩

theorem keeps_append (s : Store) (models : List SemanticModel) (rows : List ModelVersion) :
    Keeps s ⟨models, s.versions ++ rows⟩ := by
  intro id v hv hclosed
  exact ⟨v, List.getElem?_append_left (List.getElem?_eq_some_iff.mp hv).1 ▸ hv, hclosed, rfl⟩

theorem keeps_updateVersion {modelId versionNo : Nat}
    {decide : ModelVersion → Except ServiceExn ModelVersion}
    (hdecide : ∀ v w, decide v = .ok w → v.status.open = true)
    (h : s.updateVersion modelId versionNo decide = .ok s') :
      Keeps s s' ∧ s'.models = s.models := by
  obtain ⟨m, -, h⟩ := bind_eq_ok.mp h
  obtain ⟨version, hversion, h⟩ := bind_eq_ok.mp h
  obtain ⟨row, hrow, h⟩ := bind_eq_ok.mp h
  cases h
  refine ⟨keeps_writeVersion (version_ok hversion).1 fun hclosed => ?_, rfl⟩
  rw [hdecide _ _ hrow] at hclosed
  cases hclosed

theorem supersedePublished_ok {m : SemanticModel} (h : s.supersedePublished m = .ok s') :
    s'.models = s.models ∧ Keeps s s' ∧ ∀ (id : Nat) (v : ModelVersion), s.versions[id]? = some v →
      ∃ v', s'.versions[id]? = some v' ∧ v'.definition = v.definition := by
  unfold supersedePublished at h
  split at h
  · next id previous hid hprevious =>
    obtain ⟨row, hrow, rfl⟩ := map_eq_ok.mp h
    obtain ⟨-, rfl⟩ := supersede_ok hrow
    rw [published, hid] at hprevious
    refine ⟨rfl, keeps_writeVersion hprevious fun _ => ⟨rfl, rfl⟩, fun k v hv => ?_⟩
    by_cases hk : k = id
    · subst hk
      obtain ⟨hlt, -⟩ := List.getElem?_eq_some_iff.mp hv
      cases hprevious.symm.trans hv
      exact ⟨_, List.getElem?_set_self hlt, rfl⟩
    · exact ⟨v, (List.getElem?_set_ne (Ne.symm hk)).trans hv, rfl⟩
  · cases h
    exact ⟨rfl, Keeps.refl s, fun id v hv => ⟨v, hv, rfl⟩⟩

theorem PublishedClosed.keeps (hs : PublishedClosed s) (h : Keeps s s')
    (hmodels : ∀ m ∈ s'.models, m.publishedVersionId ≠ none →
      ∃ m' ∈ s.models, m'.publishedVersionId = m.publishedVersionId) : PublishedClosed s' := by
  intro m hm id hid
  obtain ⟨m', hm', heq⟩ := hmodels m hm (by rw [hid]; exact Option.some_ne_none id)
  obtain ⟨v, hv, hclosed⟩ := hs m' hm' id (heq.trans hid)
  obtain ⟨v', hv', hclosed', -⟩ := h id v hv hclosed
  exact ⟨v', hv', hclosed'⟩

end Store

open Store in
/-- An operation keeps the definitions of closed versions, and publishes closed ones only. -/
theorem perform_keeps {lower : String → String} {op : VersionOp}
    (h : s.perform lower op = .ok s') (hs : PublishedClosed s) :
      Keeps s s' ∧ PublishedClosed s' := by
  have hsame : ∀ {t : Store}, Keeps s t ∧ t.models = s.models → Keeps s t ∧ PublishedClosed t := by
    rintro t ⟨hkeeps, hmodels⟩
    exact ⟨hkeeps, hs.keeps hkeeps fun m hm _ => ⟨m, hmodels ▸ hm, rfl⟩⟩
  cases op with
  | create workspaceId name definition =>
    rw [perform] at h
    split at h
    · cases h
    · cases h
      have hkeeps := keeps_append s (s.models ++ [⟨workspaceId, name, none, .ok⟩])
        [newDraft s.models.length none definition]
      refine ⟨hkeeps, hs.keeps hkeeps fun m hm hne => ?_⟩
      rcases List.mem_append.mp hm with hm | hm
      · exact ⟨m, hm, rfl⟩
      · cases List.mem_singleton.mp hm
        exact absurd rfl hne
  | rename modelId name =>
    obtain ⟨m, hm, h⟩ := bind_eq_ok.mp h
    split at h
    · cases h
    · cases h
      have hkeeps : Keeps s (s.writeModel modelId { m with name }) := Keeps.refl s
      refine ⟨hkeeps, hs.keeps hkeeps fun m' hm' _ => ?_⟩
      rcases List.mem_or_eq_of_mem_set hm' with hm' | rfl
      · exact ⟨m', hm', rfl⟩
      · exact ⟨m, List.mem_of_getElem? (model_ok hm), rfl⟩
  | createDraft modelId =>
    obtain ⟨m, hm, h⟩ := bind_eq_ok.mp h
    split at h
    · cases h
    · cases h
      exact hsame ⟨keeps_append s _ _, rfl⟩
  | patchDraft modelId versionNo definition =>
    exact hsame (keeps_updateVersion (fun v w hw => (patchDraft_ok hw).1) h)
  | submit modelId versionNo datasetLookup subject =>
    exact hsame (keeps_updateVersion (fun v w hw => by rw [(submit_ok hw).1]; rfl) h)
  | approve modelId versionNo datasetLookup subject note =>
    obtain ⟨m, hm, h⟩ := bind_eq_ok.mp h
    obtain ⟨version, hversion, h⟩ := bind_eq_ok.mp h
    obtain ⟨row, hrow, h⟩ := bind_eq_ok.mp h
    obtain ⟨t, ht, h⟩ := bind_eq_ok.mp h
    cases h
    obtain ⟨hstatus, -, -, rfl⟩ := approve_ok hrow
    obtain ⟨hrow, -, -⟩ := version_ok hversion
    obtain ⟨hmodels, hkeeps, hrows⟩ := supersedePublished_ok ht
    obtain ⟨v, hv, hdef⟩ := hrows _ _ hrow
    obtain ⟨hlt, -⟩ := List.getElem?_eq_some_iff.mp hv
    have hkeeps := hkeeps.trans (keeps_writeVersion hv (w := { version.2 with
      status := .published, approvedBy := some subject, decisionNote := note })
      fun _ => ⟨rfl, hdef.symm⟩)
    refine ⟨hkeeps, fun m' hm' id hid => ?_⟩
    rw [models_writeModel, models_writeVersion, hmodels] at hm'
    rcases List.mem_or_eq_of_mem_set hm' with hm' | rfl
    · obtain ⟨u, hu, hclosed⟩ := hs m' hm' id hid
      obtain ⟨u', hu', hclosed', -⟩ := hkeeps id u hu hclosed
      exact ⟨u', hu', hclosed'⟩
    · cases hid
      exact ⟨_, List.getElem?_set_self hlt, rfl⟩
  | reject modelId versionNo subject note =>
    rw [perform] at h
    split at h
    · cases h
    · exact hsame (keeps_updateVersion (fun v w hw => by rw [(reject_ok hw).1]; rfl) h)

end Windrose.Semantic

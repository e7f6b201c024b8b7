/-
  Semantic/Publication.lean --- units of work on the versions of models.

  Source: services/semantic-service/app/domain/services.py (ModelService.create, patch,
  VersionService), app/store/sql.py (SqlModelRepo, SqlVersionRepo) and
  migrations/versions/0001_initial.py.

  A unit of work reads its rows one after the other and commits later; between two of its
  moves others commit.  A row is written back whole.  The advisory lock on a model is taken
  by approvals only, and after they have read the row of the model.

  `CommitsClean` says of a commit that it writes over no version published since it was
  read, and finds the published version that it read.
-/
import Windrose.Foundation.Runs
import Windrose.Semantic.Versions

set_option autoImplicit false

namespace Windrose.Semantic

open Windrose.Foundation
open Store (version_ok model_ok)

/-! ## Units of work -/

/-- A row as it was read, and as it is to be written. -/
structure Rewrite where
  id : Nat
  read : ModelVersion
  row : ModelVersion

/-- What a unit of work is about to commit. -/
inductive Plan where
  | create (workspaceId name : String) (definition : Definition)
  | rename (modelId : Nat) (read : SemanticModel) (name : String)
  | draft (row : ModelVersion)
  | version (write : Rewrite)
  | publish (modelId : Nat) (read : SemanticModel) (write : Rewrite) (previous : Option Rewrite)

/-- How far a unit of work has come. -/
inductive Phase where
  | begun
  | opened (m : SemanticModel)
  /-- `approve` holds the lock of the model. -/
  | locked (m : SemanticModel)
  /-- `approve` has decided on the version. -/
  | decided (m : SemanticModel) (write : Rewrite)
  | ready (plan : Plan)

/-- An operation, and where its unit is. -/
structure Work where
  op : VersionOp
  phase : Phase

/-- The tables, the locks and the units of work. -/
structure World where
  store : Store
  /-- The unit that holds the advisory lock of a model. -/
  lock : Nat → Option Nat
  units : Nat → Option Work

def World.initial : World := ⟨⟨[], []⟩, fun _ => none, fun _ => none⟩

/-- The model that an operation is about. -/
def VersionOp.modelId? : VersionOp → Option Nat
  | .create _ _ _ => none
  | .rename modelId _ => some modelId
  | .createDraft modelId => some modelId
  | .patchDraft modelId _ _ => some modelId
  | .submit modelId _ _ _ => some modelId
  | .approve modelId _ _ _ _ => some modelId
  | .reject modelId _ _ _ => some modelId

section

variable (lower : String → String) (s : Store)

/-- A version is read and decided on. -/
def rewrite (modelId versionNo : Nat) (decide : ModelVersion → Except ServiceExn ModelVersion) :
    Except ServiceExn Rewrite := do
  let version ← s.version modelId versionNo
  let row ← decide version.2
  return ⟨version.1, version.2, row⟩

/-- The first move: the row of the model is read. -/
def openWork : VersionOp → Except ServiceExn Phase
  | .create workspaceId name definition =>
    if (s.modelNamed lower workspaceId name).isSome then .error (.nameTaken name)
    else .ok (.ready (.create workspaceId name definition))
  | .rename modelId _ => (s.model modelId).map .opened
  | .createDraft modelId => (s.model modelId).map .opened
  | .patchDraft modelId _ _ => (s.model modelId).map .opened
  | .submit modelId _ _ _ => (s.model modelId).map .opened
  | .approve modelId _ _ _ _ => (s.model modelId).map .opened
  | .reject modelId _ _ note =>
    if note = "" then .error .noteRequired else (s.model modelId).map .opened

/-- The move after that: the other rows are read. -/
def planWork (m : SemanticModel) : VersionOp → Except ServiceExn Plan
  -- `create` is ready by now, and `approve` takes the lock first
  | .create _ _ _ => .error .modelRequired
  | .approve _ _ _ _ _ => .error .modelRequired
  | .rename modelId name =>
    if (s.modelNamed lower m.workspaceId name).any fun found => found.1 ≠ modelId then
      .error (.nameTaken name)
    else .ok (.rename modelId m name)
  | .createDraft modelId =>
    match s.openVersion modelId with
    | some v => .error (.openVersion v.versionNo v.status)
    | none =>
      .ok (.draft (newDraft modelId (s.latest modelId)
        (((s.published m).map ModelVersion.definition).getD .empty)))
  | .patchDraft modelId versionNo definition =>
    (rewrite s modelId versionNo (patchDraft definition)).map .version
  | .submit modelId versionNo datasetLookup subject =>
    (rewrite s modelId versionNo (submit datasetLookup subject)).map .version
  | .reject modelId versionNo subject note =>
    (rewrite s modelId versionNo (reject subject note)).map .version

/-- `approve` under the lock: the version is read and decided on. -/
def decideApproval : VersionOp → Except ServiceExn Rewrite
  | .approve modelId versionNo datasetLookup subject note =>
    rewrite s modelId versionNo (approve datasetLookup subject note)
  | _ => .error .versionNotFound

/-- `approve` reads the version that the model names as published. -/
def readPrevious (m : SemanticModel) : Except ServiceExn (Option Rewrite) :=
  match m.publishedVersionId with
  | none => .ok none
  | some id =>
    match s.versions[id]? with
    | none => .ok none
    | some previous => (supersede previous).map fun row => some ⟨id, previous, row⟩

/-! ### Commits -/

def Store.writeRow (w : Rewrite) : Store := s.writeVersion w.id w.row

def Plan.write : Plan → Store
  | .create workspaceId name definition =>
    { models := s.models ++ [⟨workspaceId, name, none, .ok⟩]
      versions := s.versions ++ [newDraft s.models.length none definition] }
  | .rename modelId read name => s.writeModel modelId { read with name }
  | .draft row => { s with versions := s.versions ++ [row] }
  | .version write => s.writeRow write
  | .publish modelId read write previous =>
    let superseded := match previous with
      | some p => s.writeRow p
      | none => s
    (superseded.writeRow write).writeModel modelId (read.publish write.id)

/-- `ux_versions_one_open` and `ux_versions_model_no`. -/
def VersionsOk (versions : List ModelVersion) : Prop :=
  versions.Pairwise fun v w => v.modelId = w.modelId →
    ¬ (v.status.open = true ∧ w.status.open = true) ∧ v.versionNo ≠ w.versionNo

instance (versions : List ModelVersion) : Decidable (VersionsOk versions) :=
  inferInstanceAs (Decidable (List.Pairwise _ _))

/-- `ux_models_ws_name`. -/
def ModelsOk (models : List SemanticModel) : Prop :=
  models.Pairwise fun m n => m.workspaceId = n.workspaceId → lower m.name ≠ lower n.name

instance (models : List SemanticModel) : Decidable (ModelsOk lower models) :=
  inferInstanceAs (Decidable (List.Pairwise _ _))

/-- The tables after a commit, if they meet the constraints. -/
def commit (plan : Plan) : Option Store :=
  let s' := plan.write s
  if VersionsOk s'.versions ∧ ModelsOk lower s'.models then some s' else none

end

/-! ### Moves -/

/-- A unit begins, goes on or is given up. -/
inductive WorkMove where
  | begin (i : Nat) (op : VersionOp)
  | go (i : Nat)
  | abort (i : Nat)

namespace World

variable (lower : String → String) (w : World)

/-- The unit is over, and what it has locked is free. -/
def leave (i : Nat) : World :=
  { w with
    lock := fun modelId => if w.lock modelId = some i then none else w.lock modelId
    units := Function.update w.units i none }

def enter (i : Nat) (op : VersionOp) (phase : Phase) : World :=
  { w with units := Function.update w.units i (some ⟨op, phase⟩) }

/-- The unit goes on, or raises. -/
def proceed (i : Nat) (op : VersionOp) : Except ServiceExn Phase → World
  | .ok phase => w.enter i op phase
  | .error _ => w.leave i

/-- One move of a unit. -/
def advance (i : Nat) (op : VersionOp) : Phase → World
  | .begun => w.proceed i op (openWork lower w.store op)
  | .opened m =>
    match op with
    | .approve modelId _ _ _ _ =>
      match w.lock modelId with
      | some _ => w
      | none => { w with lock := Function.update w.lock modelId (some i) }.enter i op (.locked m)
    | op => w.proceed i op ((planWork lower w.store m op).map .ready)
  | .locked m => w.proceed i op ((decideApproval w.store op).map (.decided m))
  | .decided m write =>
    w.proceed i op ((readPrevious w.store m).map fun previous =>
      .ready (.publish (op.modelId?.getD 0) m write previous))
  | .ready plan =>
    match commit lower w.store plan with
    | some store => { w with store }.leave i
    | none => w.leave i

/-- One step. -/
def step : WorkMove → World
  | .begin i op =>
    match w.units i with
    | none => w.enter i op .begun
    | some _ => w
  | .go i =>
    match w.units i with
    | some work => w.advance lower i work.op work.phase
    | none => w
  | .abort i => w.leave i

end World

/-! ## The condition -/

/-- What a unit may write: a version that is not published, or the rows that it read. -/
def Clean (s : Store) : Plan → Prop
  | .create _ _ _ => True
  | .draft _ => True
  | .rename modelId read _ =>
    ∀ m, s.models[modelId]? = some m → m.publishedVersionId = read.publishedVersionId
  | .version write => ∀ v, s.versions[write.id]? = some v → v.status ≠ .published
  | .publish modelId read write previous =>
    (∀ m, s.models[modelId]? = some m → m.publishedVersionId = read.publishedVersionId) ∧
      s.versions[write.id]? = some write.read ∧
      (∀ p, previous = some p → s.versions[p.id]? = some p.read) ∧
      ¬ (write.read.submittedBy = some "" ∧ write.row.approvedBy = some "")

/-- The plan that a unit is about to commit. -/
def World.pending (w : World) (i : Nat) : Option Plan :=
  (w.units i).bind fun work =>
    match work.phase with
    | .ready plan => some plan
    | _ => none

variable {op : VersionOp} {plan : Plan} {i modelId id : Nat} {lower : String → String} {s : Store}
  {phase : Phase} {write : Rewrite} {previous : Option Rewrite} {v : ModelVersion}
  {read : SemanticModel}

theorem World.pending_of_ready {w : World}
    (h : w.units i = some ⟨op, .ready plan⟩) : w.pending i = some plan := by
  rw [pending, h, Option.bind_some]

/-- What a move commits is clean. -/
def CommitsClean (lower : String → String) (w : World) : WorkMove → Prop
  | .go i => ∀ plan, w.pending i = some plan → (commit lower w.store plan).isSome →
    Clean w.store plan
  | _ => True

theorem commitsClean_of_none {w : World} (h : w.pending i = none) :
    CommitsClean lower w (.go i) := by
  intro plan hplan
  rw [h] at hplan
  cases hplan

/-! ## What units have read -/

/-- The version that a row of a model names is in the table. -/
def Known (s : Store) (m : SemanticModel) : Prop :=
  ∀ id, m.publishedVersionId = some id → id < s.versions.length

/-- The approval of a version that was in review when it was read. -/
def Decided (op : VersionOp) (write : Rewrite) : Prop :=
  ∃ modelId versionNo datasetLookup subject note,
    op = .approve modelId versionNo datasetLookup subject note ∧ write.read.modelId = modelId ∧
      approve datasetLookup subject note write.read = .ok write.row

/-- What holds of a plan from the rows that it was made from. -/
def PlanOk (s : Store) (op : VersionOp) : Plan → Prop
  | .create _ _ _ => True
  | .rename _ _ _ => True
  | .draft row => row.modelId < s.models.length ∧ row.status = .draft
  | .version write => write.row.modelId < s.models.length ∧ write.row.status ≠ .published ∧
      (write.row.status = .inReview → write.row.submittedBy ≠ none)
  | .publish modelId read write previous => op.modelId? = some modelId ∧ Decided op write ∧
      read.publishedVersionId = previous.map Rewrite.id ∧
      ∀ p, previous = some p → supersede p.read = .ok p.row

/-- What a phase knows. -/
def PhaseOk (s : Store) (op : VersionOp) : Phase → Prop
  | .begun => True
  | .opened m => Known s m
  | .locked m => Known s m
  | .decided m write => Known s m ∧ Decided op write
  | .ready plan => PlanOk s op plan

theorem PhaseOk.mono {s' : Store} (h : PhaseOk s op phase)
    (hversions : s.versions.length ≤ s'.versions.length)
    (hmodels : s.models.length ≤ s'.models.length) :
    PhaseOk s' op phase := by
  have hknown : ∀ {m}, Known s m → Known s' m := fun hm id hid => (hm id hid).trans_le hversions
  cases phase with
  | begun => trivial
  | opened m => exact hknown h
  | locked m => exact hknown h
  | decided m write => exact ⟨hknown h.1, h.2⟩
  | ready plan =>
    cases plan with
    | draft row => exact ⟨h.1.trans_le hmodels, h.2⟩
    | version write => exact ⟨h.1.trans_le hmodels, h.2⟩
    | _ => exact h

/-! ## Stores in order -/

/-- Versions are of models; one is published exactly when its model names it, and what is
in review has been submitted by someone. -/
structure InOrder (s : Store) : Prop where
  owned : ∀ (id : Nat) v, s.versions[id]? = some v → v.modelId < s.models.length
  pointed : ∀ (id : Nat) v, s.versions[id]? = some v → v.status = .published →
    ∃ m, s.models[v.modelId]? = some m ∧ m.publishedVersionId = some id
  names : ∀ (modelId : Nat) m id, s.models[modelId]? = some m → m.publishedVersionId = some id →
    ∃ v, s.versions[id]? = some v ∧ v.status = .published ∧ v.modelId = modelId
  submitted : ∀ (id : Nat) v, s.versions[id]? = some v → v.status = .inReview → v.submittedBy ≠ none

variable {m : SemanticModel}

theorem InOrder.known (h : InOrder s)
    (hm : s.model modelId = .ok m) : Known s m := by
  intro id hid
  obtain ⟨v, hv, -⟩ := h.names modelId m id (model_ok hm) hid
  exact (List.getElem?_eq_some_iff.mp hv).1

theorem rewrite_ok {versionNo : Nat} {decide : ModelVersion → Except ServiceExn ModelVersion}
    (h : rewrite s modelId versionNo decide = .ok write) :
    s.versions[write.id]? = some write.read ∧ write.read.modelId = modelId ∧
      decide write.read = .ok write.row := by
  obtain ⟨version, hversion, h⟩ := bind_eq_ok.mp h
  obtain ⟨row, hrow, h⟩ := bind_eq_ok.mp h
  cases h
  obtain ⟨hread, hmodel, -⟩ := version_ok hversion
  exact ⟨hread, hmodel, hrow⟩

/-- The model of an operation is in the table. -/
def Owned (s : Store) (op : VersionOp) : Prop :=
  ∀ modelId, op.modelId? = some modelId → modelId < s.models.length

theorem openWork_ok (hs : InOrder s)
    (h : openWork lower s op = .ok phase) : PhaseOk s op phase ∧ Owned s op := by
  have hopened : ∀ {modelId : Nat}, op.modelId? = some modelId →
      (s.model modelId).map Phase.opened = .ok phase → PhaseOk s op phase ∧ Owned s op := by
    intro modelId hop h
    obtain ⟨m, hm, rfl⟩ := map_eq_ok.mp h
    refine ⟨hs.known hm, fun k hk => ?_⟩
    cases hop.symm.trans hk
    exact (List.getElem?_eq_some_iff.mp (model_ok hm)).1
  cases op with
  | create workspaceId name definition =>
    rw [openWork] at h
    split at h
    · cases h
    · cases h
      exact ⟨trivial, nofun⟩
  | reject modelId versionNo subject note =>
    rw [openWork] at h
    split at h
    · cases h
    · exact hopened rfl h
  | _ => exact hopened rfl h

theorem planWork_ok (hs : InOrder s)
    (hop : Owned s op) (h : planWork lower s m op = .ok plan) : PlanOk s op plan := by
  cases op with
  | create workspaceId name definition => cases h
  | approve modelId versionNo datasetLookup subject note => cases h
  | rename modelId name =>
    rw [planWork] at h
    split at h
    · cases h
    · cases h
      trivial
  | createDraft modelId =>
    rw [planWork] at h
    split at h
    · cases h
    · cases h
      exact ⟨hop modelId rfl, rfl⟩
  | patchDraft modelId versionNo definition =>
    obtain ⟨write, hwrite, rfl⟩ := map_eq_ok.mp h
    obtain ⟨hread, -, hrow⟩ := rewrite_ok hwrite
    obtain ⟨-, hrow⟩ := patchDraft_ok hrow
    rw [PlanOk, hrow]
    exact ⟨hs.owned _ write.read hread, nofun, nofun⟩
  | submit modelId versionNo datasetLookup subject =>
    obtain ⟨write, hwrite, rfl⟩ := map_eq_ok.mp h
    obtain ⟨hread, -, hrow⟩ := rewrite_ok hwrite
    obtain ⟨-, -, hrow⟩ := submit_ok hrow
    rw [PlanOk, hrow]
    exact ⟨hs.owned _ write.read hread, nofun, fun _ => Option.some_ne_none subject⟩
  | reject modelId versionNo subject note =>
    obtain ⟨write, hwrite, rfl⟩ := map_eq_ok.mp h
    obtain ⟨hread, -, hrow⟩ := rewrite_ok hwrite
    obtain ⟨-, -, hrow⟩ := reject_ok hrow
    rw [PlanOk, hrow]
    exact ⟨hs.owned _ write.read hread, nofun, nofun⟩

theorem decideApproval_ok (h : decideApproval s op = .ok write) : Decided op write := by
  cases op with
  | approve modelId versionNo datasetLookup subject note =>
    obtain ⟨-, hmodel, hrow⟩ := rewrite_ok h
    exact ⟨modelId, versionNo, datasetLookup, subject, note, rfl, hmodel, hrow⟩
  | _ => cases h

theorem readPrevious_ok (hm : Known s m) (h : readPrevious s m = .ok previous) :
    m.publishedVersionId = previous.map Rewrite.id ∧
      ∀ p, previous = some p → supersede p.read = .ok p.row := by
  unfold readPrevious at h
  split at h
  · next hnone =>
    cases h
    exact ⟨hnone, fun _ => nofun⟩
  · next id hid =>
    split at h
    · next hmissing =>
      rw [List.getElem?_eq_none_iff] at hmissing
      exact absurd (hm id hid) (by omega)
    · next v hv =>
      obtain ⟨row, hrow, rfl⟩ := map_eq_ok.mp h
      refine ⟨hid, fun p hp => ?_⟩
      cases hp
      exact hrow

/-! ## A commit keeps the order -/

theorem writeRow_cases {w : Rewrite} (h : (s.writeRow w).versions[id]? = some v) :
    (id = w.id ∧ v = w.row) ∨ (id ≠ w.id ∧ s.versions[id]? = some v) := by
  rw [Store.writeRow, Store.versions_writeVersion, List.getElem?_set] at h
  split at h
  · next heq =>
    split at h
    · cases h
      exact .inl ⟨heq.symm, rfl⟩
    · cases h
  · next hne => exact .inr ⟨Ne.symm hne, h⟩

theorem writeRow_of_ne {w : Rewrite} (h : id ≠ w.id) :
    (s.writeRow w).versions[id]? = s.versions[id]? := List.getElem?_set_ne (Ne.symm h)

theorem append_cases {α : Type} {as : List α} {a b : α} (h : (as ++ [a])[i]? = some b) :
    as[i]? = some b ∨ b = a := by
  rw [List.getElem?_append] at h
  split at h
  · exact .inl h
  · exact .inr (List.mem_singleton.mp (List.mem_of_getElem? h))

theorem InOrder.append (h : InOrder s) {models : List SemanticModel} {row : ModelVersion}
    (hmodels : ∀ m ∈ models, m.publishedVersionId = none) (hrow : row.status = .draft)
    (howned : row.modelId < (s.models ++ models).length) :
      InOrder ⟨s.models ++ models, s.versions ++ [row]⟩ := by
  have hold : ∀ {id : Nat} {v : ModelVersion}, s.versions[id]? = some v →
      (s.versions ++ [row])[id]? = some v := by
    intro id v hv
    rw [List.getElem?_append_left (List.getElem?_eq_some_iff.mp hv).1, hv]
  refine ⟨fun id v hv => ?_, fun id v hv hp => ?_, fun k m id hm hid => ?_,
    fun id v hv hreview => ?_⟩
  · rcases append_cases hv with hv | rfl
    · exact (h.owned id v hv).trans_le (by simp)
    · exact howned
  · rcases append_cases hv with hv | rfl
    · obtain ⟨m, hm, hid⟩ := h.pointed id v hv hp
      exact ⟨m, by rw [List.getElem?_append_left (List.getElem?_eq_some_iff.mp hm).1, hm], hid⟩
    · rw [hrow] at hp
      cases hp
  · rw [List.getElem?_append] at hm
    split at hm
    · obtain ⟨v, hv, hp, hk⟩ := h.names k m id hm hid
      exact ⟨v, hold hv, hp, hk⟩
    · rw [hmodels m (List.mem_of_getElem? hm)] at hid
      cases hid
  · rcases append_cases hv with hv | rfl
    · exact h.submitted id v hv hreview
    · rw [hrow] at hreview
      cases hreview

theorem InOrder.version (h : InOrder s) {w : Rewrite}
    (hold : ∀ v, s.versions[w.id]? = some v → v.status ≠ .published)
    (hnew : w.row.status ≠ .published)
    (hsubmitted : w.row.status = .inReview → w.row.submittedBy ≠ none)
    (howned : w.row.modelId < s.models.length) : InOrder (s.writeRow w) := by
  refine ⟨fun id v hv => ?_, fun id v hv hp => ?_, fun k m id hm hid => ?_,
    fun id v hv hreview => ?_⟩
  · rcases writeRow_cases hv with ⟨-, rfl⟩ | ⟨-, hv⟩
    · exact howned
    · exact h.owned id v hv
  · rcases writeRow_cases hv with ⟨-, rfl⟩ | ⟨-, hv⟩
    · exact absurd hp hnew
    · exact h.pointed id v hv hp
  · obtain ⟨v, hv, hp, hk⟩ := h.names k m id hm hid
    have hne : id ≠ w.id := by
      rintro rfl
      exact hold v hv hp
    exact ⟨v, by rw [writeRow_of_ne hne, hv], hp, hk⟩
  · rcases writeRow_cases hv with ⟨-, rfl⟩ | ⟨-, hv⟩
    · exact hsubmitted hreview
    · exact h.submitted id v hv hreview

theorem InOrder.model (h : InOrder s) {m' : SemanticModel}
    (hsame : ∀ m, s.models[modelId]? = some m → m.publishedVersionId = m'.publishedVersionId) :
    InOrder (s.writeModel modelId m') := by
  refine ⟨fun id v hv => (h.owned id v hv).trans_eq (by simp), fun id v hv hp => ?_,
    fun k m id hm hid => ?_, h.submitted⟩
  · obtain ⟨m, hm, hid⟩ := h.pointed id v hv hp
    rw [Store.models_writeModel]
    by_cases hk : modelId = v.modelId
    · subst hk
      exact ⟨m', List.getElem?_set_self (List.getElem?_eq_some_iff.mp hm).1,
        (hsame m hm).symm.trans hid⟩
    · exact ⟨m, by rw [List.getElem?_set_ne hk, hm], hid⟩
  · rw [Store.models_writeModel, List.getElem?_set] at hm
    split at hm
    · next heq =>
      subst heq
      split at hm
      · next hlt =>
        cases hm
        exact h.names _ _ id (List.getElem?_eq_getElem hlt)
          ((hsame _ (List.getElem?_eq_getElem hlt)).trans hid)
      · cases hm
    · exact h.names k m id hm hid

theorem publish_cases
    (h : (Plan.write s (.publish modelId read write previous)).versions[id]? = some v) :
    (id = write.id ∧ v = write.row) ∨ (∃ p, previous = some p ∧ id = p.id ∧ v = p.row) ∨
      ((∀ p, previous = some p → id ≠ p.id) ∧ s.versions[id]? = some v) := by
  rcases writeRow_cases h with hw | ⟨-, h⟩
  · exact .inl hw
  · cases previous with
    | none => exact .inr (.inr ⟨fun _ => nofun, h⟩)
    | some p =>
      rcases writeRow_cases h with ⟨hid, hv⟩ | ⟨hne, h⟩
      · exact .inr (.inl ⟨p, rfl, hid, hv⟩)
      · refine .inr (.inr ⟨fun q hq => ?_, h⟩)
        cases hq
        exact hne

theorem publish_of_ne (hne : id ≠ write.id) (hprevious : ∀ p, previous = some p → id ≠ p.id) :
    (Plan.write s (.publish modelId read write previous)).versions[id]? = s.versions[id]? := by
  refine (writeRow_of_ne hne).trans ?_
  cases previous with
  | none => rfl
  | some p => exact writeRow_of_ne (hprevious p rfl)

theorem Decided.spec (h : Decided op write) :
    op.modelId? = some write.read.modelId ∧ write.read.status = .inReview ∧
      write.row.status = .published ∧ write.row.modelId = write.read.modelId := by
  obtain ⟨modelId, versionNo, datasetLookup, subject, note, rfl, hmodel, hrow⟩ := h
  obtain ⟨hstatus, -, -, hrow⟩ := approve_ok hrow
  rw [hrow]
  exact ⟨congrArg some hmodel.symm, hstatus, rfl, rfl⟩

/-- An approval publishes a version of its model, and supersedes the one before. -/
theorem InOrder.publish (h : InOrder s) (hok : PlanOk s op (.publish modelId read write previous))
    (hclean : Clean s (.publish modelId read write previous)) :
    InOrder (Plan.write s (.publish modelId read write previous)) := by
  obtain ⟨hop, hdecided, hread, hsupersede⟩ := hok
  obtain ⟨hpointer, hrow, hprevious, -⟩ := hclean
  obtain ⟨hop', hreview, hpublished, hmodel⟩ := hdecided.spec
  obtain rfl : write.read.modelId = modelId := Option.some.inj (hop'.symm.trans hop)
  have hmodels : (Plan.write s (.publish write.read.modelId read write previous)).models =
      s.models.set write.read.modelId (read.publish write.id) := by
    cases previous <;> rfl
  obtain ⟨m, hm⟩ : ∃ m, s.models[write.read.modelId]? = some m :=
    ⟨_, List.getElem?_eq_getElem (h.owned _ _ hrow)⟩
  have hnamed : m.publishedVersionId = previous.map Rewrite.id := (hpointer m hm).trans hread
  have hsuperseded : ∀ p, previous = some p → s.versions[p.id]? = some p.read ∧
      p.read.modelId = write.read.modelId ∧ p.row = { p.read with status := .superseded } := by
    intro p hp
    obtain ⟨v, hv, -, hk⟩ := h.names _ m p.id hm (by rw [hnamed, hp, Option.map_some])
    cases hv.symm.trans (hprevious p hp)
    exact ⟨hprevious p hp, hk, (supersede_ok (hsupersede p hp)).2⟩
  refine ⟨fun id v hv => ?_, fun id v hv hp => ?_, fun k m' id hm' hid => ?_,
    fun id v hv hinReview => ?_⟩
  · rw [hmodels, List.length_set]
    rcases publish_cases hv with ⟨rfl, rfl⟩ | ⟨p, hp, rfl, rfl⟩ | ⟨-, hv⟩
    · rw [hmodel]
      exact h.owned _ _ hrow
    · obtain ⟨hread, -, hsame⟩ := hsuperseded p hp
      rw [hsame]
      exact h.owned _ p.read hread
    · exact h.owned id v hv
  · rw [hmodels]
    rcases publish_cases hv with ⟨rfl, rfl⟩ | ⟨p, hp', rfl, rfl⟩ | ⟨hne, hv⟩
    · exact ⟨_, by rw [hmodel, List.getElem?_set_self (h.owned _ _ hrow)], rfl⟩
    · rw [(hsuperseded p hp').2.2] at hp
      cases hp
    · obtain ⟨m', hm', hid⟩ := h.pointed id v hv hp
      have hk : write.read.modelId ≠ v.modelId := by
        intro hk
        rw [← hk, hm] at hm'
        cases hm'
        rw [hnamed] at hid
        obtain ⟨p, hp', hid⟩ := Option.map_eq_some_iff.mp hid
        exact hne p hp' hid.symm
      exact ⟨m', by rw [List.getElem?_set_ne hk, hm'], hid⟩
  · rw [hmodels, List.getElem?_set] at hm'
    split at hm'
    · next heq =>
      subst heq
      split at hm'
      · cases hm'
        cases hid
        refine ⟨write.row, ?_, hpublished, hmodel⟩
        refine List.getElem?_set_self ?_
        have hlen := (List.getElem?_eq_some_iff.mp hrow).1
        cases previous with
        | none => exact hlen
        | some p => exact hlen.trans_eq (List.length_set).symm
      · cases hm'
    · next hne =>
      obtain ⟨v, hv, hp, hk⟩ := h.names k m' id hm' hid
      refine ⟨v, ?_, hp, hk⟩
      rw [publish_of_ne, hv]
      · rintro rfl
        cases hrow.symm.trans hv
        rw [hreview] at hp
        cases hp
      · rintro p hp' rfl
        obtain ⟨hread, hsame, -⟩ := hsuperseded p hp'
        cases hread.symm.trans hv
        exact hne (hsame.symm.trans hk)
  · rcases publish_cases hv with ⟨rfl, rfl⟩ | ⟨p, hp', rfl, rfl⟩ | ⟨-, hv⟩
    · rw [hpublished] at hinReview
      cases hinReview
    · rw [(hsuperseded p hp').2.2] at hinReview
      cases hinReview
    · exact h.submitted id v hv hinReview

theorem inOrder_write (h : InOrder s) (hok : PlanOk s op plan)
    (hclean : Clean s plan) : InOrder (plan.write s) := by
  cases plan with
  | create workspaceId name definition =>
    refine h.append (fun m hm => ?_) rfl ?_
    · cases List.mem_singleton.mp hm
      rfl
    · simp [newDraft]
  | rename modelId read name => exact h.model hclean
  | draft row =>
    have happend := h.append (fun _ (hm : _ ∈ []) => (nomatch hm)) hok.2 (by simpa using hok.1)
    rwa [List.append_nil] at happend
  | version write => exact h.version hclean hok.2.1 hok.2.2 hok.1
  | publish modelId read write previous => exact h.publish hok hclean

theorem published_write (hok : PlanOk s op plan)
    (hv : (plan.write s).versions[id]? = some v) (hp : v.status = .published) :
    s.versions[id]? = some v ∨ ∃ modelId read write previous,
      plan = .publish modelId read write previous ∧ id = write.id ∧ v = write.row := by
  cases plan with
  | create workspaceId name definition =>
    rcases append_cases hv with hv | rfl
    · exact .inl hv
    · cases hp
  | rename modelId read name => exact .inl hv
  | draft row =>
    rcases append_cases hv with hv | rfl
    · exact .inl hv
    · cases hok.2.symm.trans hp
  | version write =>
    rcases writeRow_cases hv with ⟨-, rfl⟩ | ⟨-, hv⟩
    · exact absurd hp hok.2.1
    · exact .inl hv
  | publish modelId read write previous =>
    rcases publish_cases hv with ⟨hid, hv⟩ | ⟨p, hp', rfl, rfl⟩ | ⟨-, hv⟩
    · exact .inr ⟨modelId, read, write, previous, rfl, hid, hv⟩
    · obtain ⟨-, hrow⟩ := supersede_ok (hok.2.2.2 p hp')
      rw [hrow] at hp
      cases hp
    · exact .inl hv

theorem length_write (s : Store) (plan : Plan) :
    s.versions.length ≤ (plan.write s).versions.length ∧
      s.models.length ≤ (plan.write s).models.length := by
  cases plan with
  | publish modelId read write previous =>
    cases previous <;> simp [Plan.write, Store.writeRow]
  | _ => simp [Plan.write, Store.writeRow]

theorem commit_ok {s' : Store} (h : commit lower s plan = some s') : s' = plan.write s := by
  unfold commit at h
  dsimp only at h
  split at h
  · cases h
    rfl
  · cases h

/-! ## Runs -/

/-- The store is in order, and the units have read what they are about to write. -/
structure World.Good (w : World) : Prop where
  store : InOrder w.store
  units : ∀ i op phase, w.units i = some ⟨op, phase⟩ →
    PhaseOk w.store op phase ∧ (phase ≠ .begun → Owned w.store op)

theorem inOrder_empty : InOrder ⟨[], []⟩ where
  owned id v hv := by cases hv
  pointed id v hv _ := by cases hv
  names k m id hm _ := by cases hm
  submitted id v hv _ := by cases hv

theorem World.good_initial : World.initial.Good where
  store := inOrder_empty
  units i op phase h := by cases h

/-- The unit `i` is about to make `v` the published row `id`, which is in review. -/
structure Approves (w : World) (i id : Nat) (v : ModelVersion) : Prop where
  unit : ∃ modelId versionNo datasetLookup subject note read write previous,
    w.units i = some ⟨.approve modelId versionNo datasetLookup subject note,
      .ready (.publish modelId read write previous)⟩ ∧ write.id = id ∧ write.row = v ∧
      Validated v.definition datasetLookup ∧ v.approvedBy = some subject
  row : ∃ v₀, w.store.versions[id]? = some v₀ ∧ v₀.status = .inReview ∧
    v₀.definition = v.definition ∧
    v₀.submittedBy = v.submittedBy
  submitter : ∃ subject, v.submittedBy = some subject ∧ v.approvedBy ≠ some subject

namespace World

variable {lower : String → String} {w : World}

theorem Good.enter (h : w.Good) (i : Nat)
    (hphase : PhaseOk w.store op phase) (howned : phase ≠ .begun → Owned w.store op) :
    (w.enter i op phase).Good := by
  refine ⟨h.store, fun j op' phase' hj => ?_⟩
  by_cases hij : j = i
  · subst hij
    cases (Function.update_self j _ w.units).symm.trans hj
    exact ⟨hphase, howned⟩
  · exact h.units j op' phase' ((Function.update_of_ne hij _ w.units).symm.trans hj)

theorem Good.leave (h : w.Good) (i : Nat) : (w.leave i).Good := by
  refine ⟨h.store, fun j op' phase' hj => ?_⟩
  by_cases hij : j = i
  · subst hij
    cases (Function.update_self j _ w.units).symm.trans hj
  · exact h.units j op' phase' ((Function.update_of_ne hij _ w.units).symm.trans hj)

theorem Good.proceed (h : w.Good) (i : Nat) {r : Except ServiceExn Phase}
    (hr : ∀ phase, r = .ok phase → PhaseOk w.store op phase ∧ Owned w.store op) :
    (w.proceed i op r).Good := by
  cases r with
  | error e => exact h.leave i
  | ok phase => exact h.enter i (hr phase rfl).1 fun _ => (hr phase rfl).2

theorem Good.commit (h : w.Good)
    (hunit : w.units i = some ⟨op, .ready plan⟩) (hclean : Clean w.store plan) :
    ({ w with store := plan.write w.store }.leave i).Good := by
  obtain ⟨hversions, hmodels⟩ := length_write w.store plan
  refine Good.leave (w := { w with store := plan.write w.store })
    ⟨inOrder_write h.store (h.units i op _ hunit).1 hclean, fun j op' phase hj => ?_⟩ i
  obtain ⟨hphase, howned⟩ := h.units j op' phase hj
  exact ⟨hphase.mono hversions hmodels,
    fun hne modelId hmodel => (howned hne modelId hmodel).trans_le hmodels⟩

theorem good_advance (h : w.Good)
    (hunit : w.units i = some ⟨op, phase⟩) (hclean : CommitsClean lower w (.go i)) :
    (w.advance lower i op phase).Good := by
  obtain ⟨hphase, howned⟩ := h.units i op phase hunit
  cases phase with
  | begun => exact h.proceed i fun phase' hr => openWork_ok h.store hr
  | opened m =>
    have howned := howned nofun
    have hplan : (w.proceed i op ((planWork lower w.store m op).map .ready)).Good := by
      refine h.proceed i fun phase' hr => ?_
      obtain ⟨plan, hplan, rfl⟩ := map_eq_ok.mp hr
      exact ⟨planWork_ok h.store howned hplan, howned⟩
    cases op with
    | approve modelId versionNo datasetLookup subject note =>
      rw [advance]
      split
      · exact h
      · next hfree =>
        exact Good.enter (w := { w with lock := Function.update w.lock modelId (some i) })
          ⟨h.store, h.units⟩ i hphase fun _ => howned
    | _ => exact hplan
  | locked m =>
    refine h.proceed i fun phase' hr => ?_
    obtain ⟨write, hwrite, rfl⟩ := map_eq_ok.mp hr
    exact ⟨⟨hphase, decideApproval_ok hwrite⟩, howned nofun⟩
  | decided m write =>
    refine h.proceed i fun phase' hr => ?_
    obtain ⟨previous, hprevious, rfl⟩ := map_eq_ok.mp hr
    obtain ⟨hknown, hdecided⟩ := hphase
    obtain ⟨hread, hsupersede⟩ := readPrevious_ok hknown hprevious
    refine ⟨⟨?_, hdecided, hread, hsupersede⟩, howned nofun⟩
    rw [hdecided.spec.1]
    rfl
  | ready plan =>
    rw [advance]
    split
    · next store hcommit =>
      rw [commit_ok hcommit]
      exact h.commit hunit (hclean plan (pending_of_ready hunit) (by rw [hcommit]; rfl))
    · exact h.leave i

theorem good_step (h : w.Good) (m : WorkMove) (hclean : CommitsClean lower w m) :
    (w.step lower m).Good := by
  cases m with
  | begin i op =>
    rw [step]
    split
    · exact h.enter i trivial fun hne => absurd rfl hne
    · exact h
  | go i =>
    rw [step]
    split
    · next work hunit => exact good_advance h hunit hclean
    · exact h
  | abort i => exact h.leave i

theorem store_step (w : World) (m : WorkMove) : (w.step lower m).store = w.store ∨
    ∃ i op plan, m = .go i ∧ w.units i = some ⟨op, .ready plan⟩ ∧
      (Semantic.commit lower w.store plan).isSome ∧ (w.step lower m).store =
        plan.write w.store := by
  have hproceed : ∀ i op r, (w.proceed i op r).store = w.store := by
    intro i op r
    cases r <;> rfl
  cases m with
  | begin i op =>
    rw [step]
    split <;> exact .inl rfl
  | abort i => exact .inl rfl
  | go i =>
    rw [step]
    split
    · next work hunit =>
      obtain ⟨op, phase⟩ := work
      cases phase with
      | begun => exact .inl (hproceed _ _ _)
      | locked m => exact .inl (hproceed _ _ _)
      | decided m write => exact .inl (hproceed _ _ _)
      | opened m =>
        left
        cases op with
        | approve modelId versionNo datasetLookup subject note =>
          rw [advance]
          split <;> rfl
        | _ => exact hproceed _ _ _
      | ready plan =>
        rw [advance]
        split
        · next store hcommit =>
          refine .inr ⟨i, op, plan, rfl, hunit, by rw [hcommit]; rfl, ?_⟩
          rw [← commit_ok hcommit]
          rfl
        · exact .inl rfl
    · exact .inl rfl

/-- A version that is published after a move was so before, or the move approves it. -/
theorem published_step (h : w.Good) (m : WorkMove) (hclean : CommitsClean lower w m)
    (hv : (w.step lower m).store.versions[id]? = some v) (hp : v.status = .published) :
    w.store.versions[id]? = some v ∨ ∃ i, m = .go i ∧ Approves w i id v := by
  rcases store_step w m with hstore | ⟨i, op, plan, rfl, hunit, hcommits, hstore⟩
  · rw [hstore] at hv
    exact .inl hv
  · rw [hstore] at hv
    have hok := (h.units i op _ hunit).1
    have hclean := hclean plan (pending_of_ready hunit) hcommits
    rcases published_write hok hv hp with hv | ⟨modelId, read, write, previous, rfl, rfl, rfl⟩
    · exact .inl hv
    · refine .inr ⟨i, rfl, ?_⟩
      obtain ⟨-, hrow, -, hnamed⟩ := hclean
      obtain ⟨hop, ⟨k, versionNo, datasetLookup, subject, note, rfl, -, happrove⟩, -⟩ := hok
      cases hop
      obtain ⟨hreview, hown, hvalid, hwritten⟩ := approve_ok happrove
      obtain ⟨submitter, hsubmitter⟩ := Option.ne_none_iff_exists'.mp
          (h.store.submitted _ _ hrow hreview)
      refine ⟨⟨modelId, versionNo, datasetLookup, subject, note, read, write, previous, hunit, rfl,
        rfl, ?_, ?_⟩,
        ⟨write.read, hrow, hreview, ?_, ?_⟩, submitter, ?_, ?_⟩
      all_goals rw [hwritten]
      · exact hvalid
      · exact hsubmitter
      · intro heq
        obtain rfl : subject = submitter := Option.some.inj heq
        rw [ModelVersion.ownedBy, hsubmitter] at hown
        have hempty : subject = "" := by simpa using hown
        rw [hwritten, hempty] at hnamed
        exact hnamed ⟨by rw [hsubmitter, hempty], rfl⟩

/-- What is to hold after a commit: a version is published exactly when its model names it,
and it has been approved as it is, by someone else than who submitted it. -/
structure Sound (lower : String → String) (done : List WorkMove) : Prop where
  published : ∀ (id : Nat) v, (run (step lower) .initial done).store.versions[id]? = some v →
    (v.status = .published ↔ ∃ m,
      (run (step lower) .initial done).store.models[v.modelId]? = some m ∧ m.publishedVersionId =
        some id)
  named : ∀ (modelId : Nat) m id, (run (step lower) .initial done).store.models[modelId]? = some m →
    m.publishedVersionId = some id →
      ∃ v, (run (step lower) .initial done).store.versions[id]? = some v ∧ v.modelId = modelId
  approved : ∀ (id : Nat) v, (run (step lower) .initial done).store.versions[id]? = some v →
    v.status = .published → ∃ before i, before ++ [.go i] <+: done ∧
      Approves (run (step lower) .initial before) i id v

/-- In a run whose commits are all clean, the versions stay sound. -/
theorem publication_sound (lower : String → String) {moves : List WorkMove}
    (h : Each (step lower) (CommitsClean lower) .initial moves) :
    ∀ done, done <+: moves → Sound lower done := by
  intro done hdone
  have hrun : (run (step lower) .initial done).Good ∧ ∀ (id : Nat) v,
      (run (step lower) .initial done).store.versions[id]? = some v → v.status = .published →
        ∃ before i, before ++ [.go i] <+: done ∧
          Approves (run (step lower) .initial before) i id v := by
    refine run_induction (P := fun (done : List WorkMove) (w : World) => w.Good ∧ ∀ (id : Nat) v,
      w.store.versions[id]? = some v →
      v.status = .published → ∃ before i, before ++ [.go i] <+: done ∧
        Approves (run (step lower) .initial before) i id v)
          ⟨good_initial, fun id v hv => ?_⟩ done ?_
    · cases hv
    · rintro before m hbefore ⟨hgood, happroved⟩
      have hclean := h before m (hbefore.trans hdone)
      refine ⟨good_step hgood m hclean, fun id v hv hp => ?_⟩
      rcases published_step hgood m hclean hv hp with hv | ⟨i, rfl, happroves⟩
      · obtain ⟨earlier, i, hprefix, happroves⟩ := happroved id v hv hp
        exact ⟨earlier, i, hprefix.trans (List.prefix_append _ _), happroves⟩
      · exact ⟨before, i, List.prefix_rfl, happroves⟩
  obtain ⟨hgood, happroved⟩ := hrun
  refine ⟨fun id v hv => ⟨hgood.store.pointed id v hv, ?_⟩, fun modelId m id hm hid => ?_,
    happroved⟩
  · rintro ⟨m, hm, hid⟩
    obtain ⟨v', hv', hp, -⟩ := hgood.store.names _ m id hm hid
    cases hv.symm.trans hv'
    exact hp
  · obtain ⟨v, hv, -, hk⟩ := hgood.store.names modelId m id hm hid
    exact ⟨v, hv, hk⟩

end World

/-! ### In the shop -/

namespace Shop

open World

/-- The unit 0 creates the model of the shop, and the unit 1 submits it. -/
def submitted : List WorkMove :=
  [.begin 0 (.create "w-1" "shop" defn), .go 0, .go 0,
    .begin 1 (.submit 0 1 datasets "ann"), .go 1, .go 1, .go 1]

/-- The unit 2 approves it. -/
def approved : List WorkMove :=
  [.begin 2 (.approve 0 1 datasets "bob" none), .go 2, .go 2, .go 2, .go 2, .go 2]

theorem sound_approved : Sound (fun name => name) (submitted ++ approved) := by
  refine publication_sound (fun name => name) ?_ _ List.prefix_rfl
  simp only [submitted, approved, List.cons_append, List.nil_append, each_cons]
  refine ⟨trivial, commitsClean_of_none rfl, ?_, trivial, commitsClean_of_none rfl,
    commitsClean_of_none rfl, ?_, trivial, commitsClean_of_none rfl, commitsClean_of_none rfl,
    commitsClean_of_none rfl, commitsClean_of_none rfl, ?_, each_nil _⟩
  · intro plan hplan _
    cases hplan
    trivial
  · intro plan hplan _
    cases hplan
    intro v hv
    cases hv
    decide
  · intro plan hplan _
    cases hplan
    refine ⟨fun m hm => ?_, rfl, fun _ => nofun, by simp⟩
    cases hm
    rfl

/-- An edit of the draft is read before the submission, and written after the publication. -/
def lateEdit : List WorkMove :=
  [.begin 0 (.create "w-1" "shop" defn), .go 0, .go 0,
    .begin 3 (.patchDraft 0 1 .empty), .go 3, .go 3,
    .begin 1 (.submit 0 1 datasets "ann"), .go 1, .go 1, .go 1] ++ approved ++ [.go 3]

/-- The model names a version as published that is a draft again. -/
theorem unsound_late_edit : ¬ ∀ done, done <+: lateEdit → Sound (fun name => name) done := by
  intro h
  have hsound := h lateEdit List.prefix_rfl
  have hp := (hsound.published 0 _ rfl).mpr ⟨_, rfl, rfl⟩
  cases hp

end Shop

end Windrose.Semantic

/-
  Uploads/Retries.lean --- the parts that a retried job reads.

  Source: services/ingestion-service/app/domain/services/ingestions.py (retry, reingest,
  _clone, find_upload_parts), uploads.py and runner.py (_attempt_file).

  The jobs and the uploads are tables of one database, and a run is any sequence of the
  transactions on both.  A clone is queued in the transaction that inserts it, and an upload
  is opened only for a job that is created or awaits one; so no clone owns an upload, and
  `find_upload_parts` of a clone rests on the one job that it was cloned from.
-/
import Windrose.Foundation.Lexer
import Windrose.Ingestions.Limits
import Windrose.Uploads.Integrity

set_option autoImplicit false

namespace Windrose.Uploads

open Windrose.Foundation Windrose.Ingestions

variable {ρ V : Type}

/-! ## The parts of a job -/

namespace Store

/-- The completed uploads of a job. -/
def completedOf (s : Store) (tenant id : Bytes) : List Upload :=
  s.uploads.values.filter fun u =>
    u.ingestionID = id && u.tenantID = tenant && u.status = .completed

/-- `find_upload_parts`. -/
def findUploadParts (s : Store) (ing : Ingestion) : Except Exn (List Part) :=
  uploadParts (s.completedOf ing.tenantID) (fun upload => s.partsOf upload.id) .other ing

end Store

/-- The job is the last of a chain of `n` clones that begins at the job `id`. -/
inductive Clones (s : Store) (id : Bytes) : Nat → Ingestion → Prop where
  | original {ing : Ingestion} (h : s.ingestions.lookup id = some ing) : Clones s id 0 ing
  | clone {n : Nat} {ing clone : Ingestion} (h : Clones s id n ing) (cloneID : Bytes)
      (hclone : s.ingestions.lookup cloneID = some clone)
      (hfrom : clone.retriedFromID = some ing.id) : Clones s id (n + 1) clone

/-! ## Runs -/

/-- The tables; both sides see the rows of the jobs. -/
structure Tables (ρ : Type) where
  jobs : Ingestions.Store ρ := {}
  files : Store := {}

/-- A transaction of the jobs, or one of the uploads; or time passes. -/
inductive Txn (ρ V : Type) where
  | job (o : Ingestions.Cmd ρ V)
  | file (o : Cmd)
  | pass (time : Nat)

def Tables.step (settings : Settings) (sha256 : Bytes → Bytes) (R : Runner ρ V) (s : Tables ρ) :
    Txn ρ V → Tables ρ
  | .job o =>
    let jobs := (Ingestions.effect R o s.jobs).2
    { jobs, files := { s.files with ingestions := jobs.ingestions } }
  | .file o =>
    let files := (effect settings sha256 o s.files).2
    { jobs := { s.jobs with ingestions := files.ingestions }, files }
  | .pass time => { s with files := { s.files with now := s.files.now + time } }

/-! ## What happens to the rows of jobs -/

/-- An upload may still be opened for the job, or is awaited. -/
def Waiting (ing : Ingestion) : Prop := ing.status = .created ∨ ing.status = .awaitingUpload

/-- What the transitions leave of a row. -/
structure Moved (ing ing' : Ingestion) : Prop where
  id : ing'.id = ing.id
  tenantID : ing'.tenantID = ing.tenantID
  retriedFromID : ing'.retriedFromID = ing.retriedFromID
  waiting : Waiting ing' → Waiting ing

theorem Moved.refl (ing : Ingestion) : Moved ing ing := ⟨rfl, rfl, rfl, fun h => h⟩

variable {ing : Ingestion}

theorem moved_recordTransition {ing' : Ingestion} {requested : Ingestions.Status}
    {ctx : TransitionContext} (h : ing.recordTransition requested ctx = .ok ing') :
    Moved ing ing' := by
  obtain ⟨rfl, guard, hguard, -⟩ := ing.recordTransition_eq_ok h
  refine ⟨rfl, rfl, rfl, ?_⟩
  rintro (hstatus | hstatus)
  · obtain rfl : requested = .created := hstatus
    exact (transitions_eq_some hguard).elim
  · obtain rfl : requested = .awaitingUpload := hstatus
    exact .inl (transitions_eq_some hguard).1

/-- A new row is no clone, or a clone that does not wait. -/
structure Fresh (d : Dict Bytes Ingestion) (ing : Ingestion) : Prop where
  new : ing.id ∉ d
  clone : ∀ id, ing.retriedFromID = some id → ¬Waiting ing ∧
    ∃ parent, d.lookup id = some parent ∧ parent.tenantID = ing.tenantID

/-- The rows move on, and fresh ones come. -/
structure Grows (d d' : Dict Bytes Ingestion) : Prop where
  kept : ∀ id ing, d.lookup id = some ing → ∃ ing', d'.lookup id = some ing' ∧ Moved ing ing'
  origin : ∀ id ing', d'.lookup id = some ing' →
    (∃ ing, d.lookup id = some ing ∧ Moved ing ing') ∨ (ing'.id = id ∧ Fresh d ing')

variable {id : Bytes}

namespace Grows

variable {d d' : Dict Bytes Ingestion}

theorem same : Grows d d :=
  ⟨fun _ ing h => ⟨ing, h, .refl ing⟩, fun _ ing h => .inl ⟨ing, h, .refl ing⟩⟩

theorem moved {ing' : Ingestion} (h : d.lookup id = some ing)
    (hmoved : Moved ing ing') : Grows d (d.insert id ing') := by
  constructor
  · intro id' row hrow
    by_cases hid : id' = id
    · subst hid
      obtain rfl := Option.some.inj (hrow.symm.trans h)
      exact ⟨ing', AList.lookup_insert d, hmoved⟩
    · exact ⟨row, by rwa [AList.lookup_insert_ne hid], .refl row⟩
  · intro id' row hrow
    by_cases hid : id' = id
    · subst hid
      rw [AList.lookup_insert] at hrow
      obtain rfl := Option.some.inj hrow
      exact .inl ⟨ing, h, hmoved⟩
    · rw [AList.lookup_insert_ne hid] at hrow
      exact .inl ⟨row, hrow, .refl row⟩

theorem inserted (h : Fresh d ing) : Grows d (d.insert ing.id ing) := by
  constructor
  · intro id row hrow
    have hid : id ≠ ing.id := by
      rintro rfl
      exact h.new (AList.lookup_isSome.mp (by rw [hrow]; rfl))
    exact ⟨row, by rwa [AList.lookup_insert_ne hid], .refl row⟩
  · intro id row hrow
    by_cases hid : id = ing.id
    · subst hid
      rw [AList.lookup_insert] at hrow
      obtain rfl := Option.some.inj hrow
      exact .inr ⟨rfl, h⟩
    · rw [AList.lookup_insert_ne hid] at hrow
      exact .inl ⟨row, hrow, .refl row⟩

end Grows

section Jobs

variable {s : Ingestions.Store ρ}

theorem grows_change (tenant id : Bytes) (missing : Ingestions.Exn)
    {f : Ingestion → Except Ingestions.Exn Ingestion}
    (hf : ∀ ing ing', f ing = .ok ing' → Moved ing ing') :
    Grows s.ingestions (s.change tenant id missing f).2.ingestions := by
  obtain ⟨e, h⟩ | ⟨ing, ing', hjob, hmoved, h⟩ := s.change_cases tenant id missing f
  · rw [h]
    exact .same
  · rw [h]
    exact .moved (Store.job_eq_some hjob).1 (hf ing ing' hmoved)

theorem grows_insertNew (hclone : ∀ id, ing.retriedFromID = some id → ¬Waiting ing ∧
      ∃ parent, s.ingestions.lookup id = some parent ∧ parent.tenantID = ing.tenantID) :
    Grows s.ingestions (s.insertNew ing).2.ingestions := by
  unfold Ingestions.Store.insertNew
  split_ifs with h
  · exact .same
  · exact .inserted ⟨h, hclone⟩

theorem grows_insertQueued (hstatus : ing.status = .created)
    (hclone : ∀ id, ing.retriedFromID = some id →
      ∃ parent, s.ingestions.lookup id = some parent ∧ parent.tenantID = ing.tenantID) :
    Grows s.ingestions (s.insertQueued ing).2.ingestions := by
  rw [insertQueued_eq hstatus]
  refine grows_insertNew fun id hid => ⟨?_, hclone id hid⟩
  rintro (h | h) <;> cases h

theorem grows_requeue (hids : ∀ id ing, s.ingestions.lookup id = some ing → ing.id = id)
    (tenant id cloneID : Bytes) (allowed : Ingestions.Status → Bool) (refusal : String) :
    Grows s.ingestions (s.requeue tenant id cloneID allowed refusal).2.ingestions := by
  unfold Ingestions.Store.requeue
  cases hjob : s.job tenant id with
  | none => exact .same
  | some ing =>
    dsimp only
    split_ifs
    · refine grows_insertQueued rfl fun parentID hparent => ?_
      obtain rfl := Option.some.inj hparent
      have hrow := (Store.job_eq_some hjob).1
      exact ⟨ing, by rwa [hids id ing hrow], rfl⟩
    · exact .same

theorem grows_fire (tenant schedule : Bytes) (force : Bool) (id datasetID : Bytes) :
    Grows s.ingestions (s.fire tenant schedule force id datasetID).2.ingestions := by
  unfold Ingestions.Store.fire
  split
  · exact .same
  split_ifs
  · exact .same
  · exact .same
  rename_i sched _ _ _
  unfold Ingestions.Store.fireJob
  have hgrows : Grows s.ingestions (s.insertQueued
      (Store.firedJob sched (Store.pinned sched tenant datasetID) tenant id)).2.ingestions :=
    grows_insertQueued rfl fun _ h => by cases h
  cases hinserted : s.insertQueued
      (Store.firedJob sched (Store.pinned sched tenant datasetID) tenant id) with
  | mk answer s' =>
    rw [hinserted] at hgrows
    cases answer with
    | error e => exact .same
    | ok u => exact hgrows

theorem grows_acquireSlot (max : Nat) (tenant id : Bytes) :
    Grows s.ingestions (s.acquireSlot max tenant id).2.ingestions := by
  unfold Ingestions.Store.acquireSlot
  cases hjob : s.job tenant id with
  | none => exact .same
  | some ing =>
    dsimp only
    split_ifs
    · exact .same
    · exact .same
    · cases hto : ing.recordTransition .running { slotAvailable := true } with
      | error e => exact .same
      | ok ing' => exact .moved (Store.job_eq_some hjob).1 (moved_recordTransition hto)

theorem grows_effect (R : Runner ρ V)
    (hids : ∀ id ing, s.ingestions.lookup id = some ing → ing.id = id)
    (o : Ingestions.Cmd ρ V) : Grows s.ingestions (Ingestions.effect R o s).2.ingestions := by
  cases o with
  | acquireSlot tenant id => exact grows_acquireSlot _ tenant id
  | transitionRetry tenant id attempt =>
    refine grows_change tenant id .other fun ing ing' hf => ?_
    obtain ⟨row, hto, rfl⟩ := map_eq_ok.mp hf
    have hmoved := moved_recordTransition hto
    exact ⟨hmoved.id, hmoved.tenantID, hmoved.retriedFromID, hmoved.waiting⟩
  | transitionResume tenant id =>
    exact grows_change tenant id .other fun _ _ => moved_recordTransition
  | fail tenant id category message attempts samples hint =>
    refine grows_change tenant id .other fun ing ing' hf => ?_
    have hmoved := moved_recordTransition hf
    exact ⟨hmoved.id, hmoved.tenantID, hmoved.retriedFromID, hmoved.waiting⟩
  | committing tenant id rowsDecoded allowEmpty =>
    exact grows_change tenant id .other fun _ _ => moved_recordTransition
  | completed tenant id result =>
    refine grows_change tenant id .other fun ing ing' hf => ?_
    have hmoved := moved_recordTransition hf
    exact ⟨hmoved.id, hmoved.tenantID, hmoved.retriedFromID, hmoved.waiting⟩
  | openUpload tenant id => exact grows_change tenant id .notFound fun _ _ => moved_recordTransition
  | completeUpload tenant id parts =>
    have hgrows := grows_change (s := s) tenant id .notFound
      (f := (·.recordTransition .queued { payloadValid := true })) fun _ _ => moved_recordTransition
    simp only [Ingestions.effect]
    split
    · exact hgrows
    · exact .same
  | expire tenant id => exact grows_change tenant id .notFound fun _ _ => moved_recordTransition
  | cancel tenant id => exact grows_change tenant id .notFound fun _ _ => moved_recordTransition
  | create tenant id datasetURN body =>
    simp only [Ingestions.effect]
    split_ifs
    · exact .same
    · exact grows_insertQueued rfl fun _ h => by cases h
    · exact grows_insertNew fun _ h => by cases h
  | retry tenant id cloneID => exact grows_requeue hids tenant id cloneID _ _
  | reingest tenant id cloneID => exact grows_requeue hids tenant id cloneID _ _
  | fire tenant schedule force id datasetID => exact grows_fire tenant schedule force id datasetID
  | load tenant id =>
    simp only [Ingestions.effect]
    split <;> exact .same
  | loadFile tenant id =>
    simp only [Ingestions.effect]
    split <;> exact .same
  | loadQuery tenant id =>
    simp only [Ingestions.effect]
    split
    · exact .same
    · split <;> exact .same
  | checkAndRecordISA interchange =>
    simp only [Ingestions.effect]
    split <;> exact .same
  | saveWatermark schedule value =>
    simp only [Ingestions.effect]
    split <;> exact .same
  | _ => exact .same

end Jobs

theorem grows_expireIngestion (s : Store) (id : Bytes) :
    Grows s.ingestions (s.expireIngestion id).ingestions := by
  unfold Store.expireIngestion
  cases hrow : s.ingestions.lookup id with
  | none => exact .same
  | some ing =>
    dsimp only
    split_ifs
    · cases hto : ing.recordTransition .expired {} with
      | error e => exact .same
      | ok ing' => exact .moved hrow (moved_recordTransition hto)
    · exact .same

/-! ## What ties uploads to jobs -/

/-- A clone is cloned from a job of its tenant and does not wait; an upload is one of a job
that is no clone; and a job has one completed upload at most, for which it waits no more. -/
structure Tied (s : Store) : Prop where
  ids : ∀ id ing, s.ingestions.lookup id = some ing → ing.id = id
  clones : ∀ id ing p, s.ingestions.lookup id = some ing → ing.retriedFromID = some p →
    ¬Waiting ing ∧ ∃ parent, s.ingestions.lookup p = some parent ∧ parent.tenantID = ing.tenantID
  uploadIDs : ∀ id u, s.uploads.lookup id = some u → u.id = id
  owned : ∀ id u, s.uploads.lookup id = some u → ∃ ing,
    s.ingestions.lookup u.ingestionID = some ing ∧ ing.tenantID = u.tenantID ∧
      ing.retriedFromID = none
  ended : ∀ id u ing, s.uploads.lookup id = some u → u.status = .completed →
    s.ingestions.lookup u.ingestionID = some ing → ¬Waiting ing
  once : ∀ id u id' u', s.uploads.lookup id = some u → s.uploads.lookup id' = some u' →
    u.status = .completed → u'.status = .completed → u'.ingestionID = u.ingestionID → id' = id

variable {u : Upload}

namespace Tied

variable {s s' : Store}

theorem empty : Tied {} :=
  ⟨fun _ _ h => (nomatch h), fun _ _ _ h => (nomatch h), fun _ _ h => (nomatch h),
    fun _ _ h => (nomatch h), fun _ _ _ h => (nomatch h), fun _ _ _ _ h => (nomatch h)⟩

theorem grows (h : Tied s) (hgrows : Grows s.ingestions s'.ingestions)
    (huploads : s'.uploads = s.uploads) : Tied s' where
  ids id ing' hrow := by
    obtain ⟨ing, hing, hmoved⟩ | ⟨hid, -⟩ := hgrows.origin id ing' hrow
    · rw [hmoved.id, h.ids id ing hing]
    · exact hid
  clones id ing' p hrow hfrom := by
    suffices hparent : ¬Waiting ing' ∧ ∃ parent, s.ingestions.lookup p = some parent ∧
        parent.tenantID = ing'.tenantID by
      obtain ⟨hwaiting, parent, hp, htenant⟩ := hparent
      obtain ⟨parent', hp', hmoved⟩ := hgrows.kept p parent hp
      exact ⟨hwaiting, parent', hp', hmoved.tenantID.trans htenant⟩
    obtain ⟨ing, hing, hmoved⟩ | ⟨-, hfresh⟩ := hgrows.origin id ing' hrow
    · obtain ⟨hwaiting, parent, hp, htenant⟩ :=
        h.clones id ing p hing (hmoved.retriedFromID ▸ hfrom)
      exact ⟨fun hw => hwaiting (hmoved.waiting hw), parent, hp, htenant.trans hmoved.tenantID.symm⟩
    · exact hfresh.clone p hfrom
  uploadIDs id u hu := h.uploadIDs id u (huploads ▸ hu)
  owned id u hu := by
    obtain ⟨ing, hing, htenant, hfrom⟩ := h.owned id u (huploads ▸ hu)
    obtain ⟨ing', hing', hmoved⟩ := hgrows.kept u.ingestionID ing hing
    exact ⟨ing', hing', hmoved.tenantID.trans htenant, hmoved.retriedFromID.trans hfrom⟩
  ended id u ing' hu hstatus hing' hwaiting := by
    rw [huploads] at hu
    obtain ⟨ing, hing, -⟩ := h.owned id u hu
    obtain ⟨row, hrow, hmoved⟩ := hgrows.kept u.ingestionID ing hing
    obtain rfl := Option.some.inj (hrow.symm.trans hing')
    exact h.ended id u ing hu hstatus hing (hmoved.waiting hwaiting)
  once id u id' u' hu hu' := h.once id u id' u' (huploads ▸ hu) (huploads ▸ hu')

theorem congr (h : Tied s) (hingestions : s'.ingestions = s.ingestions)
    (huploads : s'.uploads = s.uploads) : Tied s' :=
  h.grows (hingestions ▸ .same) huploads

theorem write (h : Tied s)
    (howned : ∃ ing, s.ingestions.lookup u.ingestionID = some ing ∧ ing.tenantID = u.tenantID ∧
      ing.retriedFromID = none) (hfirst : u.status = .completed →
      (∀ ing, s.ingestions.lookup u.ingestionID = some ing → ¬Waiting ing) ∧
        ∀ id' u', s.uploads.lookup id' = some u' → u'.status = .completed →
          u'.ingestionID ≠ u.ingestionID) : Tied { s with uploads := s.uploads.insert u.id u } := by
  have hcases : ∀ id row, (s.uploads.insert u.id u).lookup id = some row →
      (id = u.id ∧ row = u) ∨ s.uploads.lookup id = some row := by
    intro id row hrow
    by_cases hid : id = u.id
    · subst hid
      rw [AList.lookup_insert] at hrow
      exact .inl ⟨rfl, (Option.some.inj hrow).symm⟩
    · rw [AList.lookup_insert_ne hid] at hrow
      exact .inr hrow
  constructor
  case ids => exact h.ids
  case clones => exact h.clones
  case uploadIDs =>
    intro id row hrow
    obtain ⟨rfl, rfl⟩ | hrow := hcases id row hrow
    · rfl
    · exact h.uploadIDs id row hrow
  case owned =>
    intro id row hrow
    obtain ⟨rfl, rfl⟩ | hrow := hcases id row hrow
    · exact howned
    · exact h.owned id row hrow
  case ended =>
    intro id row ing hrow hstatus hing
    obtain ⟨rfl, rfl⟩ | hrow := hcases id row hrow
    · exact (hfirst hstatus).1 ing hing
    · exact h.ended id row ing hrow hstatus hing
  case once =>
    intro id row id' row' hrow hrow' hstatus hstatus' hsame
    obtain ⟨rfl, rfl⟩ | hold := hcases id row hrow
    · obtain ⟨rfl, rfl⟩ | hold' := hcases id' row' hrow'
      · rfl
      · exact absurd hsame ((hfirst hstatus).2 id' row' hold' hstatus')
    · obtain ⟨rfl, rfl⟩ | hold' := hcases id' row' hrow'
      · exact absurd hsame.symm ((hfirst hstatus').2 id row hold hstatus)
      · exact h.once id row id' row' hold hold' hstatus hstatus' hsame

theorem setStatus (h : Tied s) (hu : s.uploads.lookup id = some u)
    {status : Status} (hstatus : status ≠ .completed) : Tied (s.setStatus u status) :=
  h.write (u := { u with status }) (h.owned id u hu) fun hcompleted => absurd hcompleted hstatus

theorem uploads_expireIngestion (s : Store) (id : Bytes) :
    (s.expireIngestion id).uploads = s.uploads := by
  unfold Store.expireIngestion
  split
  · split_ifs
    · split <;> rfl
    · rfl
  · rfl

theorem expireIngestion (h : Tied s) (id : Bytes) : Tied (s.expireIngestion id) :=
  h.grows (grows_expireIngestion s id) (uploads_expireIngestion s id)

theorem getUpload {tenant : Bytes} (h : s.getUpload tenant id = .ok u) :
    s.uploads.lookup id = some u := by
  unfold Store.getUpload at h
  cases hu : (s.uploads.lookup id).filter fun u => u.tenantID = tenant with
  | none =>
    rw [hu] at h
    cases h
  | some u' =>
    rw [hu] at h
    obtain rfl := Except.ok.inj h
    exact (Option.filter_eq_some_iff.mp hu).1

theorem openUpload (h : Tied s) (tenant id : Bytes) : Tied (s.openUpload tenant id).2 := by
  unfold Store.openUpload
  cases hget : s.getUpload tenant id with
  | error e => exact h
  | ok u =>
    dsimp only
    split_ifs
    · exact h
    · exact h
    · exact (h.setStatus (getUpload hget) (by decide)).expireIngestion _
    · exact h

theorem create (h : Tied s) (settings : Settings) (tenant : Bytes) (body : UploadCreate) :
    Tied (s.create settings tenant body).2 := by
  unfold Store.create
  dsimp only
  split
  · exact h
  cases hing : (s.ingestions.lookup body.ingestionID).filter fun ing => ing.tenantID = tenant with
  | none => exact h
  | some ing =>
    obtain ⟨hrow, htenant⟩ := Option.filter_eq_some_iff.mp hing
    obtain rfl : ing.tenantID = tenant := of_decide_eq_true htenant
    have hid : ing.id = body.ingestionID := h.ids _ ing hrow
    dsimp only
    split_ifs with _ hstatus
    · exact h
    · exact h
    · exact h
    · exact h
    all_goals
      have howned : ∃ row, s.ingestions.lookup ing.id = some row ∧
          row.tenantID = ing.tenantID ∧ row.retriedFromID = none := by
        refine ⟨ing, hid ▸ hrow, rfl, ?_⟩
        cases hfrom : ing.retriedFromID with
        | none => rfl
        | some p =>
          refine absurd ?_ (h.clones _ ing p hrow hfrom).1
          unfold Waiting
          tauto
      have hwritten := h.write (u := {
        id := body.id
        tenantID := ing.tenantID
        ingestionID := ing.id
        partSize := body.partSize.getD settings.defaultPartSize
        storagePrefix := bytes "tenants/" ++ ing.tenantID ++ bytes "/uploads/" ++ ing.id
        expiresAt := s.now + settings.uploadTTL }) howned fun hcompleted => by cases hcompleted
    · cases hto : ing.recordTransition .awaitingUpload
          { ingestionMode := some .fileUpload, uploadSessionOpened := true } with
      | error e => exact hwritten
      | ok ing' => exact hwritten.grows (.moved hrow (moved_recordTransition hto)) rfl
    · exact hwritten

theorem finish (h : Tied s) (tenant id : Bytes) (sha256 : Option Bytes) :
    Tied (s.finish tenant id sha256).2 := by
  unfold Store.finish
  cases hget : s.getUpload tenant id with
  | error e => exact h
  | ok u =>
    have hu := getUpload hget
    obtain rfl := h.uploadIDs id u hu
    dsimp only
    cases hrow : s.ingestions.lookup u.ingestionID with
    | none => exact h
    | some ing =>
      dsimp only
      cases hto : ing.recordTransition .queued { payloadValid := true } with
      | error e => exact h
      | ok ing' =>
        have hmoved := moved_recordTransition hto
        obtain ⟨rfl, guard, hguard, -⟩ := ing.recordTransition_eq_ok hto
        have hwaiting : Waiting ing := (transitions_eq_some hguard).1
        have hqueued : Tied { s with
            ingestions := s.ingestions.insert u.ingestionID { ing with status := .queued } } :=
          h.grows (.moved hrow hmoved) rfl
        refine hqueued.write (u := { u with status := .completed, sha256 })
          (hqueued.owned u.id u hu) fun _ => ⟨fun row hnow hw => ?_, fun id' u' hu' hdone => ?_⟩
        · dsimp only at hnow
          rw [AList.lookup_insert] at hnow
          obtain rfl := Option.some.inj hnow
          rcases hw with hw | hw <;> cases hw
        · intro hsame
          exact h.ended id' u' ing hu' hdone (by rw [hsame]; exact hrow) hwaiting

theorem abort (h : Tied s) (tenant id : Bytes) : Tied (s.abort tenant id).2 := by
  unfold Store.abort
  cases hget : s.getUpload tenant id with
  | error e => exact h
  | ok u =>
    dsimp only
    split_ifs
    · exact h
    · exact h.setStatus (getUpload hget) (by decide)

theorem gcExpired (h : Tied s) (tenant : Bytes) : Tied (s.gcExpired tenant).2 := by
  unfold Store.gcExpired
  dsimp only
  have hstale : ∀ u ∈ s.uploads.values.filter (fun u =>
      u.tenantID = tenant && u.status = .opened && u.expiresAt ≤ s.now),
      ∃ ing, s.ingestions.lookup u.ingestionID = some ing ∧ ing.tenantID = u.tenantID ∧
        ing.retriedFromID = none := by
    intro u hu
    obtain ⟨id, hid⟩ := Dict.lookup_of_mem_values (List.mem_filter.mp hu).1
    exact h.owned id u hid
  generalize s.uploads.values.filter (fun u =>
    u.tenantID = tenant && u.status = .opened && u.expiresAt ≤ s.now) = stale at hstale
  induction stale generalizing s with
  | nil => exact h
  | cons u stale ih =>
    rw [List.foldl_cons]
    have hwritten : Tied (s.setStatus u .expired) :=
      h.write (u := { u with status := .expired }) (hstale u List.mem_cons_self)
        nofun
    refine ih (hwritten.expireIngestion u.ingestionID) fun u' hu' => ?_
    obtain ⟨ing, hing, htenant, hfrom⟩ := hstale u' (List.mem_cons_of_mem u hu')
    have hgrows : Grows s.ingestions
        ((s.setStatus u .expired).expireIngestion u.ingestionID).ingestions :=
      grows_expireIngestion (s.setStatus u .expired) u.ingestionID
    obtain ⟨ing', hing', hmoved⟩ := hgrows.kept u'.ingestionID ing hing
    exact ⟨ing', hing', hmoved.tenantID.trans htenant, hmoved.retriedFromID.trans hfrom⟩

theorem file (h : Tied s) (settings : Settings) (sha256 : Bytes → Bytes) (o : Cmd) :
    Tied (effect settings sha256 o s).2 := by
  cases o with
  | create tenant body => exact h.create settings tenant body
  | openUpload tenant id => exact h.openUpload tenant id
  | put storagePrefix n partSize content =>
    simp only [effect, Store.put]
    split_ifs <;> exact h.congr rfl rfl
  | delete key => exact h.congr rfl rfl
  | findPart id n => exact h
  | move src dst =>
    simp only [effect, Store.move]
    split
    · exact h.congr rfl rfl
    · exact h
  | insertPart part =>
    simp only [effect, Store.insertPart]
    split_ifs
    · exact h
    · exact h.congr rfl rfl
  | getPart id n => exact h
  | check tenant id body => exact h.openUpload tenant id
  | read id key => exact h
  | finish tenant id sha256 => exact h.finish tenant id sha256
  | abort tenant id => exact h.abort tenant id
  | deletePrefix storagePrefix => exact h.congr rfl rfl
  | gcExpired tenant => exact h.gcExpired tenant

end Tied

/-- The two sides see the same rows, and these are tied. -/
structure Consistent (s : Tables ρ) : Prop where
  same : s.jobs.ingestions = s.files.ingestions
  tied : Tied s.files

theorem Consistent.step {s : Tables ρ} (h : Consistent s) (settings : Settings)
    (sha256 : Bytes → Bytes) (R : Runner ρ V) (t : Txn ρ V) :
    Consistent (s.step settings sha256 R t) := by
  cases t with
  | job o =>
    refine ⟨rfl, h.tied.grows ?_ rfl⟩
    have hgrows := grows_effect R (fun id ing hing => h.tied.ids id ing (h.same ▸ hing)) o
    rwa [h.same] at hgrows
  | file o => exact ⟨rfl, h.tied.file settings sha256 o⟩
  | pass time => exact ⟨h.same, h.tied.congr rfl rfl⟩

theorem consistent_run (settings : Settings) (sha256 : Bytes → Bytes) (R : Runner ρ V)
    (ts : List (Txn ρ V)) : Consistent (run (Tables.step settings sha256 R) {} ts) :=
  run_invariant (fun _ t h => h.step settings sha256 R t) ⟨rfl, .empty⟩ ts

/-! ## The parts that a clone finds -/

section Parts

variable {s : Store}

theorem mem_completedOf {tenant : Bytes} :
    u ∈ s.completedOf tenant id ↔ u ∈ s.uploads.values ∧ u.ingestionID = id ∧
      u.tenantID = tenant ∧ u.status = .completed := by
  simp [Store.completedOf, and_assoc]

theorem Tied.nodup_uploads (h : Tied s) : s.uploads.values.Nodup := by
  refine List.Nodup.of_map (·.id) ?_
  have hkeys : s.uploads.values.map (·.id) = s.uploads.keys := by
    unfold Dict.values AList.keys List.keys
    rw [List.map_map]
    refine List.map_congr_left fun e he => ?_
    exact h.uploadIDs e.1 e.2 (Dict.lookup_eq_some.mpr he)
  rw [hkeys]
  exact s.uploads.nodupKeys

theorem eq_singleton_of_nodup {α : Type} {l : List α} {a : α} (hmem : a ∈ l)
    (honly : ∀ b ∈ l, b = a) (hnodup : l.Nodup) : l = [a] := by
  have hl := List.eq_replicate_of_mem honly
  rw [hl] at hnodup
  rw [hl, Nat.le_antisymm (List.nodup_replicate.mp hnodup) (List.length_pos_of_mem hmem),
    List.replicate_one]

theorem Tied.completedOf_eq (h : Tied s) (hu : u ∈ s.uploads.values)
    (hstatus : u.status = .completed) : s.completedOf u.tenantID u.ingestionID = [u] := by
  have hmem : u ∈ s.completedOf u.tenantID u.ingestionID :=
    mem_completedOf.mpr ⟨hu, rfl, rfl, hstatus⟩
  have honly : ∀ u' ∈ s.completedOf u.tenantID u.ingestionID, u' = u := by
    intro u' hu'
    obtain ⟨hvalue, hsame, -, hdone⟩ := mem_completedOf.mp hu'
    obtain ⟨id, hid⟩ := Dict.lookup_of_mem_values hu
    obtain ⟨id', hid'⟩ := Dict.lookup_of_mem_values hvalue
    obtain rfl := h.once id u id' u' hid hid' hstatus hdone hsame
    exact Option.some.inj (hid'.symm.trans hid)
  have hnodup : (s.completedOf u.tenantID u.ingestionID).Nodup := h.nodup_uploads.filter _
  exact eq_singleton_of_nodup hmem honly hnodup

theorem Tied.completedOf_clone (h : Tied s) {cloneID p : Bytes} {clone : Ingestion}
    (hclone : s.ingestions.lookup cloneID = some clone) (hfrom : clone.retriedFromID = some p)
    (tenant : Bytes) : s.completedOf tenant cloneID = [] := by
  refine List.eq_nil_iff_forall_not_mem.mpr fun u hu => ?_
  obtain ⟨hvalue, rfl, -, -⟩ := mem_completedOf.mp hu
  obtain ⟨id, hid⟩ := Dict.lookup_of_mem_values hvalue
  obtain ⟨ing, hing, -, hnone⟩ := h.owned id u hid
  obtain rfl := Option.some.inj (hing.symm.trans hclone)
  rw [hfrom] at hnone
  cases hnone

theorem Clones.row (h : Tied s) {n : Nat} (hclones : Clones s id n ing) {original : Ingestion}
    (horiginal : s.ingestions.lookup id = some original) :
    s.ingestions.lookup ing.id = some ing ∧ ing.tenantID = original.tenantID ∧
      (n = 0 → ing = original) ∧
      (0 < n → ing.retriedFromID.isSome = true) := by
  induction hclones with
  | original hing =>
    obtain rfl := Option.some.inj (hing.symm.trans horiginal)
    exact ⟨by rwa [h.ids id _ hing], rfl, fun _ => rfl, fun hpos => absurd hpos (Nat.lt_irrefl 0)⟩
  | @clone n ing clone hprevious cloneID hclone hfrom ih =>
    obtain ⟨hrow, htenant, -⟩ := ih
    obtain ⟨-, parent, hparent, hsame⟩ := h.clones cloneID clone ing.id hclone hfrom
    obtain rfl := Option.some.inj (hparent.symm.trans hrow)
    refine ⟨by rwa [h.ids cloneID clone hclone], hsame.symm.trans htenant,
      fun hzero => absurd hzero (Nat.succ_ne_zero n), fun _ => ?_⟩
    rw [hfrom]
    rfl

/-- The parts of the upload are found from the job itself and from its first clone; further
on nothing is found. -/
theorem Tied.findUploadParts_eq (h : Tied s) (hu : u ∈ s.uploads.values)
    (hstatus : u.status = .completed) {n : Nat} (hclones : Clones s u.ingestionID n ing) :
    s.findUploadParts ing = .ok (if n ≤ 1 then s.partsOf u.id else []) := by
  obtain ⟨id, hid⟩ := Dict.lookup_of_mem_values hu
  obtain ⟨original, horiginal, hownerTenant, hnoClone⟩ := h.owned id u hid
  have hcompleted := h.completedOf_eq hu hstatus
  have hrow := hclones.row h horiginal
  unfold Store.findUploadParts uploadParts
  cases hclones with
  | original hing =>
    obtain rfl := Option.some.inj (hing.symm.trans horiginal)
    rw [partsFor, hownerTenant, h.ids _ _ hing, hcompleted]
    rfl
  | @clone n parent clone hprevious cloneID hclone hfrom =>
    obtain ⟨hcloneRow, htenant, -, -⟩ := hrow
    obtain ⟨hparentRow, -, hfirst, hlater⟩ := hprevious.row h horiginal
    rw [partsFor, h.completedOf_clone hcloneRow hfrom, htenant, hownerTenant, hfrom]
    dsimp only
    rw [partsFor]
    cases n with
    | zero =>
      obtain rfl := hfirst rfl
      rw [h.ids _ _ horiginal, hcompleted]
      rfl
    | succ n =>
      obtain ⟨p, hp⟩ := Option.isSome_iff_exists.mp (hlater (Nat.succ_pos n))
      rw [h.completedOf_clone hparentRow hp]
      rfl

end Parts

/-- A retried job has its input exactly when it was cloned from the job of the upload
itself, or is that job. -/
theorem retry_keeps_input_iff (settings : Settings) (sha256 : Bytes → Bytes) (R : Runner ρ V)
    (ts : List (Txn ρ V)) {u : Upload}
    (hu : u ∈ (run (Tables.step settings sha256 R) {} ts).files.uploads.values)
    (hstatus : u.status = .completed) {n : Nat} {ing : Ingestion}
    (hclones : Clones (run (Tables.step settings sha256 R) {} ts).files u.ingestionID n ing) :
    (run (Tables.step settings sha256 R) {} ts).files.findUploadParts ing =
        .ok ((run (Tables.step settings sha256 R) {} ts).files.partsOf u.id) ↔
      n ≤ 1 ∨ (run (Tables.step settings sha256 R) {} ts).files.partsOf u.id = [] := by
  rw [(consistent_run settings sha256 R ts).tied.findUploadParts_eq hu hstatus hclones]
  constructor
  · intro hparts
    by_contra hnot
    rw [not_or] at hnot
    rw [if_neg hnot.1] at hparts
    exact hnot.2 (Except.ok.inj hparts).symm
  · rintro (hone | hnone)
    · rw [if_pos hone]
    · rw [hnone, ite_self]

/-! ## A second retry -/

/-- The keys of the parts of the job `i`. -/
def samplePrefix : Bytes := bytes "tenants/t/uploads/i"

/-- A job for a file of one part, whose upload is completed. -/
def sampleUploaded : List (Txn Nat Nat) :=
  [.job (.create (bytes "t") (bytes "i") (bytes "d")
      { ingestionMode := .fileUpload, fileFormat := some (bytes "csv"), newDataset := true }),
    .file (.create (bytes "t") { id := bytes "u", ingestionID := bytes "i" }),
    .file (.put samplePrefix 1 4 (bytes "x")),
    .file (.move (.staging samplePrefix 1 0) (.part samplePrefix 1)),
    .file (.insertPart
      { uploadID := bytes "u"
        n := 1
        tenantID := bytes "t"
        etag := sampleSha256 (bytes "x")
        size := 1
        storageKey := .part samplePrefix 1 }),
    .file (.finish (bytes "t") (bytes "u") none)]

/-- The job runs and fails, and is retried. -/
def failAndRetry (id cloneID : Bytes) : List (Txn Nat Nat) :=
  [.job (.acquireSlot (bytes "t") id),
    .job (.fail (bytes "t") id .internal "out of reach" 1 [] none),
    .job (.retry (bytes "t") id cloneID)]

def sampleRetried : List (Txn Nat Nat) := sampleUploaded ++ failAndRetry (bytes "i") (bytes "j")

def sampleRetriedTwice : List (Txn Nat Nat) := sampleRetried ++ failAndRetry (bytes "j") (bytes "k")

def sampleUploadRow : Upload :=
  { id := bytes "u"
    tenantID := bytes "t"
    ingestionID := bytes "i"
    partSize := 4
    storagePrefix := samplePrefix
    status := .completed
    expiresAt := 24 }

/-- The tables after some transactions. -/
abbrev sampleRun (ts : List (Txn Nat Nat)) : Tables Nat :=
  run (Tables.step sampleSettings sampleSha256 sampleRunner) {} ts

theorem retry_keeps_input_once : ∃ ing, Clones (sampleRun sampleRetried).files (bytes "i") 1 ing ∧
      ((sampleRun sampleRetried).files.findUploadParts ing =
          .ok ((sampleRun sampleRetried).files.partsOf (bytes "u")) ↔
        1 ≤ 1 ∨ (sampleRun sampleRetried).files.partsOf (bytes "u") = []) := by
  have hclones : Clones (sampleRun sampleRetried).files (bytes "i") 1 _ :=
    .clone (.original rfl) (bytes "j") rfl rfl
  exact ⟨_, hclones, retry_keeps_input_iff sampleSettings sampleSha256 sampleRunner sampleRetried
    (u := sampleUploadRow) (by decide) rfl hclones⟩

/-- The second retry finds no parts. -/
theorem retry_loses_input : ∃ ing, Clones (sampleRun sampleRetriedTwice).files (bytes "i") 2 ing ∧
      sampleUploadRow ∈ (sampleRun sampleRetriedTwice).files.uploads.values ∧
      (sampleRun sampleRetriedTwice).files.findUploadParts ing = .ok [] ∧
      (sampleRun sampleRetriedTwice).files.partsOf (bytes "u") ≠ [] :=
  ⟨_, .clone (.clone (.original rfl) (bytes "j") rfl rfl) (bytes "k") rfl rfl, by decide, rfl,
    by decide⟩

end Windrose.Uploads

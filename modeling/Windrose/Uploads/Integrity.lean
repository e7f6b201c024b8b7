/-
  Uploads/Integrity.lean --- the parts of an upload are the bytes that were sent.

  Source: services/ingestion-service/app/domain/services/uploads.py and ingestions.py
  (find_upload_parts).

  The key of a part is made of the ingestion and the number only, and the bytes are moved to
  it before the row is inserted.  So a second upload of the ingestion, or a second call for
  the same part, replaces the bytes of a row; and an upload that ends deletes the keys of
  all.
-/
import Windrose.Foundation.Digest
import Windrose.Foundation.Trace
import Windrose.Uploads.Service

set_option autoImplicit false

namespace Windrose.Uploads

open Windrose.Foundation Await

/-! ## What is kept -/

/-- The row names an object with its checksum and its size. -/
def Part.Stored (sha256 : Bytes → Bytes) (s : Store) (part : Part) : Prop :=
  ∃ content, s.objects.lookup part.storageKey = some content ∧ part.etag = sha256 content ∧
    part.size = content.length

/-- The objects one after the other. -/
def Store.contents (s : Store) : List Key → Option Bytes
  | [] => some []
  | key :: keys =>
    match s.objects.lookup key, s.contents keys with
    | some content, some rest => some (content ++ rest)
    | _, _ => none

/-- What is read of an upload. -/
def Store.assembled (s : Store) (id : Bytes) : Option Bytes :=
  s.contents ((s.partsOf id).map (·.storageKey))

/-- A part is being received. -/
def PutInFlight (w : Calls) : Prop :=
  ∃ i tenant id n content contentSha256 p,
    w.busy i = some (.putPart tenant id n content contentSha256, p)

/-- The rows name their objects while no part is being received, and what is read of an
upload has the checksum with which it was completed. -/
structure Intact (sha256 : Bytes → Bytes) (w : Calls) : Prop where
  parts : ¬PutInFlight w → ∀ part ∈ w.store.parts, part.Stored sha256 w.store
  completed : ∀ tenant id body a, (.complete tenant id body, .ok a) ∈ w.log → body.sha256 ≠ [] →
    ∃ content, w.store.assembled id = some content ∧ sha256 content = lower body.sha256

/-- The upload whose bytes a command has verified or verifies. -/
def Cmd.verifies : Cmd → Option Bytes
  | .read id _ => some id
  | .finish _ id (some _) => some id
  | _ => none

/-- A row names the key, or a call has moved its bytes there and is about to insert one. -/
def Named (w : Calls) (key : Key) : Prop :=
  (∃ part ∈ w.store.parts, part.storageKey = key) ∨
    ∃ i c part k, w.busy i = some (c, .await (.insertPart part) k) ∧ part.storageKey = key

/-- The upload was completed with a checksum, or a call is doing it. -/
def Verified (w : Calls) (id : Bytes) : Prop :=
  (∃ i c o k, w.busy i = some (c, .await o k) ∧ o.verifies = some id) ∨
    ∃ tenant body a, (.complete tenant id body, .ok a) ∈ w.log ∧ body.sha256 ≠ []

/-- When a command leaves what others rely on: bytes are moved to a key that is named only
if they are the bytes that are there, no row is added to an upload that was verified, and
no prefix is deleted with a key that is named. -/
def Undisturbed (w : Calls) : Cmd → Prop
  | .move src dst => Named w dst → ∀ content, w.store.objects.lookup src = some content →
      w.store.objects.lookup dst = some content
  | .insertPart part => w.store.findPart part.uploadID part.n = none → ¬Verified w part.uploadID
  | .deletePrefix storagePrefix => ∀ key, Named w key → key.storagePrefix ≠ storagePrefix
  | _ => True

/-! ## Where a call is -/

/-- The call does not complete an upload with a checksum. -/
def Call.Plain : Call → Prop
  | .complete _ _ body => body.sha256 = []
  | _ => True

/-- A command on which nothing depends. -/
def Harmless : Cmd → Prop
  | .put _ _ _ _ => False
  | .delete key => ∃ storagePrefix n id, key = .staging storagePrefix n id
  | .move _ _ => False
  | .insertPart _ => False
  | .read _ _ => False
  | .finish _ _ (some _) => False
  | _ => True

/-- What is staged, if it still is. -/
def Store.Staged (s : Store) (key : Key) (content : Bytes) : Prop :=
  ∃ storagePrefix n id, key = .staging storagePrefix n id ∧ id < s.drawn ∧
    ∀ content', s.objects.lookup key = some content' → content' = content

/-- Where a call is, and what it relies on. -/
inductive At (sha256 : Bytes → Bytes) (s : Store) : Call → Prog Answer → Prop where
  | opening {c : Call} (hc : c.Plain) (tenant id : Bytes) (n : Nat)
    (content contentSha256 : Bytes) :
      At sha256 s c (perform (.openUpload tenant id) >>= fun upload =>
        receive upload n content contentSha256)
  | receiving {c : Call} (hc : c.Plain) (upload : Upload) (n : Nat)
    (content contentSha256 : Bytes) :
      At sha256 s c (receive upload n content contentSha256)
  | placing {c : Call} (hc : c.Plain) (upload : Upload) (n : Nat) (key : Key) (content : Bytes)
      (hstaged : s.Staged key content) :
      At sha256 s c (place upload n key ⟨content.length, sha256 content⟩)
  | settling {c : Call} (hc : c.Plain) (upload : Upload) (n : Nat) (key : Key) (content : Bytes)
      (hstaged : s.Staged key content) :
      At sha256 s c (settle upload n key ⟨content.length, sha256 content⟩)
  | confirming {c : Call} (hc : c.Plain) (upload : Upload) (n : Nat) (content : Bytes)
      (hmoved : s.objects.lookup (.part upload.storagePrefix n) = some content) :
      At sha256 s c (confirm upload n ⟨content.length, sha256 content⟩)
  | checking (tenant id : Bytes) (body : UploadComplete) (hsha256 : body.sha256 ≠ []) :
      At sha256 s (.complete tenant id body) (complete sha256 tenant id body)
  | reading (tenant id : Bytes) (body : UploadComplete) (before : List Key) (key : Key)
      (keys : List Key) (content : Bytes)
      (hkeys : (s.partsOf id).map (·.storageKey) = before ++ key :: keys)
      (hbefore : s.contents before = some content) :
      At sha256 s (.complete tenant id body)
        (verify sha256 tenant id (lower body.sha256) (key :: keys) content)
  | finishing (tenant id : Bytes) (body : UploadComplete) (content : Bytes)
      (hassembled : s.assembled id = some content) (hsha256 : sha256 content = lower body.sha256) :
      At sha256 s (.complete tenant id body)
        (perform (.finish tenant id (some (lower body.sha256))) >>= fun _ => pure .completed)
  | completed (tenant id : Bytes) (body : UploadComplete) (content : Bytes) (a : Answer)
      (hassembled : s.assembled id = some content) (hsha256 : sha256 content = lower body.sha256) :
      At sha256 s (.complete tenant id body) (.done a)
  | closing {c : Call} (hc : c.Plain) {p : Prog Answer} (hp : Only Harmless p) : At sha256 s c p
  | failed (c : Call) (e : Exn) : At sha256 s c (.raise e)

/-! ## The objects -/

variable {content id : Bytes} {key : Key} {part : Part} {keys : List Key}

namespace Store

variable {s s' : Store}

theorem contents_append {before after : List Key} {rest : Bytes}
    (hbefore : s.contents before = some content) (hafter : s.contents after = some rest) :
    s.contents (before ++ after) = some (content ++ rest) := by
  induction before generalizing content with
  | nil =>
    obtain rfl := Option.some.inj hbefore
    exact hafter
  | cons key keys ih =>
    rw [List.cons_append]
    unfold contents at hbefore ⊢
    cases hkey : s.objects.lookup key with
    | none => simp [hkey] at hbefore
    | some chunk =>
      cases hkeys : s.contents keys with
      | none => simp [hkey, hkeys] at hbefore
      | some more =>
        simp only [hkey, hkeys, Option.some.injEq] at hbefore
        rw [ih hkeys]
        simp [← hbefore]

theorem contents_singleton
    (h : s.objects.lookup key = some content) : s.contents [key] = some content := by
  simp [contents, h]

theorem contents_mono (h : s.contents keys = some content)
    (hkeys : ∀ key ∈ keys, ∀ chunk, s.objects.lookup key = some chunk →
      s'.objects.lookup key = some chunk) : s'.contents keys = some content := by
  induction keys generalizing content with
  | nil => exact h
  | cons key keys ih =>
    unfold contents at h ⊢
    cases hkey : s.objects.lookup key with
    | none => simp [hkey] at h
    | some chunk =>
      cases hrest : s.contents keys with
      | none => simp [hkey, hrest] at h
      | some more =>
        rw [hkeys key (List.mem_cons_self ..) chunk hkey,
          ih hrest fun key hmem => hkeys key (List.mem_cons_of_mem _ hmem)]
        simpa [hkey, hrest] using h

theorem mem_partsOf : part ∈ s.partsOf id ↔ part ∈ s.parts ∧ part.uploadID = id := by
  simp [partsOf, List.mem_insertionSort]

theorem partsOf_of_parts (h : s'.parts = s.parts) (id : Bytes) : s'.partsOf id = s.partsOf id := by
  unfold partsOf
  rw [h]

theorem findPart_eq_none {n : Nat} (h : s.findPart id n = none) :
    ∀ part ∈ s.parts, ¬(part.uploadID = id ∧ part.n = n) := by
  simpa [findPart] using h

/-- The transactions that change neither the parts nor the objects. -/
structure Same (s s' : Store) : Prop where
  parts : s'.parts = s.parts
  objects : s'.objects = s.objects
  drawn : s'.drawn = s.drawn

theorem Same.rfl : Same s s := ⟨Eq.refl _, Eq.refl _, Eq.refl _⟩

theorem Same.trans {s'' : Store} (h : Same s s') (h' : Same s' s'') : Same s s'' :=
  ⟨h'.parts.trans h.parts, h'.objects.trans h.objects, h'.drawn.trans h.drawn⟩

theorem same_expireIngestion (s : Store) (id : Bytes) : Same s (s.expireIngestion id) := by
  unfold expireIngestion
  split
  · split
    · split <;> exact ⟨Eq.refl _, Eq.refl _, Eq.refl _⟩
    · exact .rfl
  · exact .rfl

theorem same_setStatus (s : Store) (upload : Upload) (status : Status) :
    Same s (s.setStatus upload status) := ⟨Eq.refl _, Eq.refl _, Eq.refl _⟩

theorem same_openUpload (s : Store) (tenant id : Bytes) : Same s (s.openUpload tenant id).2 := by
  unfold openUpload
  split
  · exact .rfl
  · rename_i upload _
    split_ifs
    · exact .rfl
    · exact .rfl
    · exact (same_setStatus s upload .expired).trans (same_expireIngestion _ _)
    · exact .rfl

theorem same_create (settings : Settings) (s : Store) (tenant : Bytes) (body : UploadCreate) :
    Same s (s.create settings tenant body).2 := by
  unfold create
  dsimp only
  repeat' split
  all_goals exact ⟨Eq.refl _, Eq.refl _, Eq.refl _⟩

theorem same_check (settings : Settings) (s : Store) (tenant id : Bytes) (body : UploadComplete) :
    Same s (s.check settings tenant id body).2 := s.same_openUpload tenant id

theorem same_finish (s : Store) (tenant id : Bytes) (sha256 : Option Bytes) :
    Same s (s.finish tenant id sha256).2 := by
  unfold finish
  repeat' split
  all_goals exact ⟨Eq.refl _, Eq.refl _, Eq.refl _⟩

theorem same_abort (s : Store) (tenant id : Bytes) : Same s (s.abort tenant id).2 := by
  unfold abort
  split
  · exact .rfl
  · split
    · exact .rfl
    · exact same_setStatus s _ .aborted

theorem same_gcExpired (s : Store) (tenant : Bytes) : Same s (s.gcExpired tenant).2 := by
  have hfold : ∀ (stale : List Upload) (s : Store), Same s
      (stale.foldl (fun s u => (s.setStatus u .expired).expireIngestion u.ingestionID) s) := by
    intro stale
    induction stale with
    | nil => exact fun s => .rfl
    | cons u stale ih =>
      exact fun s => ((same_setStatus s u .expired).trans (same_expireIngestion _ _)).trans (ih _)
  exact hfold _ s

theorem nodup_partsOf (h : (s.parts.map fun p => (p.uploadID, p.n)).Nodup) (id : Bytes) :
    ((s.partsOf id).map (·.n)).Nodup := by
  have hfilter : ((s.parts.filter fun p => p.uploadID = id).map fun p => (p.uploadID, p.n)).Nodup :=
    h.sublist (List.filter_sublist.map _)
  have hsorted : ((s.partsOf id).map fun p => (p.uploadID, p.n)).Nodup :=
    ((List.perm_insertionSort _ _).map _).nodup_iff.mpr hfilter
  have hn : ((s.partsOf id).map fun p => (p.uploadID, p.n)) =
      ((s.partsOf id).map (·.n)).map fun n => (id, n) := by
    rw [List.map_map]
    refine List.map_congr_left fun part hpart => ?_
    rw [Function.comp_apply, (mem_partsOf.mp hpart).2]
  rw [hn] at hsorted
  exact hsorted.of_map _

theorem sorted_partsOf (s : Store) (id : Bytes) : ((s.partsOf id).map (·.n)).Pairwise (· ≤ ·) := by
  rw [List.pairwise_map]
  have : Std.Total fun p q : Part => p.n ≤ q.n := ⟨fun p q => le_total p.n q.n⟩
  have : IsTrans Part fun p q => p.n ≤ q.n := ⟨fun _ _ _ => le_trans⟩
  exact List.pairwise_insertionSort _ _

theorem find_of_nodup {rows : List Part} (h : (rows.map (·.n)).Nodup)
    (hmem : part ∈ rows) : (rows.find? fun p => p.n = part.n) = some part := by
  induction rows with
  | nil => cases hmem
  | cons row rows ih =>
    rw [List.map_cons, List.nodup_cons] at h
    rw [List.find?_cons]
    obtain rfl | hmem := List.mem_cons.mp hmem
    · simp
    · have hne : row.n ≠ part.n := fun heq => h.1 (heq ▸ List.mem_map_of_mem hmem)
      simp [hne, ih h.2 hmem]

theorem checkManifest_eq_ok {settings : Settings} {upload : Upload}
    {manifest : List PartManifestEntry}
    (hnodup : (s.parts.map fun p => (p.uploadID, p.n)).Nodup)
    (h : checkManifest settings upload (s.partsOf id) manifest = .ok keys) :
    keys = (s.partsOf id).map (·.storageKey) := by
  have hn := nodup_partsOf hnodup id
  unfold checkManifest at h
  dsimp only at h
  split_ifs at h with hduplicate hmissing hunlisted hcontiguous hmismatch
  push Not at hmissing hunlisted hcontiguous
  have hsame : ∀ n, n ∈ manifest.map (·.n) ↔ n ∈ (s.partsOf id).map (·.n) :=
    fun n => ⟨hmissing n, hunlisted n⟩
  have hperm : ((s.partsOf id).map (·.n)).Perm (List.range' 1 (manifest.map (·.n)).length) := by
    rw [← hcontiguous]
    exact ((List.perm_ext_iff_of_nodup hn (by simpa using hduplicate)).mpr
      fun n => (hsame n).symm).trans (List.perm_insertionSort _ _).symm
  have hrange : (s.partsOf id).map (·.n) = List.range' 1 (manifest.map (·.n)).length :=
    hperm.eq_of_pairwise (fun a b _ _ hab hba => le_antisymm hab hba) (s.sorted_partsOf id)
      (List.pairwise_le_range' _)
  split at h
  · cases h
  · obtain rfl := Except.ok.inj h
    rw [← hrange, List.filterMap_map, ← List.filterMap_eq_map]
    refine List.filterMap_congr fun part hpart => ?_
    rw [Function.comp_apply, find_of_nodup hn hpart]
    rfl

end Store

/-! ## What a call does -/

section Places

variable {sha256 : Bytes → Bytes} {settings : Settings} {s : Store} {c : Call} {o : Cmd}
  {k : Except Exn o.Ans → Prog Answer}

theorem At.move {src dst : Key} {k : Except Exn Unit → Prog Answer}
    (h : At sha256 s c (.await (.move src dst) k)) :
    ∃ content upload n, s.Staged src content ∧ dst = .part upload.storagePrefix n ∧ c.Plain ∧
      ∀ r, k r = (ofExcept r : Prog Unit) >>= fun _ =>
        confirm upload n ⟨content.length, sha256 content⟩ := by
  generalize hp : (Await.await (.move src dst) k : Prog Answer) = p at h
  cases h with
  | settling hc upload n key content hstaged =>
    cases hp
    exact ⟨content, upload, n, hstaged, rfl, hc, fun r => rfl⟩
  | closing hc hharmless =>
    subst hp
    exact hharmless.1.elim
  | _ => cases hp

theorem only_duplicate (existing : Part) (result : PutResult) :
    Only Harmless (duplicate existing result) := by
  unfold duplicate
  split <;> trivial

theorem only_reread (upload : Upload) (n : Nat) (result : PutResult) :
    Only Harmless (perform (.getPart upload.id n) >>= fun existing => duplicate existing result) :=
  (only_ask (S := Harmless) (o := Cmd.getPart upload.id n) trivial).bind fun existing =>
    only_duplicate existing result

theorem At.insertPart {k : Except Exn Bool → Prog Answer}
    (h : At sha256 s c (.await (.insertPart part) k)) :
    (∃ storagePrefix, part.storageKey = .part storagePrefix part.n) ∧ part.Stored sha256 s ∧
      c.Plain ∧ ∀ r, Only Harmless (k r) := by
  generalize hp : (Await.await (.insertPart part) k : Prog Answer) = p at h
  cases h with
  | confirming hc upload n content hmoved =>
    cases hp
    refine ⟨⟨_, rfl⟩, ⟨content, hmoved, rfl, rfl⟩, hc, fun r => ?_⟩
    cases r with
    | error e => trivial
    | ok inserted =>
      cases inserted with
      | true => trivial
      | false => exact only_reread upload n _
  | closing hc hharmless =>
    subst hp
    exact hharmless.1.elim
  | _ => cases hp

theorem At.delete {k : Except Exn Unit → Prog Answer} (h : At sha256 s c (.await (.delete key) k)) :
    ∃ storagePrefix n id, key = .staging storagePrefix n id := by
  generalize hp : (Await.await (.delete key) k : Prog Answer) = p at h
  cases h with
  | closing hc hharmless =>
    subst hp
    exact hharmless.1
  | _ => cases hp

theorem at_verify (tenant id : Bytes) (body : UploadComplete) (before keys : List Key)
    (content : Bytes) (hkeys : (s.partsOf id).map (·.storageKey) = before ++ keys)
    (hbefore : s.contents before = some content) :
    At sha256 s (.complete tenant id body) (verify sha256 tenant id (lower body.sha256)
      keys content) := by
  cases keys with
  | cons key keys => exact .reading tenant id body before key keys content hkeys hbefore
  | nil =>
    have hassembled : s.assembled id = some content := by
      unfold Store.assembled
      rw [hkeys, List.append_nil, hbefore]
    unfold verify readAll
    rw [pure_eq, done_bind]
    split
    · exact .failed _ _
    · rename_i hsha256
      exact .finishing tenant id body content hassembled (not_not.mp hsha256)

theorem at_received (hc : c.Plain) (upload : Upload) (n : Nat) (content contentSha256 : Bytes) :
    At sha256 (s.put sha256 upload.storagePrefix n upload.partSize content).2 c
      (received upload n contentSha256
        (s.put sha256 upload.storagePrefix n upload.partSize content).1.1
        (s.put sha256 upload.storagePrefix n upload.partSize content).1.2) := by
  have hdelete : ∀ (e : Exn), Only Harmless (perform (.delete
      (.staging upload.storagePrefix n s.drawn)) >>= fun _ => raise e : Prog Answer) := fun e =>
    (only_ask (S := Harmless) (o := Cmd.delete _) ⟨_, _, _, rfl⟩).bind fun _ => only_raise e
  unfold Store.put
  dsimp only
  split
  · exact .closing hc (hdelete _)
  · unfold received
    dsimp only
    split
    · exact .closing hc (hdelete _)
    · refine .placing hc upload n _ content ⟨_, _, _, rfl, Nat.lt_succ_self _, fun content' h => ?_⟩
      rw [AList.lookup_insert] at h
      exact (Option.some.inj h).symm

theorem At.next (hnodup : (s.parts.map fun p => (p.uploadID, p.n)).Nodup)
    (h : At sha256 s c (.await o k)) :
    At sha256 (effect settings sha256 o s).2 c (k (effect settings sha256 o s).1) := by
  generalize hp : (Await.await o k : Prog Answer) = p at h
  cases h with
  | opening hc tenant id n content contentSha256 =>
    cases hp
    cases (effect settings sha256 (.openUpload tenant id) s).1 with
    | error e => exact .failed c e
    | ok upload => exact .receiving hc upload n content contentSha256
  | receiving hc upload n content contentSha256 =>
    cases hp
    exact at_received hc upload n content contentSha256
  | placing hc upload n key content hstaged =>
    cases hp
    simp only [effect]
    cases s.findPart upload.id n with
    | none => exact .settling hc upload n key content hstaged
    | some existing =>
      obtain ⟨storagePrefix, m, id, rfl, -⟩ := hstaged
      exact .closing hc ((only_ask (S := Harmless) (o := Cmd.delete _) ⟨_, _, _, rfl⟩).bind
        fun _ => only_duplicate existing _)
  | settling hc upload n key content hstaged =>
    cases hp
    simp only [effect, Store.move]
    cases hlookup : s.objects.lookup key with
    | none => exact .failed c _
    | some content' =>
      obtain ⟨-, -, -, -, -, hcontent⟩ := hstaged
      obtain rfl := hcontent content' hlookup
      exact .confirming hc upload n content' (AList.lookup_insert _)
  | confirming hc upload n content hmoved =>
    cases hp
    exact .closing hc ((At.confirming (s := s) hc upload n content hmoved).insertPart.2.2.2 _)
  | checking tenant id body hsha256 =>
    cases hp
    have hsame := s.same_check settings tenant id body
    simp only [effect]
    cases hcheck : (s.check settings tenant id body).1 with
    | error e => exact .failed _ e
    | ok keys =>
      have hkeys : keys = (s.partsOf id).map (·.storageKey) := by
        simp only [Store.check] at hcheck
        split at hcheck
        · cases hcheck
        · exact Store.checkManifest_eq_ok hnodup hcheck
      change At _ _ _ (if body.sha256 = [] then _ else _)
      rw [if_neg hsha256]
      refine at_verify tenant id body [] keys [] ?_ rfl
      rw [Store.partsOf_of_parts hsame.parts, hkeys, List.nil_append]
  | reading tenant id body before key keys content hkeys hbefore =>
    cases hp
    simp only [effect]
    cases hlookup : s.objects.lookup key with
    | none => exact .failed _ _
    | some chunk =>
      refine at_verify tenant id body (before ++ [key]) keys (content ++ chunk) ?_
        (Store.contents_append hbefore (Store.contents_singleton hlookup))
      rw [hkeys, List.append_assoc, List.singleton_append]
  | finishing tenant id body content hassembled hsha256 =>
    cases hp
    have hsame := s.same_finish tenant id (some (lower body.sha256))
    simp only [effect]
    cases (s.finish tenant id (some (lower body.sha256))).1 with
    | error e => exact .failed _ e
    | ok u =>
      refine .completed tenant id body content _ ?_ hsha256
      unfold Store.assembled at hassembled ⊢
      rw [Store.partsOf_of_parts hsame.parts]
      refine Store.contents_mono hassembled fun key _ chunk hchunk => ?_
      rw [hsame.objects, hchunk]
  | completed tenant id body content a hassembled hsha256 => cases hp
  | closing hc hharmless =>
    subst hp
    exact .closing hc (hharmless.2 _)
  | failed c e => cases hp

theorem At.fail (h : At sha256 s c (.await o k)) (e : Exn) : At sha256 s c (k (.error e)) := by
  generalize hp : (Await.await o k : Prog Answer) = p at h
  cases h with
  | closing hc hharmless =>
    subst hp
    exact .closing hc (hharmless.2 _)
  | confirming hc upload n content hmoved =>
    cases hp
    exact .failed c e
  | completed tenant id body content a hassembled hsha256 => cases hp
  | failed c e => cases hp
  | _ =>
    cases hp
    exact .failed _ e

end Places

/-! ## What others do -/

/-- What a command leaves to the calls: no staged bytes change, the objects that are named
stay, and so do the rows of uploads that were verified. -/
structure Preserves (w : Calls) (s' : Store) : Prop where
  drawn : w.store.drawn ≤ s'.drawn
  staged : ∀ storagePrefix n id content, id < w.store.drawn →
    s'.objects.lookup (.staging storagePrefix n id) = some content →
    w.store.objects.lookup (.staging storagePrefix n id) = some content
  named : ∀ key content, Named w key → w.store.objects.lookup key = some content →
    s'.objects.lookup key = some content
  rows : ∀ id, Verified w id → s'.partsOf id = w.store.partsOf id

/-- The invariant of a run. -/
structure Kept (sha256 : Bytes → Bytes) (w : Calls) : Prop where
  keys : ∀ part ∈ w.store.parts, ∃ storagePrefix, part.storageKey = .part storagePrefix part.n
  stored : ∀ part ∈ w.store.parts, part.Stored sha256 w.store
  nodup : (w.store.parts.map fun p => (p.uploadID, p.n)).Nodup
  calls : ∀ i c o k, w.busy i = some (c, .await o k) → At sha256 w.store c (.await o k)
  log : ∀ tenant id body a, (.complete tenant id body, .ok a) ∈ w.log → body.sha256 ≠ [] →
    ∃ content, w.store.assembled id = some content ∧ sha256 content = lower body.sha256

section Others

variable {sha256 : Bytes → Bytes} {settings : Settings} {w : Calls} {s' : Store}

theorem Preserves.contents (h : Preserves w s') (id : Bytes)
    (hkeys : ∀ key ∈ keys, key ∈ (w.store.partsOf id).map (·.storageKey))
    (hcontent : w.store.contents keys = some content) : s'.contents keys = some content := by
  refine Store.contents_mono hcontent fun key hmem chunk hchunk => ?_
  obtain ⟨part, hpart, hkey⟩ := List.mem_map.mp (hkeys key hmem)
  exact h.named key chunk (.inl ⟨part, (Store.mem_partsOf.mp hpart).1, hkey⟩) hchunk

theorem Preserves.assembled (h : Preserves w s') (hid : Verified w id)
    (hcontent : w.store.assembled id = some content) : s'.assembled id = some content := by
  unfold Store.assembled at hcontent ⊢
  rw [h.rows id hid]
  exact h.contents id (fun key hkey => hkey) hcontent

theorem Preserves.isStaged (h : Preserves w s')
    (hstaged : w.store.Staged key content) : s'.Staged key content := by
  obtain ⟨storagePrefix, n, id, rfl, hid, hcontent⟩ := hstaged
  exact ⟨storagePrefix, n, id, rfl, hid.trans_le h.drawn, fun content' hlookup =>
    hcontent content' (h.staged storagePrefix n id content' hid hlookup)⟩

variable {i : Nat} {c : Call}

theorem At.mono (h : Preserves w s') {o : Cmd} {k : Except Exn o.Ans → Prog Answer}
    (hbusy : w.busy i = some (c, .await o k)) (hat : At sha256 w.store c (.await o k)) :
    At sha256 s' c (.await o k) := by
  generalize hp : (Await.await o k : Prog Answer) = p at hbusy hat ⊢
  cases hat with
  | opening hc tenant id n content contentSha256 =>
    exact .opening hc tenant id n content contentSha256
  | receiving hc upload n content contentSha256 =>
    exact .receiving hc upload n content contentSha256
  | placing hc upload n key content hstaged =>
    exact .placing hc upload n key content (h.isStaged hstaged)
  | settling hc upload n key content hstaged =>
    exact .settling hc upload n key content (h.isStaged hstaged)
  | confirming hc upload n content hmoved =>
    exact .confirming hc upload n content (h.named _ _ (.inr ⟨i, c, _, _, hbusy, rfl⟩) hmoved)
  | checking tenant id body hsha256 => exact .checking tenant id body hsha256
  | reading tenant id body before key keys content hkeys hbefore =>
    have hverified : Verified w id := .inl ⟨i, _, .read id key, _, hbusy, rfl⟩
    refine .reading tenant id body before key keys content ?_ (h.contents id ?_ hbefore)
    · rw [h.rows id hverified, hkeys]
    · rw [hkeys]
      exact fun key hkey => List.mem_append_left _ hkey
  | finishing tenant id body content hassembled hsha256 =>
    have hverified : Verified w id := .inl ⟨i, _, .finish tenant id (some _), _, hbusy, rfl⟩
    exact .finishing tenant id body content (h.assembled hverified hassembled) hsha256
  | completed tenant id body content a hassembled hsha256 => cases hp
  | closing hc hharmless => exact .closing hc hharmless
  | failed c e => exact .failed c e

theorem Kept.key_of_named (h : Kept sha256 w) (hkey : Named w key) :
    ∃ storagePrefix n, key = .part storagePrefix n := by
  obtain ⟨part, hpart, rfl⟩ | ⟨i, c, part, k, hbusy, rfl⟩ := hkey
  · obtain ⟨storagePrefix, hkey⟩ := h.keys part hpart
    exact ⟨storagePrefix, part.n, hkey⟩
  · obtain ⟨⟨storagePrefix, hkey⟩, -⟩ := (h.calls i c _ k hbusy).insertPart
    exact ⟨storagePrefix, part.n, hkey⟩

theorem Store.Same.preserves (h : Store.Same w.store s') : Preserves w s' := by
  refine ⟨h.drawn.ge, fun storagePrefix n id content _ hlookup => ?_,
    fun key content _ hlookup => ?_,
    fun id _ => Store.partsOf_of_parts h.parts id⟩
  · rwa [h.objects] at hlookup
  · rwa [h.objects]

theorem Kept.preserves_put (h : Kept sha256 w) (storagePrefix : Bytes) (n partSize : Nat)
    (content : Bytes) : Preserves w (w.store.put sha256 storagePrefix n partSize content).2 := by
  unfold Store.put
  dsimp only
  split
  · exact ⟨Nat.le_succ _, fun _ _ _ _ _ hlookup => hlookup, fun _ _ _ hlookup => hlookup,
      fun _ _ => rfl⟩
  · refine ⟨Nat.le_succ _, fun pfx m id chunk hid hlookup => ?_, fun key chunk hkey hlookup => ?_,
      fun _ _ => rfl⟩
    · rwa [AList.lookup_insert_ne] at hlookup
      intro heq
      cases heq
      exact absurd hid (lt_irrefl _)
    · obtain ⟨pfx, m, rfl⟩ := h.key_of_named hkey
      rwa [AList.lookup_insert_ne (by simp)]

theorem Kept.preserves_delete (h : Kept sha256 w)
    {k : Except Exn Unit → Prog Answer} (hbusy : w.busy i = some (c, .await (.delete key) k)) :
    Preserves w (w.store.delete key) := by
  obtain ⟨storagePrefix, n, id, rfl⟩ := (h.calls i c (.delete key) k hbusy).delete
  refine ⟨le_rfl, fun pfx m id' chunk _ hlookup => ?_, fun key chunk hkey hlookup => ?_,
    fun _ _ => rfl⟩
  · by_cases heq : Key.staging pfx m id' = .staging storagePrefix n id
    · rw [Store.delete, heq, AList.lookup_erase] at hlookup
      cases hlookup
    · rwa [Store.delete, AList.lookup_erase_ne heq] at hlookup
  · obtain ⟨pfx, m, rfl⟩ := h.key_of_named hkey
    rwa [Store.delete, AList.lookup_erase_ne (by simp)]

theorem Kept.preserves_move (h : Kept sha256 w) {src dst : Key}
    {k : Except Exn Unit → Prog Answer} (hbusy : w.busy i = some (c, .await (.move src dst) k))
    (hundisturbed : Undisturbed w (.move src dst)) : Preserves w (w.store.move src dst).2 := by
  obtain ⟨content, upload, n, hstaged, rfl, -, -⟩ := (h.calls i c (.move src dst) k hbusy).move
  obtain ⟨storagePrefix, m, id, rfl, -⟩ := hstaged
  unfold Store.move
  split
  · rename_i content' hsrc
    refine ⟨le_rfl, fun pfx m' id' chunk _ hlookup => ?_, fun key chunk hkey hlookup => ?_,
      fun _ _ => rfl⟩
    · rw [AList.lookup_insert_ne (by simp)] at hlookup
      by_cases heq : Key.staging pfx m' id' = .staging storagePrefix m id
      · rw [heq, AList.lookup_erase] at hlookup
        cases hlookup
      · rwa [AList.lookup_erase_ne heq] at hlookup
    · by_cases heq : key = .part upload.storagePrefix n
      · -- the bytes that are there are the bytes that are moved
        subst heq
        have hsame := hundisturbed hkey content' hsrc
        rw [AList.lookup_insert, ← hsame, hlookup]
      · obtain ⟨pfx, m', rfl⟩ := h.key_of_named hkey
        rwa [AList.lookup_insert_ne heq, AList.lookup_erase_ne (by simp)]
  · exact Store.Same.rfl.preserves

theorem preserves_deletePrefix {storagePrefix : Bytes}
    (hundisturbed : Undisturbed w (.deletePrefix storagePrefix)) :
    Preserves w (w.store.deletePrefix storagePrefix) := by
  refine ⟨le_rfl, fun pfx n id chunk _ hlookup => Dict.lookup_of_filter hlookup,
    fun key chunk hkey hlookup => ?_, fun _ _ => rfl⟩
  exact Dict.lookup_filter hlookup (by simpa using hundisturbed key hkey)

theorem preserves_insertPart (hundisturbed : Undisturbed w (.insertPart part)) :
    Preserves w (w.store.insertPart part).2 := by
  unfold Store.insertPart
  split
  · exact Store.Same.rfl.preserves
  · rename_i hnone
    refine ⟨le_rfl, fun _ _ _ _ _ hlookup => hlookup, fun _ _ _ hlookup => hlookup,
      fun id hid => ?_⟩
    have hne : part.uploadID ≠ id := fun heq => by
      subst heq
      exact hundisturbed (by simpa using hnone) hid
    simp [Store.partsOf, List.filter_append, hne]

theorem Kept.preserves (h : Kept sha256 w) {o : Cmd}
    {k : Except Exn o.Ans → Prog Answer} (hbusy : w.busy i = some (c, .await o k))
    (hundisturbed : Undisturbed w o) : Preserves w (effect settings sha256 o w.store).2 := by
  cases o with
  | create tenant body => exact (w.store.same_create settings tenant body).preserves
  | openUpload tenant id => exact (w.store.same_openUpload tenant id).preserves
  | put storagePrefix n partSize content => exact h.preserves_put storagePrefix n partSize content
  | delete key => exact h.preserves_delete hbusy
  | findPart id n => exact Store.Same.rfl.preserves
  | move src dst => exact h.preserves_move hbusy hundisturbed
  | insertPart part => exact preserves_insertPart hundisturbed
  | getPart id n => exact Store.Same.rfl.preserves
  | check tenant id body => exact (w.store.same_check settings tenant id body).preserves
  | read id key => exact Store.Same.rfl.preserves
  | finish tenant id expected => exact (w.store.same_finish tenant id expected).preserves
  | abort tenant id => exact (w.store.same_abort tenant id).preserves
  | deletePrefix storagePrefix => exact preserves_deletePrefix hundisturbed
  | gcExpired tenant => exact (w.store.same_gcExpired tenant).preserves

end Others

/-! ## Steps -/

section Steps

variable {sha256 : Bytes → Bytes} {settings : Settings} {w : Calls} {i : Nat} {c : Call}

theorem At.ended {s : Store} {tenant : Bytes} {body : UploadComplete} {a : Answer}
    (h : At sha256 s (.complete tenant id body) (.done a)) (hsha256 : body.sha256 ≠ []) :
    ∃ content, s.assembled id = some content ∧ sha256 content = lower body.sha256 := by
  generalize hp : (Await.done a : Prog Answer) = p at h
  generalize hcall : Call.complete tenant id body = c at h
  cases h with
  | completed tenant id body content a hassembled hsha256 =>
    cases hcall
    exact ⟨content, hassembled, hsha256⟩
  | closing hc hharmless =>
    subst hcall
    exact absurd hc hsha256
  | _ => cases hp

theorem Kept.resume (h : Kept sha256 w) {w' : Calls} (hbusy : w'.busy = w.busy)
    (hlog : w'.log = w.log) (hpreserves : Preserves w w'.store) {q : Prog Answer}
    (hq : At sha256 w'.store c q)
    (hkeys : ∀ part ∈ w'.store.parts, ∃ storagePrefix, part.storageKey = .part storagePrefix part.n)
    (hstored : ∀ part ∈ w'.store.parts, part ∈ w.store.parts ∨ part.Stored sha256 w'.store)
    (hnodup : (w'.store.parts.map fun p => (p.uploadID, p.n)).Nodup) :
    Kept sha256 (w'.resume i c q) := by
  refine ⟨by rwa [Pool.resume_store], ?_, by rwa [Pool.resume_store], ?_, ?_⟩
  · rw [Pool.resume_store]
    intro part hpart
    obtain hold | hnew := hstored part hpart
    · obtain ⟨content, hlookup, hetag, hsize⟩ := h.stored part hold
      exact ⟨content, hpreserves.named _ _ (.inl ⟨part, hold, rfl⟩) hlookup, hetag, hsize⟩
    · exact hnew
  · rw [Pool.resume_store]
    intro j c' o k hj
    obtain ⟨-, rfl, rfl⟩ | ⟨-, hj⟩ := Pool.busy_resume hj
    · exact hq
    · rw [hbusy] at hj
      exact (h.calls j c' o k hj).mono hpreserves hj
  · rw [Pool.resume_store]
    intro tenant id body a hmem hsha256
    obtain ⟨rfl, rfl⟩ | hmem := Pool.log_resume hmem
    · exact hq.ended hsha256
    · rw [hlog] at hmem
      obtain ⟨content, hassembled, hcontent⟩ := h.log tenant id body a hmem hsha256
      exact ⟨content, hpreserves.assembled (.inr ⟨tenant, body, a, hmem, hsha256⟩) hassembled,
        hcontent⟩

theorem parts_effect (o : Cmd) (s : Store) : (effect settings sha256 o s).2.parts = s.parts ∨
      ∃ part, o = .insertPart part ∧ s.findPart part.uploadID part.n = none ∧
        (effect settings sha256 o s).2.parts = s.parts ++ [part] := by
  cases o with
  | create tenant body => exact .inl (s.same_create settings tenant body).parts
  | openUpload tenant id => exact .inl (s.same_openUpload tenant id).parts
  | put storagePrefix n partSize content =>
    simp only [effect, Store.put]
    split <;> exact .inl rfl
  | move src dst =>
    simp only [effect, Store.move]
    split <;> exact .inl rfl
  | insertPart part =>
    simp only [effect, Store.insertPart]
    split
    · exact .inl rfl
    · rename_i hnone
      exact .inr ⟨part, rfl, by simpa using hnone, rfl⟩
  | check tenant id body => exact .inl (s.same_check settings tenant id body).parts
  | finish tenant id expected => exact .inl (s.same_finish tenant id expected).parts
  | abort tenant id => exact .inl (s.same_abort tenant id).parts
  | gcExpired tenant => exact .inl (s.same_gcExpired tenant).parts
  | _ => exact .inl rfl

theorem Kept.go (h : Kept sha256 w) {o : Cmd} {k : Except Exn o.Ans → Prog Answer}
    (hbusy : w.busy i = some (c, .await o k)) (hundisturbed : Undisturbed w o) :
    Kept sha256 ({ w with store := (effect settings sha256 o w.store).2 }.resume i c
      (k (effect settings sha256 o w.store).1)) := by
  have hpreserves : Preserves w (effect settings sha256 o w.store).2 :=
      h.preserves hbusy hundisturbed
  have hat := h.calls i c o k hbusy
  have hnext : At sha256 (effect settings sha256 o w.store).2 c
      (k (effect settings sha256 o w.store).1) := At.next h.nodup hat
  have hadded : (effect settings sha256 o w.store).2.parts = w.store.parts ∨
      ∃ part, o = .insertPart part ∧ w.store.findPart part.uploadID part.n = none ∧
        (effect settings sha256 o w.store).2.parts = w.store.parts ++ [part] :=
    parts_effect o w.store
  obtain hparts | ⟨part, rfl, hnone, hparts⟩ := hadded
  · refine h.resume (by rfl) (by rfl) hpreserves hnext ?_ ?_ ?_
    · rw [hparts]
      exact h.keys
    · rw [hparts]
      exact fun part hpart => .inl hpart
    · rw [hparts]
      exact h.nodup
  · obtain ⟨hkey, ⟨content, hlookup, hetag, hsize⟩, -, -⟩ := hat.insertPart
    refine h.resume (by rfl) (by rfl) hpreserves hnext ?_ ?_ ?_
    · rw [hparts]
      intro part' hpart'
      obtain hold | hnew := List.mem_append.mp hpart'
      · exact h.keys part' hold
      · rw [List.mem_singleton.mp hnew]
        exact hkey
    · rw [hparts]
      intro part' hpart'
      obtain hold | hnew := List.mem_append.mp hpart'
      · exact .inl hold
      · rw [List.mem_singleton.mp hnew]
        exact .inr ⟨content, hpreserves.named _ _ (.inr ⟨i, c, part, k, hbusy, rfl⟩) hlookup, hetag,
          hsize⟩
    · rw [hparts, List.map_append, List.nodup_append]
      refine ⟨h.nodup, List.nodup_singleton _, fun key hkey key' hkey' heq => ?_⟩
      obtain ⟨old, hold, rfl⟩ := List.mem_map.mp hkey
      obtain rfl := List.mem_singleton.mp hkey'
      exact Store.findPart_eq_none hnone old hold (Prod.mk.inj heq)

theorem at_begin (s : Store) (c : Call) : At sha256 s c (program sha256 c) := by
  cases c with
  | create tenant body =>
    exact .closing (by trivial) ((only_ask (S := Harmless) (o := Cmd.create tenant body)
      trivial).bind
      fun _ => only_done _)
  | putPart tenant id n content contentSha256 =>
    change At sha256 s _ (putPart tenant id n content contentSha256)
    unfold putPart
    split
    · exact .failed _ _
    · exact .opening (by trivial) tenant id n content contentSha256
  | complete tenant id body =>
    by_cases hsha256 : body.sha256 = []
    · refine .closing (by exact hsha256) ((only_ask (S := Harmless) (o := Cmd.check tenant id body)
        trivial).bind
        fun keys => ?_)
      change Only Harmless (if body.sha256 = [] then _ else _)
      rw [if_pos hsha256]
      exact (only_ask (S := Harmless) (o := Cmd.finish tenant id none) trivial).bind
        fun _ => only_done _
    · exact .checking tenant id body hsha256
  | abort tenant id =>
    refine .closing (by trivial) ((only_ask (S := Harmless) (o := Cmd.abort tenant id) trivial).bind
      fun storagePrefix => ?_)
    exact (only_ask (S := Harmless) (o := Cmd.deletePrefix storagePrefix) trivial).bind
      fun _ => only_done _
  | gcExpired tenant =>
    refine .closing (by trivial) ((only_ask (S := Harmless) (o := Cmd.gcExpired tenant)
      trivial).bind
      fun prefixes => Only.bind ?_ fun _ => only_done _)
    have hdelete : ∀ prefixes, Only Harmless (deletePrefixes prefixes) := by
      intro prefixes
      induction prefixes with
      | nil => exact only_done _
      | cons storagePrefix prefixes ih =>
        exact (only_ask (S := Harmless) (o := Cmd.deletePrefix storagePrefix) trivial).bind
          fun _ => ih
    exact hdelete prefixes

theorem Kept.step (h : Kept sha256 w) {m : Move Nat Call Exn Outside}
    (hundisturbed : ∀ o ∈ w.operation m, Undisturbed w o) :
    Kept sha256 (step settings sha256 w m) := by
  unfold Uploads.step
  obtain hs | ⟨i, c, -, -, hs⟩ | ⟨i, c, o, k, -, hbusy, ho, hs⟩ | ⟨i, c, o, k, e, -, hbusy, hs⟩ |
      ⟨t, -, hs⟩ :=
    Pool.step_view (program sha256) (effect settings sha256) outside w m
  · rwa [hs]
  · rw [hs]
    refine h.resume ?_ ?_ ?_ ?_ ?_ ?_ ?_
    · rfl
    · rfl
    · exact Store.Same.rfl.preserves
    · exact at_begin _ c
    · exact h.keys
    · exact fun part hpart => .inl hpart
    · exact h.nodup
  · rw [hs]
    exact h.go hbusy (hundisturbed o ho)
  · rw [hs]
    exact h.resume (by rfl) (by rfl) Store.Same.rfl.preserves
      ((h.calls i c o k hbusy).fail e) h.keys
      (fun part hpart => .inl hpart) h.nodup
  · rw [hs]
    have hsame : Store.Same w.store (outside t w.store) := by
      cases t <;> exact ⟨rfl, rfl, rfl⟩
    have hpreserves : Preserves w (outside t w.store) := hsame.preserves
    refine ⟨?_, ?_, ?_, fun j c o k hj => (h.calls j c o k hj).mono hpreserves hj, ?_⟩
    · simpa only [hsame.parts] using h.keys
    · simpa only [Part.Stored, hsame.parts, hsame.objects] using h.stored
    · simpa only [hsame.parts] using h.nodup
    · intro tenant id body a hmem hsha256
      obtain ⟨content, hassembled, hcontent⟩ := h.log tenant id body a hmem hsha256
      exact ⟨content, hpreserves.assembled (.inr ⟨tenant, body, a, hmem, hsha256⟩) hassembled,
        hcontent⟩

end Steps

/-! ## Runs -/

/-- The parts of an upload are the bytes that were sent, in every run in which no command
disturbs what others rely on. -/
theorem uploads_intact (settings : Settings) (sha256 : Bytes → Bytes)
    (ms : List (Move Nat Call Exn Outside))
    (hundisturbed : Each (step settings sha256) (fun w m => ∀ o ∈ w.operation m, Undisturbed w o)
      (Pool.idle {}) ms) :
    Always (step settings sha256) (Intact sha256) (Pool.idle {}) ms := by
  have hempty : Kept sha256 (Pool.idle {}) := by
    refine ⟨?_, ?_, List.nodup_nil, ?_, ?_⟩
    · exact nofun
    · exact nofun
    · exact fun i c o k h => by cases h
    · exact nofun
  have hkept := always_of_each (fun w m hw hm => hw.step hm) hempty hundisturbed
  exact fun done hdone => ⟨fun _ => (hkept done hdone).stored, (hkept done hdone).log⟩

def sampleSettings : Settings :=
  { minPartSize := 1
    maxPartSize := 8
    defaultPartSize := 4
    maxActiveUploadsPerTenant := 20
    uploadTTL := 24
    maxUploadBytes := 0
    maxUploadParts := 0 }

def sampleSha256 : Bytes → Bytes :=
  digestTable
    [(bytes "x", bytes "2d711642b726b04401627ca9fbac32f5c8530fb1903cc4db02258717921a4881"),
      (bytes "y", bytes "a1fce4363854ff888cff4b8e7875d600c2682390412a8cf79b37d0b11148b0fa")]

/-- A job for a file, and its first upload. -/
def sampleUpload : List (Move Nat Call Exn Outside) :=
  [.other (.setIngestion (bytes "i")
      { id := bytes "i", tenantID := bytes "t", ingestionMode := .fileUpload }),
    .start 0 (.create (bytes "t") { id := bytes "u", ingestionID := bytes "i" }),
    .go 0,
    .start 1 (.putPart (bytes "t") (bytes "u") 1 (bytes "x") []),
    .go 1, .go 1, .go 1, .go 1, .go 1]

/-- The upload is completed with its checksum. -/
def sampleComplete : List (Move Nat Call Exn Outside) :=
  [.start 2 (.complete (bytes "t") (bytes "u")
      { parts := [⟨1, sampleSha256 (bytes "x"), 1⟩], parts_ne_nil := List.cons_ne_nil _ _,
        sha256 := sampleSha256 (bytes "x") }),
    .go 2, .go 2, .go 2]

theorem uploads_intact_sample :
    Always (step sampleSettings sampleSha256) (Intact sampleSha256) (Pool.idle {})
      (sampleUpload ++ sampleComplete) := by
  refine uploads_intact sampleSettings sampleSha256 (sampleUpload ++ sampleComplete) ?_
  simp only [sampleUpload, sampleComplete, List.cons_append, List.nil_append, each_cons]
  refine ⟨?_, ?_, ?_, ?_, ?_, ?_, ?_, ?_, ?_, ?_, ?_, ?_, ?_, each_nil _⟩
  case refine_8 =>
    intro o ho
    cases ho
    rintro (⟨part, hpart, -⟩ | ⟨i, c, part, k, hbusy, -⟩)
    · cases hpart
    · rcases i with _ | _ | i <;> cases hbusy
  case refine_9 =>
    intro o ho
    cases ho
    rintro - (⟨i, c, o, k, hbusy, ho⟩ | ⟨tenant, body, a, hmem, -⟩)
    · rcases i with _ | _ | i <;> cases hbusy
      cases ho
    · cases hmem with
      | tail _ hmem => cases hmem
  all_goals
    intro o ho
    cases ho
    try trivial

/-- The part of a second upload of the job. -/
def sampleSecond : List (Move Nat Call Exn Outside) :=
  [.start 2 (.create (bytes "t") { id := bytes "v", ingestionID := bytes "i" }),
    .go 2,
    .start 3 (.putPart (bytes "t") (bytes "v") 1 (bytes "y") []),
    .go 3, .go 3, .go 3, .go 3, .go 3]

theorem uploads_not_intact :
    ¬Always (step sampleSettings sampleSha256) (Intact sampleSha256) (Pool.idle {})
      (sampleUpload ++ sampleSecond) := by
  intro h
  have hidle : ¬PutInFlight
      (run (step sampleSettings sampleSha256) (Pool.idle {}) (sampleUpload ++ sampleSecond)) := by
    rintro ⟨i, tenant, id, n, content, contentSha256, p, hbusy⟩
    rcases i with _ | _ | _ | _ | i <;> cases hbusy
  have hparts : (run (step sampleSettings sampleSha256) (Pool.idle {})
      (sampleUpload ++ sampleSecond)).store.parts.head?.map (fun part =>
      (part.storageKey, part.etag)) =
        some (.part (bytes "tenants/t/uploads/i") 1, sampleSha256 (bytes "x")) := by decide
  have hobject : (run (step sampleSettings sampleSha256) (Pool.idle {})
      (sampleUpload ++ sampleSecond)).store.objects.lookup (.part (bytes "tenants/t/uploads/i") 1) =
        some (bytes "y") := by decide
  obtain ⟨part, hpart, hrow⟩ := Option.map_eq_some_iff.mp hparts
  obtain ⟨content, hlookup, hetag, -⟩ :=
    (h _ List.prefix_rfl).parts hidle part (List.mem_of_mem_head? hpart)
  obtain ⟨hkey, hold⟩ := Prod.mk.inj hrow
  rw [hkey, hobject] at hlookup
  obtain rfl := Option.some.inj hlookup
  rw [hold] at hetag
  exact absurd hetag (by decide)

end Windrose.Uploads

/-
  Uploads/Service.lean --- chunked uploads.

  Source: services/ingestion-service/app/domain/services/uploads.py, objectstore.py and
  store/models.py (Upload, UploadPart).

  The state of the parts is in the database and their bytes are in the object store.  A
  command is one transaction, or one part of one, or one call of the object store.  The
  keys are `{prefix}/staging/part-{n}-{uuid7}` and `{prefix}/parts/{n:06d}`; the prefix of
  an ingestion is no prefix of that of another, since ids have one length.  The id of a
  staging key is drawn with the first call that uses it.
-/
import Mathlib.Data.List.Sort
import Windrose.Foundation.Await
import Windrose.Foundation.Holds
import Windrose.Ingestions.Domain

set_option autoImplicit false

namespace Windrose.Uploads

open Windrose.Foundation Await

/-! ## The store -/

/-- The exceptions. -/
inductive Exn where
  | validationFailed (message : String)
  | notFound
  | conflict (message : String)
  | rateLimited (message : String)
  | uploadExpired (message : String)
  | payloadTooLarge (message : String)
  | checksumMismatch (message : String)
  /-- a failure of the database or of the object store -/
  | other
  deriving DecidableEq

/-- The settings of the uploads. -/
structure Settings where
  minPartSize : Nat
  maxPartSize : Nat
  defaultPartSize : Nat
  maxActiveUploadsPerTenant : Nat
  uploadTTL : Nat
  /-- 0 means unlimited -/
  maxUploadBytes : Nat
  maxUploadParts : Nat

/-- A key of the object store. -/
inductive Key where
  | staging (storagePrefix : Bytes) (n id : Nat)
  | part (storagePrefix : Bytes) (n : Nat)
  deriving DecidableEq

def Key.storagePrefix : Key → Bytes
  | staging storagePrefix _ _ => storagePrefix
  | part storagePrefix _ => storagePrefix

/-- The status of an upload. -/
inductive Status where
  | opened
  | completed
  | aborted
  | expired
  deriving DecidableEq

def Status.text : Status → String
  | opened => "open"
  | completed => "completed"
  | aborted => "aborted"
  | expired => "expired"

/-- A row of `uploads`. -/
structure Upload where
  id : Bytes
  tenantID : Bytes
  ingestionID : Bytes
  partSize : Nat
  storagePrefix : Bytes
  sha256 : Option Bytes := none
  status : Status := .opened
  expiresAt : Nat
  deriving DecidableEq

/-- A row of `upload_parts`; its key is the upload and the number. -/
structure Part where
  uploadID : Bytes
  n : Nat
  tenantID : Bytes
  etag : Bytes
  size : Nat
  storageKey : Key
  deriving DecidableEq

/-- The answer of a put. -/
structure PutResult where
  size : Nat
  etag : Bytes
  deriving DecidableEq

/-- The tables and the objects. -/
structure Store where
  now : Nat := 0
  ingestions : Dict Bytes Ingestions.Ingestion := ∅
  uploads : Dict Bytes Upload := ∅
  parts : List Part := []
  objects : Dict Key Bytes := ∅
  /-- the ids of staging keys that were drawn -/
  drawn : Nat := 0

/-- `UploadCreate`; the id of the new row is drawn by the caller. -/
structure UploadCreate where
  id : Bytes
  ingestionID : Bytes
  partSize : Option Nat := none
  deriving DecidableEq

/-- An entry of the manifest of parts. -/
structure PartManifestEntry where
  n : Nat
  etag : Bytes
  size : Nat
  deriving DecidableEq

/-- `UploadComplete`: at least one part; an empty text is no checksum. -/
structure UploadComplete where
  parts : List PartManifestEntry
  parts_ne_nil : parts ≠ []
  sha256 : Bytes := []
  deriving DecidableEq

namespace Store

/-- `_get_upload`. -/
def getUpload (s : Store) (tenant id : Bytes) : Except Exn Upload :=
  match (s.uploads.lookup id).filter fun u => u.tenantID = tenant with
  | some upload => .ok upload
  | none => .error .notFound

/-- The ingestion of an expired upload, if it waits for one. -/
def expireIngestion (s : Store) (id : Bytes) : Store :=
  match s.ingestions.lookup id with
  | some ing =>
    if ing.status = .awaitingUpload then
      match ing.recordTransition .expired {} with
      | .ok ing' => { s with ingestions := s.ingestions.insert id ing' }
      | .error _ => s
    else s
  | none => s

def setStatus (s : Store) (upload : Upload) (status : Status) : Store :=
  { s with uploads := s.uploads.insert upload.id { upload with status } }

/-- `_get_upload` and `_ensure_open`; that an upload expired is committed. -/
def openUpload (s : Store) (tenant id : Bytes) : Except Exn Upload × Store :=
  match s.getUpload tenant id with
  | .error e => (.error e, s)
  | .ok upload =>
    if upload.status = .expired then (.error (.uploadExpired "upload expired"), s)
    else if upload.status ≠ .opened then
      (.error (.conflict s!"upload is {upload.status.text}"), s)
    else if upload.expiresAt ≤ s.now then
      (.error (.uploadExpired "upload expired"),
        (s.setStatus upload .expired).expireIngestion upload.ingestionID)
    else (.ok upload, s)

/-- `create`. -/
def create (settings : Settings) (s : Store) (tenant : Bytes) (body : UploadCreate) :
    Except Exn Unit × Store :=
  let partSize := body.partSize.getD settings.defaultPartSize
  if partSize < settings.minPartSize ∨ settings.maxPartSize < partSize then
    (.error (.validationFailed "invalid part_size"), s)
  else
    match (s.ingestions.lookup body.ingestionID).filter fun ing => ing.tenantID = tenant with
    | none => (.error .notFound, s)
    | some ing =>
      if ing.ingestionMode ≠ .fileUpload then
        (.error (.validationFailed "uploads require a file_upload ingestion"), s)
      else if ing.status ≠ .created ∧ ing.status ≠ .awaitingUpload then
        (.error (.conflict "ingestion not awaiting upload"), s)
      else if settings.maxActiveUploadsPerTenant ≤
          s.uploads.count fun u => u.tenantID = tenant && u.status = .opened then
        (.error (.rateLimited "active upload cap reached"), s)
      else if body.id ∈ s.uploads then (.error .other, s)
      else
        let upload : Upload :=
          { id := body.id
            tenantID := tenant
            ingestionID := ing.id
            partSize
            storagePrefix := bytes "tenants/" ++ tenant ++ bytes "/uploads/" ++ ing.id
            expiresAt := s.now + settings.uploadTTL }
        let s := { s with uploads := s.uploads.insert body.id upload }
        if ing.status = .created then
          match ing.recordTransition .awaitingUpload
              { ingestionMode := some .fileUpload, uploadSessionOpened := true } with
          | .ok ing' => (.ok (), { s with ingestions := s.ingestions.insert body.ingestionID ing' })
          | .error _ => (.error .other, s)
        else (.ok (), s)

/-- `put` of the object store, to a new staging key; of a body over the size of a part
nothing is kept. -/
def put (sha256 : Bytes → Bytes) (s : Store) (storagePrefix : Bytes) (n partSize : Nat)
    (content : Bytes) : (Key × Option PutResult) × Store :=
  let key := Key.staging storagePrefix n s.drawn
  let s := { s with drawn := s.drawn + 1 }
  if partSize < content.length then ((key, none), s)
  else
    ((key, some ⟨content.length, sha256 content⟩),
      { s with objects := s.objects.insert key content })

/-- `delete`. -/
def delete (s : Store) (key : Key) : Store := { s with objects := s.objects.erase key }

/-- `move` of the object store. -/
def move (s : Store) (src dst : Key) : Except Exn Unit × Store :=
  match s.objects.lookup src with
  | some content => (.ok (), { s with objects := (s.objects.erase src).insert dst content })
  | none => (.error .other, s)

/-- `delete_prefix`. -/
def deletePrefix (s : Store) (storagePrefix : Bytes) : Store :=
  { s with objects := s.objects.filter fun key _ => key.storagePrefix ≠ storagePrefix }

/-- The row of a part. -/
def findPart (s : Store) (id : Bytes) (n : Nat) : Option Part :=
  s.parts.find? fun p => p.uploadID = id && p.n = n

/-- The row is inserted if there is none with its key. -/
def insertPart (s : Store) (part : Part) : Bool × Store :=
  if (s.findPart part.uploadID part.n).isSome then (false, s)
  else (true, { s with parts := s.parts ++ [part] })

/-- `_parts`: by number. -/
def partsOf (s : Store) (id : Bytes) : List Part :=
  (s.parts.filter fun p => p.uploadID = id).insertionSort fun p q => p.n ≤ q.n

/-- `enforce_upload_caps`. -/
def enforceUploadCaps (settings : Settings) (totalSize partCount : Nat) : Except Exn Unit :=
  if settings.maxUploadParts ≠ 0 ∧ settings.maxUploadParts < partCount then
    .error (.validationFailed
      s!"upload has {partCount} parts, exceeding the limit of {settings.maxUploadParts}")
  else if settings.maxUploadBytes ≠ 0 ∧ settings.maxUploadBytes < totalSize then
    .error (.validationFailed
      s!"upload total {totalSize} bytes exceeds the {settings.maxUploadBytes}-byte limit")
  else .ok ()

/-- An entry that does not fit its part: another content, or a part before the last that
is not full. -/
def mismatch (upload : Upload) (stored : List Part) (last : Nat)
    (entry : PartManifestEntry) : Bool :=
  match stored.find? fun p => p.n = entry.n with
  | some part =>
    part.etag ≠ entry.etag || part.size ≠ entry.size ||
      (entry.n ≠ last && part.size ≠ upload.partSize)
  | none => false

/-- The manifest lists the parts that are stored; the answer is their keys. -/
def checkManifest (settings : Settings) (upload : Upload) (stored : List Part)
    (manifest : List PartManifestEntry) : Except Exn (List Key) :=
  let manifestNs := manifest.map (·.n)
  let expectedNs := List.range' 1 manifestNs.length
  if ¬manifestNs.Nodup then .error (.validationFailed "duplicate part numbers in manifest")
  else if ∃ n ∈ manifestNs, n ∉ stored.map (·.n) then
    .error (.conflict "manifest lists parts not uploaded")
  else if ∃ n ∈ stored.map (·.n), n ∉ manifestNs then
    .error (.conflict "uploaded parts missing from manifest")
  else if manifestNs.insertionSort (· ≤ ·) ≠ expectedNs then
    .error (.conflict "parts are not contiguous from 1")
  else if manifest.any (mismatch upload stored (manifestNs.foldl max 0)) then
    .error (.conflict "part manifest mismatch")
  else
    match enforceUploadCaps settings (stored.map (·.size)).sum stored.length with
    | .error e => .error e
    | .ok _ =>
      .ok (expectedNs.filterMap fun n => (stored.find? fun p => p.n = n).map (·.storageKey))

/-- The first transaction of `complete`. -/
def check (settings : Settings) (s : Store) (tenant id : Bytes) (body : UploadComplete) :
    Except Exn (List Key) × Store :=
  let r := s.openUpload tenant id
  (match r.1 with
    | .error e => .error e
    | .ok upload => checkManifest settings upload (s.partsOf id) body.parts, r.2)

/-- The last transaction of `complete`. -/
def finish (s : Store) (tenant id : Bytes) (sha256 : Option Bytes) : Except Exn Unit × Store :=
  match s.getUpload tenant id with
  | .error e => (.error e, s)
  | .ok upload =>
    match s.ingestions.lookup upload.ingestionID with
    | none => (.error .other, s)
    | some ing =>
      match ing.recordTransition .queued { payloadValid := true } with
      | .error _ => (.error (.conflict "illegal transition"), s)
      | .ok ing' =>
        (.ok (),
          { s with
            uploads := s.uploads.insert id { upload with status := .completed, sha256 }
            ingestions := s.ingestions.insert upload.ingestionID ing' })

/-- The transaction of `abort`; the answer is the prefix. -/
def abort (s : Store) (tenant id : Bytes) : Except Exn Bytes × Store :=
  match s.getUpload tenant id with
  | .error e => (.error e, s)
  | .ok upload =>
    if upload.status ≠ .opened ∧ upload.status ≠ .expired then
      (.error (.conflict s!"upload is {upload.status.text}"), s)
    else (.ok upload.storagePrefix, s.setStatus upload .aborted)

/-- The transaction of `gc_expired`; the answer is the prefixes. -/
def gcExpired (s : Store) (tenant : Bytes) : List Bytes × Store :=
  let stale := s.uploads.values.filter fun u =>
    u.tenantID = tenant && u.status = .opened && u.expiresAt ≤ s.now
  (stale.map (·.storagePrefix),
    stale.foldl (fun s u => (s.setStatus u .expired).expireIngestion u.ingestionID) s)

end Store

/-! ## Commands -/

/-- A transaction, or a call of the object store. -/
inductive Cmd where
  | create (tenant : Bytes) (body : UploadCreate)
  | openUpload (tenant id : Bytes)
  | put (storagePrefix : Bytes) (n partSize : Nat) (content : Bytes)
  | delete (key : Key)
  | findPart (id : Bytes) (n : Nat)
  | move (src dst : Key)
  | insertPart (part : Part)
  /-- the row that won -/
  | getPart (id : Bytes) (n : Nat)
  | check (tenant id : Bytes) (body : UploadComplete)
  /-- a part of the upload is read -/
  | read (id : Bytes) (key : Key)
  | finish (tenant id : Bytes) (sha256 : Option Bytes)
  | abort (tenant id : Bytes)
  | deletePrefix (storagePrefix : Bytes)
  | gcExpired (tenant : Bytes)

/-- What a command answers. -/
abbrev Cmd.Ans : Cmd → Type
  | .openUpload _ _ => Upload
  | .put _ _ _ _ => Key × Option PutResult
  | .findPart _ _ => Option Part
  | .insertPart _ => Bool
  | .getPart _ _ => Part
  | .check _ _ _ => List Key
  | .read _ _ => Bytes
  | .abort _ _ => Bytes
  | .gcExpired _ => List Bytes
  | _ => Unit

/-- The outcome of looking something up. -/
def found {α : Type} : Option α → Except Exn α
  | some a => .ok a
  | none => .error .other

/-- What a command does. -/
def effect (settings : Settings) (sha256 : Bytes → Bytes) :
    (o : Cmd) → Store → Except Exn o.Ans × Store
  | .create tenant body, s => s.create settings tenant body
  | .openUpload tenant id, s => s.openUpload tenant id
  | .put storagePrefix n partSize content, s =>
    let r := s.put sha256 storagePrefix n partSize content
    (.ok r.1, r.2)
  | .delete key, s => (.ok (), s.delete key)
  | .findPart id n, s => (.ok (s.findPart id n), s)
  | .move src dst, s => s.move src dst
  | .insertPart part, s =>
    let r := s.insertPart part
    (.ok r.1, r.2)
  | .getPart id n, s => (found (s.findPart id n), s)
  | .check tenant id body, s => s.check settings tenant id body
  | .read _ key, s => (found (s.objects.lookup key), s)
  | .finish tenant id sha256, s => s.finish tenant id sha256
  | .abort tenant id, s => s.abort tenant id
  | .deletePrefix storagePrefix, s => (.ok (), s.deletePrefix storagePrefix)
  | .gcExpired tenant, s =>
    let r := s.gcExpired tenant
    (.ok r.1, r.2)

/-! ## Programs -/

/-- What a call answers. -/
inductive Answer where
  | created
  | part (n : Nat) (etag : Bytes) (size : Nat)
  | completed
  | aborted
  | expired (count : Nat)
  deriving DecidableEq

/-- A program of the service. -/
abbrev Prog (α : Type) : Type := Await Cmd Cmd.Ans Exn α

/-- One command. -/
def perform (o : Cmd) : Prog o.Ans := ask o

/-- `str.lower` of a hexadecimal text. -/
def lower (s : Bytes) : Bytes := s.map Ingestions.lowerDigit

/-- BR-8: a duplicate is answered with the row that is there. -/
def duplicate (existing : Part) (result : PutResult) : Prog Answer :=
  if existing.etag = result.etag then pure (.part existing.n existing.etag existing.size)
  else raise (.conflict "part already uploaded with a different etag")

/-- The bytes are in their place: the row is inserted. -/
def confirm (upload : Upload) (n : Nat) (result : PutResult) : Prog Answer := do
  let inserted ← perform (.insertPart
    { uploadID := upload.id
      n
      tenantID := upload.tenantID
      etag := result.etag
      size := result.size
      storageKey := .part upload.storagePrefix n })
  if inserted then pure (.part n result.etag result.size)
  else
    let existing ← perform (.getPart upload.id n)
    duplicate existing result

/-- No row was found: the bytes are moved to their place. -/
def settle (upload : Upload) (n : Nat) (key : Key) (result : PutResult) : Prog Answer := do
  perform (.move key (.part upload.storagePrefix n))
  confirm upload n result

/-- The bytes are staged. -/
def place (upload : Upload) (n : Nat) (key : Key) (result : PutResult) : Prog Answer := do
  let existing ← perform (.findPart upload.id n)
  match existing with
  | some existing => do
      perform (.delete key)
      duplicate existing result
  | none => settle upload n key result

/-- The body is received, unless it was over the size of a part. -/
def received (upload : Upload) (n : Nat) (contentSha256 : Bytes) (key : Key) :
    Option PutResult → Prog Answer
  | none => do
      perform (.delete key)
      raise (.payloadTooLarge "part exceeds part_size")
  | some result =>
    if contentSha256 ≠ [] ∧ lower contentSha256 ≠ result.etag then do
      perform (.delete key)
      raise (.checksumMismatch "part checksum mismatch")
    else place upload n key result

/-- The upload is open. -/
def receive (upload : Upload) (n : Nat) (content contentSha256 : Bytes) : Prog Answer := do
  let put ← perform (.put upload.storagePrefix n upload.partSize content)
  received upload n contentSha256 put.1 put.2

/-- `put_part`. -/
def putPart (tenant id : Bytes) (n : Nat) (content contentSha256 : Bytes) : Prog Answer :=
  if n < 1 then raise (.validationFailed "invalid part number")
  else do
    let upload ← perform (.openUpload tenant id)
    receive upload n content contentSha256

/-- The parts one after the other, after what was read. -/
def readAll (id : Bytes) : List Key → Bytes → Prog Bytes
  | [], content => pure content
  | key :: keys, content => do
      let chunk ← perform (.read id key)
      readAll id keys (content ++ chunk)

/-- The keys are known: the checksum is verified, and the upload is completed. -/
def verify (sha256 : Bytes → Bytes) (tenant id expected : Bytes) (keys : List Key)
    (content : Bytes) :
    Prog Answer := do
  let content ← readAll id keys content
  if sha256 content ≠ expected then raise (.checksumMismatch "file sha256 mismatch")
  else do
    perform (.finish tenant id (some expected))
    pure .completed

/-- `complete`, without the run that it may begin. -/
def complete (sha256 : Bytes → Bytes) (tenant id : Bytes) (body : UploadComplete) :
    Prog Answer := do
  let keys ← perform (.check tenant id body)
  if body.sha256 = [] then do
    perform (.finish tenant id none)
    pure .completed
  else verify sha256 tenant id (lower body.sha256) keys []

/-- `abort`. -/
def abort (tenant id : Bytes) : Prog Answer := do
  let storagePrefix ← perform (.abort tenant id)
  perform (.deletePrefix storagePrefix)
  pure .aborted

def deletePrefixes : List Bytes → Prog Unit
  | [] => pure ()
  | storagePrefix :: rest => do
      perform (.deletePrefix storagePrefix)
      deletePrefixes rest

/-- `gc_expired`. -/
def gcExpired (tenant : Bytes) : Prog Answer := do
  let prefixes ← perform (.gcExpired tenant)
  deletePrefixes prefixes
  pure (.expired prefixes.length)

/-! ## Calls -/

/-- A request to the service. -/
inductive Call where
  | create (tenant : Bytes) (body : UploadCreate)
  | putPart (tenant id : Bytes) (n : Nat) (content contentSha256 : Bytes)
  | complete (tenant id : Bytes) (body : UploadComplete)
  | abort (tenant id : Bytes)
  | gcExpired (tenant : Bytes)
  deriving DecidableEq

def program (sha256 : Bytes → Bytes) : Call → Prog Answer
  | .create tenant body => do
      perform (.create tenant body)
      pure .created
  | .putPart tenant id n content contentSha256 => putPart tenant id n content contentSha256
  | .complete tenant id body => complete sha256 tenant id body
  | .abort tenant id => abort tenant id
  | .gcExpired tenant => gcExpired tenant

/-- What happens besides the calls: time passes, and ingestions are created and move on. -/
inductive Outside where
  | pass (time : Nat)
  | setIngestion (id : Bytes) (ing : Ingestions.Ingestion)

def outside : Outside → Store → Store
  | .pass time, s => { s with now := s.now + time }
  | .setIngestion id ing, s => { s with ingestions := s.ingestions.insert id ing }

/-- The calls under way. -/
abbrev Calls : Type := Pool Store Nat Call Cmd Cmd.Ans Exn Answer

/-- One move of the service. -/
abbrev step (settings : Settings) (sha256 : Bytes → Bytes) :
    Calls → Move Nat Call Exn Outside → Calls :=
  Pool.step (program sha256) (effect settings sha256) outside

end Windrose.Uploads

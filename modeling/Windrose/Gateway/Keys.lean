/-
  Gateway/Keys.lean --- virtual keys and their caches.

  Source: services/ai-gateway/app/domain/keys.py (KeyService) and store/sql.py
  (SqlKeyRepo, SqlUnitOfWork).

  Any number of processes serve calls over one table; each has a cache of its own.  A
  unit of work reads rows, changes its copies of them, and writes them back when it
  commits: `update` loads the row again and then writes the columns in which the copy
  differs from what it loaded.  A row read before is still at hand for that if the
  identity map has kept it (`collected` says that it has not), and then it is not read
  again.  A write holds its row until the commit, so the writes of a unit of work are one
  step at its commit; it fails as a whole when a hash is taken.

  Messages to other processes are no operation: a process may clear entries of its cache
  at any time, or never.
-/
import Windrose.Foundation.Await
import Windrose.Foundation.Holds
import Windrose.Gateway.Domain

set_option autoImplicit false

namespace Windrose.Gateway

open Windrose.Foundation

variable {π : Type}

/-! ## The table and the caches -/

/-- A copy of a row and what `update` loaded. -/
structure KeyWrite where
  key : VirtualKey
  base : VirtualKey
  deriving DecidableEq

/-- The columns that differ, over the row. -/
def KeyWrite.onto (w : KeyWrite) (row : VirtualKey) : VirtualKey :=
  { id := row.id
    tenantID := if w.key.tenantID = w.base.tenantID then row.tenantID else w.key.tenantID
    keyHash := if w.key.keyHash = w.base.keyHash then row.keyHash else w.key.keyHash
    principalType :=
      if w.key.principalType = w.base.principalType then row.principalType else w.key.principalType
    principalID :=
      if w.key.principalID = w.base.principalID then row.principalID else w.key.principalID
    allowedRequestClasses :=
      if w.key.allowedRequestClasses = w.base.allowedRequestClasses then row.allowedRequestClasses
      else w.key.allowedRequestClasses
    maxRung := if w.key.maxRung = w.base.maxRung then row.maxRung else w.key.maxRung
    expiresAt := if w.key.expiresAt = w.base.expiresAt then row.expiresAt else w.key.expiresAt
    status := if w.key.status = w.base.status then row.status else w.key.status
    createdAt := if w.key.createdAt = w.base.createdAt then row.createdAt else w.key.createdAt
    updatedAt := if w.key.updatedAt = w.base.updatedAt then row.updatedAt else w.key.updatedAt }

/-- The clock, `virtual_keys`, the caches, and the commits that revoked a key. -/
structure KeyStore (π : Type) where
  now : Int
  rows : Dict Bytes VirtualKey
  /-- `_cache`: by hash, a key and when it was cached -/
  caches : π → Dict Bytes (VirtualKey × Int)
  collected : Bool
  revokedAt : List (Bytes × Int)

namespace KeyStore

def init (now : Int) : KeyStore π :=
  { now, rows := ∅, caches := fun _ => ∅, collected := true, revokedAt := [] }

/-- Another key has the hash. -/
def taken (s : KeyStore π) (key : VirtualKey) : Bool :=
  s.rows.values.any fun row => row.keyHash = key.keyHash && row.id ≠ key.id

/-- A row that the tenant sees. -/
def visible (s : KeyStore π) (tenant keyID : Bytes) : Option VirtualKey :=
  (s.rows.lookup keyID).filter fun row => row.tenantID = tenant

/-- One row of a unit of work. -/
def write (s : KeyStore π) (w : KeyWrite) : Except Exn (KeyStore π) :=
  match s.rows.lookup w.key.id with
  | none => .ok s
  | some row =>
    if s.taken (w.onto row) then .error .exception
    else .ok
      { s with
        rows := s.rows.insert w.key.id (w.onto row)
        revokedAt :=
          if w.key.status = .revoked then s.revokedAt ++ [(w.key.id, s.now)] else s.revokedAt }

end KeyStore

/-- What `_on_invalidate` is told. -/
inductive InvalidationKind where
  | key
  | tenantKeys
  deriving DecidableEq

/-- The operations. -/
inductive KeyCmd (π : Type) where
  | now
  | cacheGet (p : π) (keyHash : Bytes)
  | cachePut (p : π) (keyHash : Bytes) (key : VirtualKey) (cachedAt : Int)
  | getByHashAnyTenant (keyHash : Bytes)
  | get (tenant keyID : Bytes)
  | listActive (tenant : Bytes)
  /-- the `get` of `update` -/
  | load (tenant : Bytes) (read : VirtualKey)
  /-- the insert of `create`, and its commit -/
  | add (key : VirtualKey)
  | commit (writes : List KeyWrite)
  | publish (kind : InvalidationKind) (ref : Bytes)
  deriving DecidableEq

/-- What an operation answers. -/
abbrev KeyCmd.Ans : KeyCmd π → Type
  | .now => Int
  | .cacheGet _ _ => Option (VirtualKey × Int)
  | .cachePut _ _ _ _ => Unit
  | .getByHashAnyTenant _ => Option VirtualKey
  | .get _ _ => Option VirtualKey
  | .listActive _ => List VirtualKey
  | .load _ _ => Option VirtualKey
  | .add _ => Unit
  | .commit _ => Unit
  | .publish _ _ => Unit

/-- What an operation does. -/
def keyEffect [DecidableEq π] : (o : KeyCmd π) → KeyStore π → Except Exn o.Ans × KeyStore π
  | .now, s => (.ok s.now, s)
  | .cacheGet p keyHash, s => (.ok ((s.caches p).lookup keyHash), s)
  | .cachePut p keyHash key cachedAt, s =>
    (.ok (),
      { s with
        caches := Function.update s.caches p ((s.caches p).insert keyHash (key, cachedAt)) })
  | .getByHashAnyTenant keyHash, s =>
    (.ok (s.rows.values.find? fun row => row.keyHash = keyHash), s)
  | .get tenant keyID, s => (.ok (s.visible tenant keyID), s)
  | .listActive tenant, s =>
    (.ok (s.rows.values.filter fun row => row.tenantID = tenant && row.status = .active), s)
  | .load tenant read, s => (.ok (if s.collected then s.visible tenant read.id else some read), s)
  | .add key, s =>
    if key.id ∈ s.rows ∨ s.taken key then (.error .exception, s)
    else (.ok (), { s with rows := s.rows.insert key.id key })
  | .commit writes, s =>
    match writes.foldlM KeyStore.write s with
    | .ok s' => (.ok (), s')
    | .error e => (.error e, s)
  | .publish _ _, s => (.ok (), s)

/-- What happens besides the calls. -/
inductive KeyOutside (π : Type) where
  | advance (dt : Nat)
  /-- `_on_invalidate` -/
  | invalidate (p : π) (kind : InvalidationKind) (ref : Bytes)
  | collect (gone : Bool)
  deriving DecidableEq

def keyOutside [DecidableEq π] : KeyOutside π → KeyStore π → KeyStore π
  | .advance dt, s => { s with now := s.now + dt }
  | .invalidate p kind ref, s =>
    { s with
      caches := Function.update s.caches p
        ((s.caches p).filter fun _ entry =>
          match kind with
          | .key => entry.1.id ≠ ref
          | .tenantKeys => entry.1.tenantID ≠ ref) }
  | .collect gone, s => { s with collected := gone }

/-! ## KeyService -/

/-- The calls; a secret is drawn by its caller. -/
inductive KeyCall (π : Type) where
  | create (tenant keyID secret principalType principalID : Bytes)
      (allowedRequestClasses : List Bytes) (maxRung : Int) (ttlSeconds : Option Int)
      (expiresAt : Option Int)
  | rotate (tenant keyID secret : Bytes)
  | revoke (tenant keyID : Bytes)
  | revokeAllForTenant (tenant : Bytes)
  | authenticate (p : π) (secret : Bytes)
  deriving DecidableEq

/-- What they return; `authenticated` has the reading of the clock with it. -/
inductive KeyReply where
  | created (key : VirtualKey) (secret : Bytes)
  | rotated (key : VirtualKey) (secret : Bytes)
  | revoked (key : VirtualKey)
  | revokedAll (count : Nat)
  | authenticated (key : VirtualKey) (now : Int)
  deriving DecidableEq

/-- `_CACHE_TTL_SECONDS`, in microseconds. -/
def cacheTTL : Int := 30 * 1000000

def requestClasses : List Bytes := [bytes "chat", bytes "sql-gen", bytes "judge", bytes "embed"]

/-- A program of the service. -/
abbrev KeyProg (π α : Type) : Type := Await (KeyCmd π) KeyCmd.Ans Exn α

/-- One operation. -/
def askKeys (o : KeyCmd π) : KeyProg π o.Ans := Await.ask o

namespace KeyService

variable (sha256Hex : Bytes → Bytes)

/-- The new row of `create`. -/
def insert (tenant keyID secret principalType principalID : Bytes)
    (allowedRequestClasses : List Bytes) (maxRung : Int) (expiresAt : Option Int) :
    KeyProg π KeyReply := do
  let createdAt : Int ← askKeys .now
  let updatedAt : Int ← askKeys .now
  let key : VirtualKey :=
    { id := keyID, tenantID := tenant, keyHash := sha256Hex secret, principalType, principalID
      allowedRequestClasses, maxRung, expiresAt, status := .active, createdAt, updatedAt }
  let _ : Unit ← askKeys (.add key)
  pure (.created key secret)

/-- `create`. -/
def create (tenant keyID secret principalType principalID : Bytes)
    (allowedRequestClasses : List Bytes) (maxRung : Int) (ttlSeconds expiresAt : Option Int) :
    KeyProg π KeyReply :=
  let classes := if allowedRequestClasses = [] then requestClasses else allowedRequestClasses
  if classes.any (· ∉ requestClasses) then .raise (.app .validationFailed)
  else if principalType ∉ [bytes "user", bytes "agent", bytes "service"] then
    .raise (.app .validationFailed)
  else
    match ttlSeconds with
    | none => insert sha256Hex tenant keyID secret principalType principalID classes maxRung
      expiresAt
    | some ttl => do
        let now : Int ← askKeys .now
        insert sha256Hex tenant keyID secret principalType principalID classes maxRung
          (some (now + ttl * 1000000))

/-- `uow.keys.update`: the write, if there is a row. -/
def update (tenant : Bytes) (read key : VirtualKey) : KeyProg π (List KeyWrite) := do
  let base : Option VirtualKey ← askKeys (.load tenant read)
  pure (base.toList.map fun row => ⟨key, row⟩)

/-- `rotate`. -/
def rotate (tenant keyID secret : Bytes) : KeyProg π KeyReply := do
  let row : Option VirtualKey ← askKeys (.get tenant keyID)
  match row with
  | none => .raise (.app .notFound)
  | some read =>
    if read.status ≠ .active then .raise (.app .notFound)
    else
      let now : Int ← askKeys .now
      let key := { read with keyHash := sha256Hex secret, updatedAt := now }
      let writes ← update tenant read key
      let _ : Unit ← askKeys (.commit writes)
      let _ : Unit ← askKeys (.publish .key keyID)
      pure (.rotated key secret)

/-- `revoke`. -/
def revoke (tenant keyID : Bytes) : KeyProg π KeyReply := do
  let row : Option VirtualKey ← askKeys (.get tenant keyID)
  match row with
  | none => .raise (.app .notFound)
  | some read =>
    let now : Int ← askKeys .now
    let key := { read with status := .revoked, updatedAt := now }
    let writes ← update tenant read key
    let _ : Unit ← askKeys (.commit writes)
    let _ : Unit ← askKeys (.publish .key keyID)
    pure (.revoked key)

/-- The loop of `revoke_all_for_tenant`. -/
def revokeEach (tenant : Bytes) : List VirtualKey → List KeyWrite → KeyProg π (List KeyWrite)
  | [], writes => pure writes
  | read :: rest, writes => do
      let now : Int ← askKeys .now
      let key := { read with status := .revoked, updatedAt := now }
      let write ← update tenant read key
      revokeEach tenant rest (writes ++ write)

/-- `revoke_all_for_tenant`. -/
def revokeAllForTenant (tenant : Bytes) : KeyProg π KeyReply := do
  let keys : List VirtualKey ← askKeys (.listActive tenant)
  let writes ← revokeEach tenant keys []
  let _ : Unit ← askKeys (.commit writes)
  let _ : Unit ← askKeys (.publish .tenantKeys tenant)
  pure (.revokedAll keys.length)

/-- The checks at the end of `authenticate`. -/
def accept (key : Option VirtualKey) (now : Int) : KeyProg π KeyReply :=
  match key with
  | none => .raise (.app .keyInvalid)
  | some key =>
    if key.status ≠ .active then .raise (.app .keyInvalid)
    else if key.expiresAt.any (· ≤ now) then .raise (.app .keyInvalid)
    else pure (.authenticated key now)

/-- An active key goes into the cache. -/
def remember (p : π) (keyHash : Bytes) (key : VirtualKey) (now : Int) : KeyProg π KeyReply := do
  let _ : Unit ← askKeys (.cachePut p keyHash key now)
  accept (some key) now

/-- The lookup past the cache. -/
def lookup (p : π) (keyHash : Bytes) (now : Int) : KeyProg π KeyReply := do
  let key : Option VirtualKey ← askKeys (.getByHashAnyTenant keyHash)
  match key with
  | none => accept none now
  | some key => if key.status = .active then remember p keyHash key now else accept (some key) now

/-- The lookup in the cache. -/
def checkCache (p : π) (keyHash : Bytes) (now : Int) : KeyProg π KeyReply := do
  let cached : Option (VirtualKey × Int) ← askKeys (.cacheGet p keyHash)
  match cached with
  | none => lookup p keyHash now
  | some (key, cachedAt) =>
    if now - cachedAt < cacheTTL then accept (some key) now else lookup p keyHash now

/-- `authenticate`. -/
def authenticate (p : π) (secret : Bytes) : KeyProg π KeyReply := do
  if !(bytes "nk-").isPrefixOf secret then .raise (.app .keyInvalid)
  else
    let now : Int ← askKeys .now
    checkCache p (sha256Hex secret) now

/-- A call of the service. -/
def call : KeyCall π → KeyProg π KeyReply
  | .create tenant keyID secret principalType principalID classes maxRung ttl expiresAt =>
    create sha256Hex tenant keyID secret principalType principalID classes maxRung ttl expiresAt
  | .rotate tenant keyID secret => rotate sha256Hex tenant keyID secret
  | .revoke tenant keyID => revoke tenant keyID
  | .revokeAllForTenant tenant => revokeAllForTenant tenant
  | .authenticate p secret => authenticate sha256Hex p secret

end KeyService

end Windrose.Gateway

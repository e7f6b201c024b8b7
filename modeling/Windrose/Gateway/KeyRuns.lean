/-
  Gateway/KeyRuns.lean --- revocation over whole runs.

  Source: services/ai-gateway/app/domain/keys.py.

  A cache entry carries the time at which its call began, and its key was active after
  that.  A rotation can undo a revocation: it reads an active key, and if the key is revoked
  before its `update` loads the row again, the active status is a column that differs.
-/
import Windrose.Foundation.Digest
import Windrose.Foundation.Lexer
import Windrose.Gateway.Keys

set_option autoImplicit false

namespace Windrose.Gateway

open Windrose.Foundation

variable {ι π : Type}

/-- A run of the key service: calls at any number of processes, and time that passes. -/
abbrev KeyPool (ι π : Type) : Type :=
  Pool (KeyStore π) ι (KeyCall π) (KeyCmd π) KeyCmd.Ans Exn KeyReply

/-- A move of a run. -/
abbrev KeyMove (ι π : Type) : Type := Move ι (KeyCall π) Exn (KeyOutside π)

def keyStep [DecidableEq ι] [DecidableEq π] (sha256Hex : Bytes → Bytes) :
    KeyPool ι π → KeyMove ι π → KeyPool ι π :=
  Pool.step (KeyService.call sha256Hex) keyEffect keyOutside

/-- No call that begins 30 seconds or more after the commit of a revocation succeeds with a
secret of the key; `owner` says whose secret has a hash. -/
def RevocationFinal (sha256Hex owner : Bytes → Bytes) (w : KeyPool ι π) : Prop :=
  ∀ p secret key now, (.authenticate p secret, .ok (.authenticated key now)) ∈ w.log →
    ∀ t, (owner (sha256Hex secret), t) ∈ w.store.revokedAt → now < t + cacheTTL

/-- The keys that an operation writes. -/
def KeyCmd.written : KeyCmd π → List VirtualKey
  | .add key => [key]
  | .commit writes => writes.map (·.key)
  | _ => []

/-- A key is written with a hash of its own, and is not written back active over a row that
was loaded revoked. -/
def Preserves (owner : Bytes → Bytes) : KeyCmd π → Prop
  | .add key => owner key.keyHash = key.id
  | .commit writes => ∀ w ∈ writes,
      owner w.key.keyHash = w.key.id ∧ (w.key.status = .active → w.base.status = .active)
  | _ => True

instance (owner : Bytes → Bytes) (o : KeyCmd π) : Decidable (Preserves owner o) := by
  unfold Preserves
  split <;> infer_instance

/-! ## The invariant -/

variable {owner : Bytes → Bytes}

namespace KeyWrite

variable {w : KeyWrite} {row : VirtualKey}

theorem owner_onto {keyID : Bytes} (w : KeyWrite)
    (hkey : owner w.key.keyHash = keyID) (hrow : owner row.keyHash = keyID) :
    owner (w.onto row).keyHash = keyID := by
  unfold onto
  dsimp only
  split
  · exact hrow
  · exact hkey

/-- A revoked row stays revoked, unless an active copy differs from what was loaded. -/
theorem onto_revoked (w : KeyWrite) (hactive : w.key.status = .active → w.base.status = .active)
    (hrow : row.status = .revoked) : (w.onto row).status = .revoked := by
  unfold onto
  dsimp only
  split
  · exact hrow
  · next hne =>
    cases hkey : w.key.status with
    | revoked => rfl
    | active => exact absurd (hkey.trans (hactive hkey).symm) hne

theorem onto_revokes (w : KeyWrite) (hkey : w.key.status = .revoked)
    (hbase : w.base.status = .revoked → row.status = .revoked) :
    (w.onto row).status = .revoked := by
  unfold onto
  dsimp only
  split
  · next hsame => exact hbase (hsame.symm.trans hkey)
  · exact hkey

end KeyWrite

variable {o : KeyCmd π} {now : Int} {tenant : Bytes} {ws : List KeyWrite} {row : VirtualKey}

namespace KeyStore

/-- The row of the key is revoked. -/
def Revoked (s : KeyStore π) (keyID : Bytes) : Prop :=
  ∃ row, s.rows.lookup keyID = some row ∧ row.status = .revoked

/-- What a cache may say: the key has the hash, and was not revoked before. -/
structure Entry (owner : Bytes → Bytes) (s : KeyStore π) (keyHash : Bytes) (key : VirtualKey)
    (cachedAt : Int) : Prop where
  owner : owner keyHash = key.id
  past : cachedAt ≤ s.now
  before : ∀ t, (key.id, t) ∈ s.revokedAt → cachedAt ≤ t

/-- A call that began at this time may still succeed. -/
structure Timely (owner : Bytes → Bytes) (s : KeyStore π) (keyHash : Bytes) (now : Int) : Prop where
  past : now ≤ s.now
  before : ∀ t, (owner keyHash, t) ∈ s.revokedAt → now < t + cacheTTL

/-- The invariant of the store. -/
structure Sound (owner : Bytes → Bytes) (s : KeyStore π) : Prop where
  rows : ∀ keyID row, s.rows.lookup keyID = some row → row.id = keyID ∧ owner row.keyHash = keyID
  revoked : ∀ keyID t, (keyID, t) ∈ s.revokedAt → s.Revoked keyID
  caches : ∀ p keyHash key cachedAt, (s.caches p).lookup keyHash = some (key, cachedAt) →
    Entry owner s keyHash key cachedAt

/-- Time goes on, revocations come after it, and what is revoked stays revoked. -/
structure Later (s s' : KeyStore π) : Prop where
  now : s.now ≤ s'.now
  revokedAt : ∀ e ∈ s'.revokedAt, e ∈ s.revokedAt ∨ s.now ≤ e.2
  revoked : ∀ keyID, s.Revoked keyID → s'.Revoked keyID

variable {owner : Bytes → Bytes} {s s' s'' : KeyStore π} {keyHash : Bytes} {key : VirtualKey}
    {n : Int}

theorem Later.refl (s : KeyStore π) : Later s s := ⟨le_rfl, fun _ h => .inl h, fun _ h => h⟩

theorem Later.of_eq (hnow : s'.now = s.now) (hrows : s'.rows = s.rows)
    (hrevoked : s'.revokedAt = s.revokedAt) : Later s s' := by
  refine ⟨hnow.ge, fun e he => .inl (by rwa [hrevoked] at he), fun keyID hrev => ?_⟩
  obtain ⟨row, hrow, hstatus⟩ := hrev
  exact ⟨row, by rwa [hrows], hstatus⟩

theorem Later.trans (h : Later s s') (h' : Later s' s'') : Later s s'' := by
  refine ⟨h.now.trans h'.now, fun e he => ?_, fun keyID hrev =>
    h'.revoked keyID (h.revoked keyID hrev)⟩
  obtain he | ht := h'.revokedAt e he
  · exact h.revokedAt e he
  · exact .inr (h.now.trans ht)

theorem Entry.later (he : Entry owner s keyHash key n) (h : Later s s') :
    Entry owner s' keyHash key n := by
  refine ⟨he.owner, he.past.trans h.now, fun t ht => ?_⟩
  obtain ht | ht := h.revokedAt _ ht
  · exact he.before t ht
  · exact he.past.trans ht

theorem Timely.later (ht : Timely owner s keyHash n) (h : Later s s') :
    Timely owner s' keyHash n := by
  refine ⟨ht.past.trans h.now, fun t hmem => ?_⟩
  obtain hmem | hlate := h.revokedAt _ hmem
  · exact ht.before t hmem
  · have hpast := ht.past.trans hlate
    dsimp only at hpast
    unfold cacheTTL
    omega

theorem Entry.timely (he : Entry owner s keyHash key n) (hnow : now ≤ s.now)
    (hage : now - n < cacheTTL) : Timely owner s keyHash now := by
  refine ⟨hnow, fun t ht => ?_⟩
  rw [he.owner] at ht
  have hbefore := he.before t ht
  omega

theorem Sound.of_visible (h : Sound owner s) {keyID : Bytes}
    (hrow : s.visible tenant keyID = some row) :
    s.rows.lookup keyID = some row ∧ row.id = keyID := by
  unfold visible at hrow
  obtain ⟨hlookup, -⟩ := Option.filter_eq_some_iff.mp hrow
  exact ⟨hlookup, (h.rows keyID row hlookup).1⟩

theorem Sound.of_mem (h : Sound owner s) (hrow : row ∈ s.rows.values) :
    s.rows.lookup row.id = some row := by
  obtain ⟨keyID, hlookup⟩ := Dict.lookup_of_mem_values hrow
  rwa [(h.rows keyID row hlookup).1]

theorem Sound.insert (h : Sound owner s) (howner : owner row.keyHash = row.id) :
    ∀ keyID row', (s.rows.insert row.id row).lookup keyID = some row' →
      row'.id = keyID ∧ owner row'.keyHash = keyID := by
  intro keyID row' hlookup
  by_cases hid : keyID = row.id
  · subst hid
    rw [AList.lookup_insert] at hlookup
    obtain rfl := Option.some.inj hlookup
    exact ⟨rfl, howner⟩
  · rw [AList.lookup_insert_ne hid] at hlookup
    exact h.rows keyID row' hlookup

theorem Later.write {w : KeyWrite} (hactive : w.key.status = .active → w.base.status = .active)
    (hw : s.write w = .ok s') : Later s s' := by
  unfold KeyStore.write at hw
  split at hw
  · obtain rfl := Except.ok.inj hw
    exact Later.refl s
  · next row hrow =>
    split at hw
    · cases hw
    · obtain rfl := Except.ok.inj hw
      refine ⟨le_rfl, fun e he => ?_, fun keyID hrev => ?_⟩
      · dsimp only at he
        split at he
        · obtain he | he := List.mem_append.mp he
          · exact .inl he
          · rw [List.mem_singleton.mp he]
            exact .inr le_rfl
        · exact .inl he
      · obtain ⟨old, hold, hrevoked⟩ := hrev
        by_cases hkeyID : keyID = w.key.id
        · subst hkeyID
          obtain rfl := Option.some.inj (hrow.symm.trans hold)
          exact ⟨_, AList.lookup_insert _, w.onto_revoked hactive hrevoked⟩
        · exact ⟨old, (AList.lookup_insert_ne hkeyID).trans hold, hrevoked⟩

theorem Sound.write (h : Sound owner s) {w : KeyWrite} (howner : owner w.key.keyHash = w.key.id)
    (hactive : w.key.status = .active → w.base.status = .active)
    (hbase : w.base.status = .revoked → s.Revoked w.key.id) (hw : s.write w = .ok s') :
    Sound owner s' := by
  have hlater := Later.write hactive hw
  unfold KeyStore.write at hw
  split at hw
  · obtain rfl := Except.ok.inj hw
    exact h
  · next row hrow =>
    split at hw
    · cases hw
    · obtain rfl := Except.ok.inj hw
      obtain ⟨hid, hhash⟩ := h.rows w.key.id row hrow
      have hnewID : (w.onto row).id = w.key.id := hid
      refine ⟨?_, fun keyID t ht => ?_, fun p hash key at' hentry => ?_⟩
      · have hnewHash := w.owner_onto howner hhash
        have hrows := h.insert (hnewHash.trans hnewID.symm)
        rwa [hnewID] at hrows
      · dsimp only at ht
        split at ht
        · next hkey =>
          obtain ht | ht := List.mem_append.mp ht
          · exact hlater.revoked keyID (h.revoked keyID t ht)
          · obtain ⟨rfl, -⟩ := Prod.mk.inj (List.mem_singleton.mp ht)
            refine ⟨_, AList.lookup_insert _, w.onto_revokes hkey fun hrev => ?_⟩
            obtain ⟨row', hrow', hrevoked⟩ := hbase hrev
            obtain rfl := Option.some.inj (hrow.symm.trans hrow')
            exact hrevoked
        · exact hlater.revoked keyID (h.revoked keyID t ht)
      · exact (h.caches p hash key at' hentry).later hlater

theorem Later.writes (hws : ∀ w ∈ ws, w.key.status = .active → w.base.status = .active)
    (hfold : ws.foldlM KeyStore.write s = .ok s') : Later s s' := by
  induction ws generalizing s with
  | nil =>
    obtain rfl := Except.ok.inj hfold
    exact Later.refl s
  | cons w ws ih =>
    obtain ⟨s₁, hw, hfold⟩ := bind_eq_ok.mp hfold
    exact (Later.write (hws w (by simp)) hw).trans
      (ih (fun w' hw' => hws w' (List.mem_cons_of_mem w hw')) hfold)

theorem Sound.writes (h : Sound owner s) (hws : ∀ w ∈ ws, owner w.key.keyHash = w.key.id ∧
      (w.key.status = .active → w.base.status = .active))
    (hbase : ∀ w ∈ ws, w.base.status = .revoked → s.Revoked w.key.id)
    (hfold : ws.foldlM KeyStore.write s = .ok s') : Sound owner s' := by
  induction ws generalizing s with
  | nil =>
    obtain rfl := Except.ok.inj hfold
    exact h
  | cons w ws ih =>
    obtain ⟨s₁, hw, hfold⟩ := bind_eq_ok.mp hfold
    obtain ⟨howner, hactive⟩ := hws w (by simp)
    have hlater := Later.write hactive hw
    exact ih (h.write howner hactive (hbase w (by simp)) hw)
      (fun w' hw' => hws w' (List.mem_cons_of_mem w hw'))
      (fun w' hw' hrev => hlater.revoked _ (hbase w' (List.mem_cons_of_mem w hw') hrev)) hfold

/-- What an operation of a call may rely on: the revocations that its writes repeat have
taken place, and what it caches is an entry. -/
def Lawful (owner : Bytes → Bytes) (s : KeyStore π) : KeyCmd π → Prop
  | .commit ws => ∀ w ∈ ws, w.base.status = .revoked → s.Revoked w.key.id
  | .cachePut _ keyHash key cachedAt => Entry owner s keyHash key cachedAt
  | _ => True

variable [DecidableEq π]

theorem Later.effect (hp : Preserves owner o) : Later s (keyEffect o s).2 := by
  cases o with
  | add key =>
    simp only [keyEffect]
    split
    · exact Later.refl s
    · next hnew =>
      refine ⟨le_rfl, fun e he => .inl he, fun keyID hrev => ?_⟩
      obtain ⟨row, hrow, hrevoked⟩ := hrev
      have hne : keyID ≠ key.id := by
        intro hid
        subst hid
        exact (not_or.mp hnew).1 (AList.lookup_isSome.mp (by rw [hrow]; rfl))
      exact ⟨row, (AList.lookup_insert_ne hne).trans hrow, hrevoked⟩
  | commit ws =>
    simp only [keyEffect]
    cases hfold : ws.foldlM KeyStore.write s with
    | ok s' => exact Later.writes (fun w hw => (hp w hw).2) hfold
    | error e => exact Later.refl s
  | _ => exact Later.of_eq rfl rfl rfl

omit [DecidableEq π] in
theorem Sound.withCaches (h : Sound owner s) {caches : π → Dict Bytes (VirtualKey × Int)}
    (hcaches : ∀ p hash key at', (caches p).lookup hash = some (key, at') →
      (s.caches p).lookup hash = some (key, at') ∨ Entry owner s hash key at') :
    Sound owner { s with caches := caches } := by
  have hlater : Later s { s with caches := caches } := Later.of_eq rfl rfl rfl
  refine ⟨h.rows, h.revoked, fun p hash key at' hentry => ?_⟩
  obtain hold | he := hcaches p hash key at' hentry
  · exact (h.caches p hash key at' hold).later hlater
  · exact he.later hlater

theorem Sound.cachePut (h : Sound owner s) {p : π} (he : Entry owner s keyHash key n) :
    Sound owner (keyEffect (.cachePut p keyHash key n) s).2 := by
  refine h.withCaches fun q hash key' at' hentry => ?_
  by_cases hq : q = p
  · subst hq
    rw [Function.update_self] at hentry
    by_cases hhash : hash = keyHash
    · subst hhash
      rw [AList.lookup_insert] at hentry
      obtain ⟨rfl, rfl⟩ := Prod.mk.inj (Option.some.inj hentry)
      exact .inr he
    · rw [AList.lookup_insert_ne hhash] at hentry
      exact .inl hentry
  · rw [Function.update_of_ne hq] at hentry
    exact .inl hentry

theorem Sound.effect (h : Sound owner s) (hp : Preserves owner o)
    (hl : Lawful owner s o) : Sound owner (keyEffect o s).2 := by
  have hlater := Later.effect (s := s) hp
  cases o with
  | cachePut p keyHash key cachedAt => exact h.cachePut hl
  | add key =>
    simp only [keyEffect] at hlater ⊢
    split
    · exact h
    · next hnew =>
      rw [if_neg hnew] at hlater
      exact ⟨h.insert hp, fun keyID t ht => hlater.revoked keyID (h.revoked keyID t ht),
        fun p hash key at' hentry => (h.caches p hash key at' hentry).later hlater⟩
  | commit ws =>
    simp only [keyEffect]
    cases hfold : ws.foldlM KeyStore.write s with
    | ok s' => exact h.writes hp hl hfold
    | error e => exact h
  | _ => exact h

theorem Later.outside (t : KeyOutside π) : Later s (keyOutside t s) := by
  cases t with
  | advance dt =>
    refine ⟨?_, fun e he => .inl he, fun _ hrev => hrev⟩
    show s.now ≤ s.now + dt
    omega
  | _ => exact Later.of_eq rfl rfl rfl

theorem Sound.outside (h : Sound owner s) (t : KeyOutside π) : Sound owner (keyOutside t s) := by
  have hlater := Later.outside (s := s) t
  cases t with
  | invalidate p kind ref =>
    refine h.withCaches fun q hash key' at' hentry => .inl ?_
    by_cases hq : q = p
    · subst hq
      rw [Function.update_self] at hentry
      exact Dict.lookup_of_filter hentry
    · rwa [Function.update_of_ne hq] at hentry
  | _ => exact ⟨h.rows, h.revoked, fun p hash key at' hentry =>
    (h.caches p hash key at' hentry).later hlater⟩

end KeyStore

/-! ## The calls that write -/

/-- What an operation needs to know is revoked, with the ids that are known to be. -/
def Obliged (known : List Bytes) : KeyCmd π → Prop
  | .commit ws => ∀ w ∈ ws, w.base.status = .revoked → w.key.id ∈ known
  | .load _ read => read.status = .revoked → read.id ∈ known
  | .cachePut _ _ _ _ => False
  | _ => True

/-- The ids that an answer shows to be revoked. -/
def learned : (o : KeyCmd π) → o.Ans → List Bytes
  | .get _ _, row => (row.toList.filter (·.status = .revoked)).map (·.id)
  | .listActive _, rows => (rows.filter (·.status = .revoked)).map (·.id)
  | .load _ read, base => (base.toList.filter (·.status = .revoked)).map fun _ => read.id
  | _, _ => []

/-- The program repeats only revocations that it knows of, and leaves the caches alone. -/
def Keeps : List Bytes → KeyProg π KeyReply → Prop
  | _, .done _ => True
  | _, .raise _ => True
  | known, .await o k =>
    Obliged known o ∧ (∀ e, Keeps known (k (.error e))) ∧
      ∀ a, Keeps (learned o a ++ known) (k (.ok a))

variable {key : VirtualKey}

section Keeps

variable {known : List Bytes}

theorem keeps_ask {f : o.Ans → KeyProg π KeyReply} (ho : Obliged known o)
    (hf : ∀ a, Keeps (learned o a ++ known) (f a)) : Keeps known (askKeys o >>= f) :=
  ⟨ho, fun _ => trivial, hf⟩

theorem keeps_update {read : VirtualKey} {f : List KeyWrite → KeyProg π KeyReply}
    (hread : read.status = .revoked → read.id ∈ known) (hid : key.id = read.id)
    (hf : ∀ ws more, known ⊆ more → (∀ w ∈ ws, w.base.status = .revoked → w.key.id ∈ more) →
      Keeps more (f ws)) : Keeps known (KeyService.update tenant read key >>= f) := by
  unfold KeyService.update
  rw [Await.bind_bind]
  refine keeps_ask hread fun base => ?_
  refine hf _ _ (List.subset_append_right _ _) fun w hw hrev => ?_
  obtain ⟨row, hrow, rfl⟩ := List.mem_map.mp hw
  apply List.mem_append_left
  exact List.mem_map.mpr ⟨row, List.mem_filter.mpr ⟨hrow, decide_eq_true hrev⟩, hid.symm⟩

theorem keeps_rotate (sha256Hex : Bytes → Bytes) (tenant keyID secret : Bytes) :
    Keeps known (KeyService.rotate sha256Hex tenant keyID secret : KeyProg π KeyReply) := by
  refine keeps_ask trivial fun row => ?_
  cases row with
  | none => exact trivial
  | some read =>
    dsimp only
    split
    · exact trivial
    · next hactive =>
      refine keeps_ask trivial fun now => ?_
      have hread : read.status = .revoked → ∀ known : List Bytes, read.id ∈ known := by
        intro hrev
        exact absurd (not_not.mp hactive) (by rw [hrev]; decide)
      exact keeps_update (fun hrev => hread hrev _) rfl fun ws more _ hws =>
        keeps_ask hws fun _ => keeps_ask trivial fun _ => trivial

theorem keeps_revoke (tenant keyID : Bytes) :
    Keeps known (KeyService.revoke tenant keyID : KeyProg π KeyReply) := by
  refine keeps_ask trivial fun row => ?_
  cases row with
  | none => exact trivial
  | some read =>
    refine keeps_ask trivial fun now => ?_
    refine keeps_update (fun hrev => ?_) rfl fun ws more _ hws =>
      keeps_ask hws fun _ => keeps_ask trivial fun _ => trivial
    apply List.mem_append_right
    apply List.mem_append_left
    exact List.mem_map_of_mem (List.mem_filter.mpr ⟨by simp, decide_eq_true hrev⟩)

theorem keeps_revokeEach {f : List KeyWrite → KeyProg π KeyReply} {reads : List VirtualKey}
    (hreads : ∀ read ∈ reads, read.status = .revoked → read.id ∈ known)
    (hws : ∀ w ∈ ws, w.base.status = .revoked → w.key.id ∈ known)
    (hf : ∀ ws more, (∀ w ∈ ws, w.base.status = .revoked → w.key.id ∈ more) → Keeps more (f ws)) :
    Keeps known (KeyService.revokeEach tenant reads ws >>= f) := by
  induction reads generalizing known ws with
  | nil => exact hf ws known hws
  | cons read reads ih =>
    unfold KeyService.revokeEach
    rw [Await.bind_bind]
    refine keeps_ask trivial fun now => ?_
    rw [Await.bind_bind]
    refine keeps_update (hreads read (by simp)) rfl fun write more hmore hwrite => ?_
    refine ih (fun r hr hrev => hmore (hreads r (List.mem_cons_of_mem read hr) hrev))
      fun w hw hrev => ?_
    obtain hw | hw := List.mem_append.mp hw
    · exact hmore (hws w hw hrev)
    · exact hwrite w hw hrev

theorem keeps_revokeAllForTenant (tenant : Bytes) :
    Keeps known (KeyService.revokeAllForTenant tenant : KeyProg π KeyReply) := by
  refine keeps_ask trivial fun rows => ?_
  refine keeps_revokeEach (fun read hread hrev => ?_) (by simp) fun ws more hws =>
    keeps_ask hws fun _ => keeps_ask trivial fun _ => trivial
  apply List.mem_append_left
  exact List.mem_map_of_mem (List.mem_filter.mpr ⟨hread, decide_eq_true hrev⟩)

theorem keeps_insert (sha256Hex : Bytes → Bytes)
    (tenant keyID secret principalType principalID : Bytes)
    (classes : List Bytes) (maxRung : Int) (expiresAt : Option Int) :
    Keeps known (KeyService.insert sha256Hex tenant keyID secret principalType principalID classes
      maxRung expiresAt : KeyProg π KeyReply) :=
  keeps_ask trivial fun _ => keeps_ask trivial fun _ => keeps_ask trivial fun _ => trivial

theorem keeps_create (sha256Hex : Bytes → Bytes)
    (tenant keyID secret principalType principalID : Bytes)
    (classes : List Bytes) (maxRung : Int) (ttl expiresAt : Option Int) :
    Keeps known (KeyService.create sha256Hex tenant keyID secret principalType principalID classes
      maxRung ttl expiresAt : KeyProg π KeyReply) := by
  unfold KeyService.create
  generalize (if classes = [] then requestClasses else classes) = granted
  dsimp only
  split
  · exact trivial
  · split
    · exact trivial
    · cases ttl with
      | none => exact keeps_insert ..
      | some ttl => exact keeps_ask trivial fun now => keeps_insert ..

end Keeps

theorem Obliged.lawful {s : KeyStore π} {known : List Bytes}
    (h : Obliged known o) (hknown : ∀ keyID ∈ known, s.Revoked keyID) : s.Lawful owner o := by
  cases o with
  | commit ws => exact fun w hw hrev => hknown _ (h w hw hrev)
  | cachePut p keyHash key cachedAt => exact h.elim
  | _ => exact trivial

theorem revoked_of_learned [DecidableEq π] {s : KeyStore π}
    (hs : s.Sound owner) {known : List Bytes} (ho : Obliged known o)
    (hknown : ∀ keyID ∈ known, s.Revoked keyID) {a : o.Ans} (ha : (keyEffect o s).1 = .ok a) :
    ∀ keyID ∈ learned o a, s.Revoked keyID := by
  intro keyID hmem
  cases o with
  | get tenant id =>
    obtain rfl := Except.ok.inj ha
    obtain ⟨row, hrow, rfl⟩ := List.mem_map.mp hmem
    obtain ⟨hrow, hrev⟩ := List.mem_filter.mp hrow
    obtain ⟨hlookup, hid⟩ := hs.of_visible (Option.mem_toList.mp hrow)
    exact ⟨row, by rwa [hid], of_decide_eq_true hrev⟩
  | listActive tenant =>
    obtain rfl := Except.ok.inj ha
    obtain ⟨row, hrow, rfl⟩ := List.mem_map.mp hmem
    obtain ⟨hrow, hrev⟩ := List.mem_filter.mp hrow
    exact ⟨row, hs.of_mem (List.mem_filter.mp hrow).1, of_decide_eq_true hrev⟩
  | load tenant read =>
    obtain rfl := Except.ok.inj ha
    obtain ⟨base, hbase, rfl⟩ := List.mem_map.mp hmem
    obtain ⟨hbase, hrev⟩ := List.mem_filter.mp hbase
    rw [Option.mem_toList] at hbase
    split at hbase
    · exact ⟨base, (hs.of_visible hbase).1, of_decide_eq_true hrev⟩
    · obtain rfl := Option.some.inj hbase
      exact hknown _ (ho (of_decide_eq_true hrev))
  | _ => cases hmem

/-! ## The calls that authenticate -/

/-- Where a call of `authenticate` may be. -/
inductive AuthAt (sha256Hex owner : Bytes → Bytes) (p : π) (secret : Bytes) (s : KeyStore π) :
    KeyProg π KeyReply → Prop
  | started : AuthAt sha256Hex owner p secret s (KeyService.authenticate sha256Hex p secret)
  | checking {now : Int} (hnow : now ≤ s.now) :
      AuthAt sha256Hex owner p secret s (KeyService.checkCache p (sha256Hex secret) now)
  | looking {now : Int} (hnow : now ≤ s.now) :
      AuthAt sha256Hex owner p secret s (KeyService.lookup p (sha256Hex secret) now)
  | remembering {key : VirtualKey} {now : Int}
      (hentry : s.Entry owner (sha256Hex secret) key now) :
      AuthAt sha256Hex owner p secret s (KeyService.remember p (sha256Hex secret) key now)
  | failed {e : Exn} : AuthAt sha256Hex owner p secret s (.raise e)
  | accepted {key : VirtualKey} {now : Int} (htimely : s.Timely owner (sha256Hex secret) now) :
      AuthAt sha256Hex owner p secret s (.done (.authenticated key now))

section AuthAt

variable {sha256Hex owner : Bytes → Bytes} {p : π} {secret : Bytes} {s s' : KeyStore π}
  {prog : KeyProg π KeyReply}

theorem AuthAt.later (h : AuthAt sha256Hex owner p secret s prog) (hlater : s.Later s') :
    AuthAt sha256Hex owner p secret s' prog := by
  cases h with
  | started => exact .started
  | checking hnow => exact .checking (hnow.trans hlater.now)
  | looking hnow => exact .looking (hnow.trans hlater.now)
  | remembering hentry => exact .remembering (hentry.later hlater)
  | failed => exact .failed
  | accepted htimely => exact .accepted (htimely.later hlater)

theorem AuthAt.timely (h : AuthAt sha256Hex owner p secret s (.done (.authenticated key now))) :
    s.Timely owner (sha256Hex secret) now := by
  generalize hprog : Await.done (KeyReply.authenticated key now) = prog at h
  cases h with
  | started =>
    unfold KeyService.authenticate at hprog
    split at hprog <;> cases hprog
  | checking hnow => cases hprog
  | looking hnow => cases hprog
  | remembering hentry => cases hprog
  | failed => cases hprog
  | accepted htimely =>
    cases hprog
    exact htimely

theorem AuthAt.accept {key : Option VirtualKey}
    (htimely : ∀ k, key = some k → k.status = .active → s.Timely owner (sha256Hex secret) now) :
    AuthAt sha256Hex owner p secret s (KeyService.accept key now) := by
  unfold KeyService.accept
  split
  · exact .failed
  · next k =>
    split
    · exact .failed
    · next hactive =>
      split
      · exact .failed
      · exact .accepted (htimely k rfl (not_not.mp hactive))

theorem entry_of_find {keyHash : Bytes} (hs : s.Sound owner)
    (hnow : now ≤ s.now) (hfind : s.rows.values.find? (fun row => row.keyHash = keyHash) = some key)
    (hactive : key.status = .active) : s.Entry owner keyHash key now := by
  have hhash : key.keyHash = keyHash := by simpa using List.find?_some hfind
  have hlookup := hs.of_mem (List.mem_of_find?_eq_some hfind)
  refine ⟨hhash ▸ (hs.rows key.id key hlookup).2, hnow, fun t ht => ?_⟩
  obtain ⟨row, hrow, hrevoked⟩ := hs.revoked key.id t ht
  obtain rfl := Option.some.inj (hlookup.symm.trans hrow)
  rw [hactive] at hrevoked
  cases hrevoked

variable {o : KeyCmd π} {k : Except Exn o.Ans → KeyProg π KeyReply}

theorem AuthAt.fail (h : AuthAt sha256Hex owner p secret s (.await o k)) (e : Exn) :
    AuthAt sha256Hex owner p secret s (k (.error e)) := by
  generalize hprog : Await.await o k = prog at h
  cases h with
  | started =>
    unfold KeyService.authenticate at hprog
    split at hprog
    · cases hprog
    · cases hprog
      exact .failed
  | checking hnow =>
    cases hprog
    exact .failed
  | looking hnow =>
    cases hprog
    exact .failed
  | remembering hentry =>
    cases hprog
    exact .failed
  | failed => cases hprog
  | accepted htimely => cases hprog

theorem AuthAt.next [DecidableEq π] (h : AuthAt sha256Hex owner p secret s (.await o k))
    (hs : s.Sound owner) : s.Lawful owner o ∧
      AuthAt sha256Hex owner p secret s (k (keyEffect o s).1) := by
  generalize hprog : Await.await o k = prog at h
  cases h with
  | started =>
    unfold KeyService.authenticate at hprog
    split at hprog
    · cases hprog
    · cases hprog
      exact ⟨trivial, .checking le_rfl⟩
  | @checking now hnow =>
    cases hprog
    refine ⟨trivial, ?_⟩
    simp only [keyEffect]
    cases hcached : (s.caches p).lookup (sha256Hex secret) with
    | none => exact .looking hnow
    | some entry =>
      show AuthAt sha256Hex owner p secret s
        (if now - entry.2 < cacheTTL then KeyService.accept (some entry.1) now
          else KeyService.lookup p (sha256Hex secret) now)
      split
      · next hage =>
        exact .accept fun _ _ _ => (hs.caches p _ entry.1 entry.2 hcached).timely hnow hage
      · exact .looking hnow
  | @looking now hnow =>
    cases hprog
    refine ⟨trivial, ?_⟩
    simp only [keyEffect]
    cases hfind : s.rows.values.find? (fun row => row.keyHash = sha256Hex secret) with
    | none =>
      show AuthAt sha256Hex owner p secret s (KeyService.accept none now)
      exact .accept fun _ hkey => by cases hkey
    | some key =>
      show AuthAt sha256Hex owner p secret s
        (if key.status = .active then KeyService.remember p (sha256Hex secret) key now
          else KeyService.accept (some key) now)
      split
      · next hactive => exact .remembering (entry_of_find hs hnow hfind hactive)
      · next hactive =>
        apply AuthAt.accept
        intro k hkey hk
        obtain rfl := Option.some.inj hkey
        exact absurd hk hactive
  | @remembering key now hentry =>
    cases hprog
    have htimely : s.Timely owner (sha256Hex secret) now :=
      hentry.timely hentry.past (by unfold cacheTTL; omega)
    exact ⟨hentry, show AuthAt sha256Hex owner p secret s (KeyService.accept (some key) now) from
      .accept fun _ _ _ => htimely⟩
  | failed => cases hprog
  | accepted htimely => cases hprog

end AuthAt

/-! ## Whole runs -/

/-- What a call still has to do. -/
def KeyCallAt (sha256Hex owner : Bytes → Bytes) (c : KeyCall π) (prog : KeyProg π KeyReply)
    (s : KeyStore π) : Prop :=
  match c with
  | .authenticate p secret => AuthAt sha256Hex owner p secret s prog
  | _ => ∃ known, Keeps known prog ∧ ∀ keyID ∈ known, s.Revoked keyID

section Runs

variable {sha256Hex owner : Bytes → Bytes} {c : KeyCall π} {s s' : KeyStore π}

theorem keyCallAt_start (c : KeyCall π) (s : KeyStore π) :
    KeyCallAt sha256Hex owner c (KeyService.call sha256Hex c) s := by
  cases c with
  | authenticate p secret => exact .started
  | create => exact ⟨[], keeps_create .., by simp⟩
  | rotate => exact ⟨[], keeps_rotate .., by simp⟩
  | revoke => exact ⟨[], keeps_revoke .., by simp⟩
  | revokeAllForTenant => exact ⟨[], keeps_revokeAllForTenant _, by simp⟩

theorem KeyCallAt.later {prog : KeyProg π KeyReply} (h : KeyCallAt sha256Hex owner c prog s)
    (hlater : s.Later s') : KeyCallAt sha256Hex owner c prog s' := by
  cases c with
  | authenticate p secret => exact AuthAt.later h hlater
  | _ =>
    obtain ⟨known, hkeeps, hknown⟩ := h
    exact ⟨known, hkeeps, fun keyID hmem => hlater.revoked keyID (hknown keyID hmem)⟩

variable {o : KeyCmd π} {k : Except Exn o.Ans → KeyProg π KeyReply}

theorem KeyCallAt.fail (h : KeyCallAt sha256Hex owner c (.await o k) s) (e : Exn) :
    KeyCallAt sha256Hex owner c (k (.error e)) s := by
  cases c with
  | authenticate p secret => exact AuthAt.fail h e
  | _ =>
    obtain ⟨known, hkeeps, hknown⟩ := h
    exact ⟨known, hkeeps.2.1 e, hknown⟩

theorem KeyCallAt.next [DecidableEq π] (h : KeyCallAt sha256Hex owner c (.await o k) s)
    (hs : s.Sound owner) : s.Lawful owner o ∧
      KeyCallAt sha256Hex owner c (k (keyEffect o s).1) s := by
  cases c with
  | authenticate p secret => exact AuthAt.next h hs
  | _ =>
    obtain ⟨known, ⟨hobliged, herror, hok⟩, hknown⟩ := h
    refine ⟨hobliged.lawful hknown, ?_⟩
    cases hanswer : (keyEffect o s).1 with
    | error e => exact ⟨known, herror e, hknown⟩
    | ok a =>
      refine ⟨learned o a ++ known, hok a, fun keyID hmem => ?_⟩
      obtain hmem | hmem := List.mem_append.mp hmem
      · exact revoked_of_learned hs hobliged hknown hanswer keyID hmem
      · exact hknown keyID hmem

end Runs

section Final

variable [DecidableEq ι] [DecidableEq π]

/-- The operation of a move preserves what is revoked. -/
def MovePreserves (owner : Bytes → Bytes) (w : KeyPool ι π) (m : KeyMove ι π) : Prop :=
  ∀ o ∈ w.operation m, Preserves owner o

instance (owner : Bytes → Bytes) (w : KeyPool ι π) (m : KeyMove ι π) :
    Decidable (MovePreserves owner w m) :=
  inferInstanceAs (Decidable (∀ o ∈ w.operation m, Preserves owner o))

/-- **Revocation is final** in a run in which no unit of work writes an active status over a
row that it loaded revoked. -/
theorem revocation_final (sha256Hex owner : Bytes → Bytes) (now : Int) (ms : List (KeyMove ι π))
    (hms : Each (keyStep sha256Hex) (MovePreserves owner) (Pool.idle (.init now)) ms) :
    Always (keyStep sha256Hex) (RevocationFinal sha256Hex owner) (Pool.idle (.init now)) ms := by
  have hinit : (KeyStore.init now : KeyStore π).Sound owner :=
    ⟨fun _ _ h => (by cases h), nofun, fun _ _ _ _ h => (by cases h)⟩
  have hattended := Pool.run_attended (KeyService.call sha256Hex) keyEffect keyOutside
    (I := KeyStore.Sound owner) (T := KeyCallAt sha256Hex owner) (C := fun _ o => Preserves owner o)
    (fun c s _ => keyCallAt_start c s)
    (fun w o hs ho ⟨c, k, hc⟩ => hs.effect ho (hc.next hs).1)
    (fun w o _ ho c _ p h => h.later (KeyStore.Later.effect ho))
    (fun w o hs ho c _ k h => (h.next hs).2.later (KeyStore.Later.effect ho))
    (fun s c o k e h => h.fail e)
    (fun s t hs => ⟨hs.outside t, fun c p h => h.later (KeyStore.Later.outside t)⟩) hinit ms hms
  intro done hdone p secret key begun hmem t ht
  exact (((hattended done hdone).log _ _ hmem).2.timely).before t ht

end Final

/-! ## A rotation and a revocation -/

def sampleKeyID : Bytes := bytes "k-1"

def firstSecret : Bytes := bytes "nk-first"

def secondSecret : Bytes := bytes "nk-second"

/-- The digests of the two secrets. -/
def sampleDigest : Bytes → Bytes :=
  digestTable [
    (firstSecret, bytes "f3d0e2d64374ff6f5f9d88d8f8821fe3f17d293dbb1cf35e8fdb1e9de3cf8aee"),
    (secondSecret, bytes "8adc991978c479147c0dacf2313b058df7c10c04cc79993758a3c4dc7dace5b0")]

/-- All secrets are of one key. -/
def sampleOwner : Bytes → Bytes := fun _ => sampleKeyID

/-- The key is created. -/
def createMoves : List (KeyMove Nat Unit) :=
  [.start 0 (.create (bytes "t-1") sampleKeyID firstSecret (bytes "user") (bytes "u-1") []
    2 none none),
    .go 0, .go 0, .go 0]

/-- It is used and revoked, and 30 seconds pass. -/
def revokeMoves : List (KeyMove Nat Unit) :=
  createMoves ++
    [.start 1 (.authenticate () firstSecret), .go 1, .go 1, .go 1, .go 1,
      .start 2 (.revoke (bytes "t-1") sampleKeyID), .go 2, .go 2, .go 2, .go 2, .go 2,
      .other (.advance 30000000), .start 1 (.authenticate () firstSecret), .go 1, .go 1, .go 1]

theorem revocation_final_sample :
    (run (keyStep sampleDigest) (Pool.idle (.init 0)) revokeMoves).log.length = 4 ∧
      Always (keyStep sampleDigest) (RevocationFinal sampleDigest sampleOwner) (Pool.idle (.init 0))
        revokeMoves :=
  ⟨by decide,
    revocation_final sampleDigest sampleOwner 0 revokeMoves (by decide)⟩

/-- Every key is written with a hash of its own. -/
def Owned (owner : Bytes → Bytes) (w : KeyPool Nat Unit) (m : KeyMove Nat Unit) : Prop :=
  ∀ o ∈ w.operation m, ∀ key ∈ o.written, owner key.keyHash = key.id

instance (owner : Bytes → Bytes) (w : KeyPool Nat Unit) (m : KeyMove Nat Unit) :
    Decidable (Owned owner w m) :=
  inferInstanceAs (Decidable (∀ o ∈ w.operation m, ∀ key ∈ o.written, owner key.keyHash = key.id))

/-- A rotation reads the key, the key is revoked, and the rotation writes it back. -/
def raceMoves : List (KeyMove Nat Unit) :=
  createMoves ++
    [.start 1 (.rotate (bytes "t-1") sampleKeyID secondSecret), .go 1, .go 1,
      .start 2 (.revoke (bytes "t-1") sampleKeyID), .go 2, .go 2, .go 2, .go 2, .go 2,
      .go 1, .go 1, .go 1, .other (.advance 30000000),
      .start 3 (.authenticate () secondSecret), .go 3, .go 3, .go 3, .go 3]

theorem rotation_restores : ¬ ∀ ms : List (KeyMove Nat Unit),
      Each (keyStep sampleDigest) (Owned sampleOwner) (Pool.idle (.init 0)) ms →
        Always (keyStep sampleDigest) (RevocationFinal sampleDigest sampleOwner)
          (Pool.idle (.init 0)) ms := by
  intro h
  have hfinal := h raceMoves (by decide) raceMoves List.prefix_rfl
  have hlog : ∃ key, (.authenticate () secondSecret, .ok (.authenticated key 30000000)) ∈
      (run (keyStep sampleDigest) (Pool.idle (.init 0)) raceMoves).log :=
    ⟨⟨sampleKeyID, bytes "t-1", sampleDigest secondSecret, bytes "user", bytes "u-1",
      requestClasses,
      2, none, .active, 0, 0⟩, by decide⟩
  obtain ⟨key, hmem⟩ := hlog
  have hlate := hfinal () secondSecret key 30000000 hmem 0 (by decide)
  exact absurd hlate (by decide)

end Windrose.Gateway

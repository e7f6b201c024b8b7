/-
  Rbac/Drift.lean --- the verification of a projection against the snapshot.

  Source: services/rbac-service/internal/projection/verify.go (Verify, matches,
  sameSet) and redis.go (WriteUser).

  `verify` compares the projection of each user in Redis with the flattened
  snapshot and, on repair, writes it again.  The keys of one call are distinct, so
  the order in which the map of pairs is ranged over does not matter.  The loader
  returns a snapshot of the user it is asked for.

  A decision reads a few keys for one request.  `Current` is what the comparison
  leaves open about them, and `Mendable` what a repair needs to set them right.  Both
  are asked of the keys that the decision over the snapshot reads.
-/
import Mathlib.Data.Int.ConditionallyCompleteOrder
import Windrose.Rbac.Readings
import Windrose.Rbac.WriteUser
import Mathlib.Data.List.Perm.Subperm

set_option autoImplicit false

namespace Windrose.Rbac

open Windrose.Foundation

/-! ## The comparison -/

/-- `sameSet`. -/
def sameSet (a b : List Bytes) : Bool := a.length = b.length && b.all (· ∈ a)

theorem mem_iff_of_sameSet {a b : List Bytes} (h : sameSet a b = true) (hb : b.Nodup) (x : Bytes) :
    x ∈ a ↔ x ∈ b := by
  unfold sameSet at h
  rw [Bool.and_eq_true, decide_eq_true_iff, List.all_eq_true] at h
  have hsub : b ⊆ a := fun y hy => of_decide_eq_true (h.2 y hy)
  exact ((hb.subperm hsub).perm_of_length_le (Nat.le_of_eq h.1)).mem_iff.symm

/-- `matches`. -/
def matchesFlat (r : Reader Id) (want : Flat) : Bool :=
  match (r.tenantActions want.tenantID.text want.userID).run,
    (r.userFlags want.tenantID.text want.userID).run with
  | some actions, some flags =>
    sameSet actions want.tenantActions && flags.admin == want.flags.admin &&
      flags.wsAdmin.length == want.flags.wsAdmin.length &&
      want.workspaceActions.entries.all (fun p =>
        match (r.workspace want.tenantID.text want.userID p.1.text).run with
        | some got => got.archived == p.2.archived && sameSet got.actions p.2.actions
        | none => false) &&
      want.resources.entries.all fun p =>
        match (r.resource want.tenantID.text want.userID p.1).run with
        | some got => got.level = p.2.level && got.archived == p.2.archived
        | none => false
  | _, _ => false

/-- `WriteUser`, without another writer. -/
def writeUser (store : Store) (f : Flat) : Store :=
  let autonomous := tenantAutonomous store f.tenantID.text
  let oldKeys := readIndex store f.tenantID.text f.userID
  let store := (f.pairs autonomous).entries.foldl (fun st p => casSet st p.1 p.2 f.version) store
  let store := (oldKeys.filter (· ∉ f.subsidiary autonomous)).foldl
    (fun st k => casSet st k f.tomb f.version) store
  casSet store (keyIndex f.tenantID.text f.userID) (f.indexValue autonomous) f.version

/-- `VerifyResult`. -/
structure VerifyResult where
  tenantID : Bytes
  usersChecked : Nat
  driftedUsers : List Bytes
  repairedUsers : List Bytes

/-- What `LoadSnapshot` returns for a user. -/
abbrev SnapshotOf (tenant : Uuid) (user : Bytes) : Type :=
  { s : Snapshot // s.tenantID = tenant ∧ s.userID = user }

section Verify

variable (env : Ext) {tenant : Uuid}
  (loader : (user : Bytes) → Except Bytes (SnapshotOf tenant user)) (repair : Bool)

/-- The loop of `Verify`: the store, the result and the error it ends with. -/
def verifyUsers : List Bytes → Store × VerifyResult → (Store × VerifyResult) × Option Bytes
  | [], st => (st, none)
  | user :: users, (store, res) =>
    match loader user with
    | .error e => ((store, res), some (bytes "verify " ++ user ++ bytes ": " ++ e))
    | .ok snap =>
      let want := flatten env snap.1
      if matchesFlat (redisReader env store) want then verifyUsers users (store, res)
      else
        let res := { res with driftedUsers := res.driftedUsers ++ [user] }
        if repair then
          verifyUsers users
            (writeUser store want, { res with repairedUsers := res.repairedUsers ++ [user] })
        else verifyUsers users (store, res)

/-- `Verify`; `repair` says that a repair is asked for and there is a writer. -/
def verify (users : List Bytes) (store : Store) : (Store × VerifyResult) × Option Bytes :=
  verifyUsers env loader repair users (store, ⟨tenant.text, users.length, [], []⟩)

end Verify

/-! ## What a request reads -/

/-- The key of a reading. -/
def cellKey (env : Ext) (inp : Input) : Reading → Bytes
  | .catalog => catalogKey
  | .autonomousEnabled => keyTenantMeta inp.tenant
  | .userFlags => keyFlags inp.tenant inp.effectiveUser
  | .archivedWorkspaces => keyArchivedWs inp.tenant
  | .workspace => keyWorkspace inp.tenant inp.effectiveUser inp.workspaceID
  | .resource => keyResource inp.tenant inp.effectiveUser (urnHash env inp.resourceURN)
  | .tenantActions => keyActions inp.tenant inp.effectiveUser

namespace Snapshot

/-- The request is one of the user and the tenant of the snapshot. -/
def Asked (s : Snapshot) (inp : Input) : Prop :=
  inp.tenant = s.tenantID.text ∧ inp.effectiveUser = s.userID

/-- The entry that the snapshot has for the workspace of a request. -/
def entryOf (env : Ext) (s : Snapshot) (inp : Input) : Option WorkspaceEntry :=
  (env.parse inp.workspaceID).bind (s.workspaceActions.lookup ·)

section Readings

variable {env : Ext} {autonomous : Bool} {s : Snapshot} {inp : Input}

theorem Asked.names (h : s.Asked inp) : s.Names inp := ⟨h.2, .inr h.1.symm⟩

theorem reader_userFlags (h : s.Names inp) :
    (s.reader env autonomous).userFlags inp.tenant inp.effectiveUser =
      some (flatten env s).flags := by
  show ((s.flatReader env).flat inp.tenant inp.effectiveUser).map _ = _
  rw [flat_of_names h]
  rfl

theorem reader_tenantActions (h : s.Names inp) :
    (s.reader env autonomous).tenantActions inp.tenant inp.effectiveUser =
      some (s.scopedActions false) := by
  show ((s.flatReader env).flat inp.tenant inp.effectiveUser).map _ = _
  rw [flat_of_names h]
  rfl

theorem reader_resource (h : s.Names inp) (hash : Bytes) :
    (s.reader env autonomous).resource inp.tenant inp.effectiveUser hash =
      (flatten env s).resources.lookup hash := by
  show ((s.flatReader env).flat inp.tenant inp.effectiveUser).bind _ = _
  rw [flat_of_names h]
  rfl

theorem reader_entry (h : s.Names inp) :
    (s.reader env autonomous).workspace inp.tenant inp.effectiveUser inp.workspaceID =
      s.entryOf env inp := by
  have hentry : ((s.reader env autonomous).facts env inp true).entry =
      if s.Names inp then s.entryOf env inp else none := facts_entry_eq (b := true)
  rw [if_pos h] at hentry
  exact hentry

theorem nodup_scopedActions (s : Snapshot) (b : Bool) : (s.scopedActions b).Nodup := by
  have hsorted : (dedupSorted s.actions).Nodup :=
    (List.perm_insertionSort _ _).nodup_iff.mpr (List.nodup_dedup _)
  exact hsorted.filter _

theorem nodup_workspaceEntry (s : Snapshot) (w : WorkspaceRef) :
    (s.workspaceEntry w).actions.Nodup := by
  unfold workspaceEntry
  dsimp only
  split
  · exact (s.nodup_scopedActions true).filter _
  · exact s.nodup_scopedActions true

end Readings

end Snapshot
section Answers

variable (env : Ext) (autonomous : Bool) (s : Snapshot) (inp : Input)

/-- The value answers a reading as the snapshot does, as far as the decision over the
snapshot uses the answer. -/
def Answers (cell : Option Value) (k : Reading) : Prop :=
  Reader.AnswersAlike env (s.reader env autonomous) (redisReader env fun _ => cell) inp k

/-- What `matches` leaves open for a key that is read: the catalog and the keys of the
tenant, the administered workspaces, and a key that the flattened snapshot does not have. -/
def Current (store : Store) : Reading → Prop
  | .userFlags => Reader.AdministersAlike (s.reader env autonomous) (redisReader env store) inp
  | .tenantActions => True
  | .workspace => (∃ id : Uuid, inp.workspaceID = id.text ∧ s.workspaceActions.lookup id ≠ none) ∨
    Answers env autonomous s inp (store (cellKey env inp .workspace)) .workspace
  | .resource => (flatten env s).resources.lookup (urnHash env inp.resourceURN) ≠ none ∨
    Answers env autonomous s inp (store (cellKey env inp .resource)) .resource
  | k => Answers env autonomous s inp (store (cellKey env inp k)) k

end Answers

variable {env : Ext} {inp : Input} {autonomous : Bool} {store : Store} {key : Bytes}

theorem answers_iff {s : Snapshot} (k : Reading) :
    Answers env autonomous s inp (store (cellKey env inp k)) k ↔
      Reader.AnswersAlike env (s.reader env autonomous) (redisReader env store) inp k := by
  cases k <;> exact Iff.rfl

theorem allowed_of_answers {s : Snapshot} (h : ∀ k ∈ (s.reader env autonomous).reads env inp,
    Answers env autonomous s inp (store (cellKey env inp k)) k) :
    ((redisReader env store).decide env inp).run.allowed =
      ((s.reader env autonomous).decide env inp).run.allowed :=
  Reader.decide_alike fun k hk => (answers_iff k).mp (h k hk)

theorem any_entry_congr {e e' : WorkspaceEntry} (harchived : e'.archived = e.archived)
    (hactions : inp.action ∈ e'.actions ↔ inp.action ∈ e.actions) :
    e'.denies inp = e.denies inp ∧ e'.opens inp = e.opens inp := by
  have hdenies : e'.denies inp = e.denies inp := by
    unfold WorkspaceEntry.denies
    rw [harchived]
  refine ⟨hdenies, ?_⟩
  unfold WorkspaceEntry.opens
  rw [hdenies, decide_eq_decide.mpr hactions]

/-! ## A projection that matches -/

/-- What a comparison that succeeds says of each key. -/
structure Matched (env : Ext) (store : Store) (s : Snapshot) : Prop where
  actions : ∃ as, (redisReader env store).tenantActions s.tenantID.text s.userID = some as ∧
    ∀ a, a ∈ as ↔ a ∈ s.scopedActions false
  flags : ∃ fl, (redisReader env store).userFlags s.tenantID.text s.userID = some fl ∧
    fl.admin = s.admin
  workspace : ∀ id e, s.workspaceActions.lookup id = some e → ∃ got,
    (redisReader env store).workspace s.tenantID.text s.userID id.text = some got ∧
      got.archived = e.archived ∧ ∀ a, a ∈ got.actions ↔ a ∈ e.actions
  resource : ∀ hash e, (flatten env s).resources.lookup hash = some e → ∃ got,
    (redisReader env store).resource s.tenantID.text s.userID hash = some got ∧
      got.level = e.level ∧ got.archived = e.archived

theorem matched_of_matchesFlat {s : Snapshot}
    (h : matchesFlat (redisReader env store) (flatten env s) = true) : Matched env store s := by
  unfold matchesFlat at h
  split at h
  · rename_i actions flags hactions hflags
    simp only [Bool.and_eq_true, beq_iff_eq, List.all_eq_true] at h
    obtain ⟨⟨⟨⟨hsame, hadmin⟩, -⟩, hworkspaces⟩, hresources⟩ := h
    refine ⟨⟨actions, hactions, mem_iff_of_sameSet hsame (s.nodup_scopedActions false)⟩,
      ⟨flags, hflags, hadmin⟩, fun id e he => ?_, fun hash e he => ?_⟩
    · have hone := hworkspaces ⟨id, e⟩ (AList.mem_lookup_iff.mp he)
      split at hone
      · rename_i got hgot
        rw [Bool.and_eq_true, beq_iff_eq] at hone
        obtain ⟨w, -, -, rfl⟩ := Snapshot.exists_of_lookup_workspaceActions he
        exact ⟨got, hgot, hone.1, mem_iff_of_sameSet hone.2 (s.nodup_workspaceEntry w)⟩
      · cases hone
    · have hone := hresources ⟨hash, e⟩ (AList.mem_lookup_iff.mp he)
      split at hone
      · rename_i got hgot
        rw [Bool.and_eq_true, beq_iff_eq, decide_eq_true_iff] at hone
        exact ⟨got, hgot, hone⟩
      · cases hone
  · cases h

/-- **What is compared and current answers as the snapshot does.** -/
theorem Matched.answers {s : Snapshot} {k : Reading} (h : Matched env store s)
    (hasked : s.Asked inp) (hcurrent : Current env autonomous s inp store k) :
    Reader.AnswersAlike env (s.reader env autonomous) (redisReader env store) inp k := by
  have hnames := hasked.names
  obtain ⟨htenant, huser⟩ := hasked
  cases k with
  | catalog => exact hcurrent
  | autonomousEnabled => exact hcurrent
  | archivedWorkspaces => exact hcurrent
  | userFlags =>
    obtain ⟨fl, hfl, hadmin⟩ := h.flags
    refine ⟨?_, hcurrent⟩
    unfold Reader.isAdmin
    rw [Snapshot.reader_userFlags hnames, htenant, huser, hfl]
    exact hadmin.symm
  | tenantActions =>
    obtain ⟨as, has, hmem⟩ := h.actions
    unfold Reader.AnswersAlike
    rw [Snapshot.reader_tenantActions hnames, htenant, huser, has]
    exact (hmem inp.action).symm
  | workspace =>
    obtain ⟨id, hid, hwanted⟩ | hanswers := hcurrent
    · obtain ⟨e, he⟩ := Option.ne_none_iff_exists'.mp hwanted
      obtain ⟨got, hgot, harchived, hactions⟩ := h.workspace id e he
      have hwant : (s.reader env autonomous).entry inp = some e := by
        unfold Reader.entry
        rw [Snapshot.reader_entry hnames, Snapshot.entryOf, hid, env.parse_text]
        exact he
      have hentry : (redisReader env store).entry inp = some got := by
        unfold Reader.entry
        rw [htenant, huser, hid]
        exact hgot
      obtain ⟨hdenies, hopens⟩ := any_entry_congr harchived (hactions inp.action)
      unfold Reader.AnswersAlike
      rw [hwant, hentry]
      exact ⟨hdenies.symm, hopens.symm, fun _ => congrArg (!·) hdenies.symm⟩
    · exact (answers_iff .workspace).mp hanswers
  | resource =>
    obtain hwanted | hanswers := hcurrent
    · obtain ⟨e, he⟩ := Option.ne_none_iff_exists'.mp hwanted
      obtain ⟨got, hgot, hlevel, harchived⟩ := h.resource _ e he
      have hwant : (s.reader env autonomous).grant env inp = some e := by
        unfold Reader.grant
        rw [Snapshot.reader_resource hnames]
        exact he
      have hgrant : (redisReader env store).grant env inp = some got := by
        unfold Reader.grant
        rw [htenant, huser]
        exact hgot
      unfold Reader.AnswersAlike
      rw [hwant, hgrant, Option.any_some, Option.any_some]
      unfold ResourceEntry.opens
      rw [hlevel, harchived]
    · exact (answers_iff .resource).mp hanswers

/-! ## What a call leaves in a cell -/

variable {val : Value}

section Cells

theorem cas_cases (cell : Option Value) (val : Value) : cas Value.rank cell val = some val ∨
      (cas Value.rank cell val = cell ∧ ∃ cur, cell = some cur ∧ val.rank ≤ cur.rank) := by
  cases cell with
  | none => exact .inl rfl
  | some cur =>
    unfold cas
    dsimp only
    split
    · rename_i hle
      exact .inr ⟨rfl, cur, rfl, hle⟩
    · exact .inl rfl

theorem cas_absorb {val' : Value} (h : val'.rank ≤ val.rank) (cell : Option Value) :
    cas Value.rank (cas Value.rank cell val) val' = cas Value.rank cell val := by
  obtain hset | ⟨hkept, cur, rfl, hle⟩ := cas_cases cell val
  · rw [hset]
    exact if_pos h
  · rw [hkept]
    exact if_pos (h.trans hle)

/-- The writes of a call, one after the other. -/
def writeAll (version : Int) (store : Store) (l : List (Bytes × Value)) : Store :=
  l.foldl (fun st p => casSet st p.1 p.2 version) store

variable {version : Int} {l : List (Bytes × Value)} {key : Bytes}

/-- One value is attempted at a key, once or more often, or none is. -/
theorem writeAll_apply (hversion : ∀ p ∈ l, p.2.version = some version)
    (honce : ∀ p ∈ l, p.1 = key → p.2 = val) (store : Store) : writeAll version store l key =
      if key ∈ l.map (·.1) then cas Value.rank (store key) val else store key := by
  induction l generalizing store with
  | nil => rfl
  | cons p l ih =>
    obtain ⟨hp, hl⟩ := List.forall_mem_cons.mp hversion
    obtain ⟨hval, hrest⟩ := List.forall_mem_cons.mp honce
    show writeAll version (casSet store p.1 p.2 version) l key = _
    rw [ih hl hrest, casSet_eq hp]
    by_cases hkey : p.1 = key
    · subst hkey
      rw [Function.update_self, hval rfl, cas_absorb le_rfl, ite_self]
      exact (if_pos List.mem_cons_self).symm
    · have hmem : key ∈ (p :: l).map (·.1) ↔ key ∈ l.map (·.1) := by simp [Ne.symm hkey]
      rw [Function.update_of_ne (Ne.symm hkey), if_congr hmem rfl rfl]

end Cells

variable {version : Int} {user : Bytes}

section Write

variable {f : Flat} {store : Store} {key : Bytes}

/-- The keys that a call buries, with the tombstone. -/
def Flat.buried (f : Flat) (store : Store) : List (Bytes × Value) :=
  ((readIndex store f.tenantID.text f.userID).filter
    (· ∉ f.subsidiary (tenantAutonomous store f.tenantID.text))).map fun k => (k, f.tomb)

/-- The assignments of a call, in the order of the map. -/
def Flat.assigned (f : Flat) (autonomous : Bool) : List (Bytes × Value) :=
  (f.pairs autonomous).entries.map fun p => (p.1, p.2)

theorem writeUser_eq : writeUser store f = casSet (writeAll f.version
      (writeAll f.version store (f.assigned (tenantAutonomous store f.tenantID.text)))
        (f.buried store)) (keyIndex f.tenantID.text f.userID)
      (f.indexValue (tenantAutonomous store f.tenantID.text)) f.version := by
  unfold writeUser writeAll Flat.assigned Flat.buried
  rw [List.foldl_map, List.foldl_map]

theorem Flat.mem_assigned {p : Bytes × Value} :
    p ∈ f.assigned autonomous ↔ (f.pairs autonomous).lookup p.1 = some p.2 := by
  unfold Flat.assigned
  rw [List.mem_map]
  constructor
  · rintro ⟨q, hq, rfl⟩
    exact AList.mem_lookup_iff.mpr hq
  · intro h
    exact ⟨⟨p.1, p.2⟩, AList.mem_lookup_iff.mp h, rfl⟩

theorem Flat.version_of_assigned : ∀ p ∈ f.assigned autonomous, p.2.version = some f.version := by
  rintro ⟨k, v⟩ hp
  exact version_of_mem_pairList (mem_of_lookup_mapOf (Flat.mem_assigned.mp hp))

theorem Flat.version_of_buried : ∀ p ∈ f.buried store, p.2.version = some f.version := by
  intro p hp
  obtain ⟨k, -, rfl⟩ := List.mem_map.mp hp
  rfl

theorem Flat.value_of_buried : ∀ p ∈ f.buried store, p.1 = key → p.2 = f.tomb := by
  intro p hp _
  obtain ⟨k, -, rfl⟩ := List.mem_map.mp hp
  rfl

theorem Flat.mem_keys_assigned :
    key ∈ (f.assigned autonomous).map (·.1) ↔ (f.pairs autonomous).lookup key ≠ none := by
  rw [List.mem_map, Option.ne_none_iff_exists']
  constructor
  · rintro ⟨p, hp, rfl⟩
    exact ⟨p.2, Flat.mem_assigned.mp hp⟩
  · rintro ⟨v, hv⟩
    exact ⟨(key, v), Flat.mem_assigned.mpr hv, rfl⟩

theorem Flat.lookup_ne_none_of_mem_subsidiary (h : key ∈ f.subsidiary autonomous) :
    (f.pairs autonomous).lookup key ≠ none := by
  unfold subsidiary grantKeys at h
  rw [← List.map_append] at h
  obtain ⟨⟨k, v⟩, hpair, rfl⟩ := List.mem_map.mp h
  obtain ⟨w, hw⟩ := exists_lookup_mapOf (List.mem_cons_of_mem _ (List.mem_append_left _ hpair) :
    (k, v) ∈ f.pairList autonomous)
  exact Option.ne_none_iff_exists'.mpr ⟨w, hw⟩

theorem Flat.mem_keys_buried
    (h : (f.pairs (tenantAutonomous store f.tenantID.text)).lookup key = none) :
    key ∈ (f.buried store).map (·.1) ↔ key ∈ readIndex store f.tenantID.text f.userID := by
  unfold buried
  rw [List.map_map, Function.comp_def, List.map_id', List.mem_filter, decide_eq_true_iff]
  exact and_iff_left fun hmem => Flat.lookup_ne_none_of_mem_subsidiary hmem h

theorem Value.rank_of_version (h : val.version = some version) :
    val.rank = (toDouble version : WithBot Int) := by
  unfold Value.rank
  rw [h]
  rfl

theorem assigned_apply : writeAll f.version store (f.assigned autonomous) key =
      if (f.pairs autonomous).lookup key ≠ none then
        cas Value.rank (store key) (((f.pairs autonomous).lookup key).getD f.tomb)
      else store key := by
  rw [writeAll_apply Flat.version_of_assigned, if_congr Flat.mem_keys_assigned rfl rfl]
  rintro p hp rfl
  rw [Flat.mem_assigned.mp hp]
  rfl

/-- **A cell after a call**: a pair is attempted, and a key of the index that is no
pair is buried. -/
theorem writeUser_apply (hkey : key ≠ keyIndex f.tenantID.text f.userID) : writeUser store f key =
      match (f.pairs (tenantAutonomous store f.tenantID.text)).lookup key with
      | some val => cas Value.rank (store key) val
      | none =>
        if key ∈ readIndex store f.tenantID.text f.userID then cas Value.rank (store key) f.tomb
        else store key := by
  have hindex : (f.indexValue (tenantAutonomous store f.tenantID.text)).version = some f.version :=
    rfl
  rw [writeUser_eq, casSet_eq hindex, Function.update_of_ne hkey,
    writeAll_apply Flat.version_of_buried Flat.value_of_buried, assigned_apply]
  cases hlookup : (f.pairs (tenantAutonomous store f.tenantID.text)).lookup key with
  | none =>
    rw [if_neg (not_not.mpr rfl)]
    exact if_congr (Flat.mem_keys_buried hlookup) rfl rfl
  | some val =>
    have hversion := Flat.version_of_assigned (key, val) (Flat.mem_assigned.mpr hlookup)
    have hrank : f.tomb.rank ≤ val.rank := by
      rw [Value.rank_of_version hversion,
        Value.rank_of_version (show f.tomb.version = some f.version from rfl)]
    rw [if_pos (Option.some_ne_none val), Option.getD_some, cas_absorb hrank, ite_self]

theorem ne_keyIndex_of_keyTag {tenant : Bytes} {x : UInt8}
    (h : keyTag tenant user key = (some 112, some x)) (hx : x ≠ 105) :
    key ≠ keyIndex tenant user := by
  rintro rfl
  rw [keyTag_index] at h
  exact hx (Option.some.inj (Prod.mk.inj h).2).symm

end Write

/-! ## What a call touches -/

/-- The value of a key is older than the version. -/
def Outdated (store : Store) (key : Bytes) (version : Int) : Prop :=
  ∀ val, store key = some val → val.rank < (toDouble version : WithBot Int)

/-- The keys that a call may write: its pairs, what its index lists, and its index. -/
def Flat.Touches (f : Flat) (store : Store) (key : Bytes) : Prop :=
  key = keyIndex f.tenantID.text f.userID ∨ key ∈ readIndex store f.tenantID.text f.userID ∨
    ∃ autonomous, (f.pairs autonomous).lookup key ≠ none

section Touches

variable {f g : Flat} {store : Store} {key : Bytes}

theorem writeUser_of_not_touches (h : ¬f.Touches store key) :
    writeUser store f key = store key := by
  unfold Flat.Touches at h
  rw [not_or, not_or, not_exists] at h
  obtain ⟨hindex, hlisted, hpairs⟩ := h
  rw [writeUser_apply hindex, not_not.mp (hpairs (tenantAutonomous store f.tenantID.text))]
  exact if_neg hlisted

theorem Flat.keys_of_lookup_pairs (h : (f.pairs autonomous).lookup key = some val) :
    val.keys = [] := by
  have hmem := mem_of_lookup_mapOf h
  rw [mem_pairList, mem_wsPairs, mem_resPairs] at hmem
  obtain ⟨-, rfl⟩ | ⟨u, e, -, -, rfl⟩ | ⟨h, e, -, -, rfl⟩ | hpy | ⟨-, rfl⟩ := hmem
  · rfl
  · rfl
  · rfl
  · obtain ⟨-, p, rfl⟩ := keyTag_of_mem_pyPairs hpy
    rfl
  · rfl

theorem keyIndex_inj {tenant v w : Bytes} (h : keyIndex tenant v = keyIndex tenant w) : v = w := by
  unfold keyIndex at h
  exact List.append_cancel_left (List.append_cancel_right h)

theorem mem_keys_cas {cell : Option Value} {val : Value}
    (h : key ∈ ((cas Value.rank cell val).map (·.keys)).getD []) :
    key ∈ (cell.map (·.keys)).getD [] ∨ key ∈ val.keys := by
  obtain hset | ⟨hkept, -⟩ := cas_cases cell val
  · rw [hset] at h
    exact .inr h
  · rw [hkept] at h
    exact .inl h

/-- **The index after a call**: a user's index lists what it listed, and after the call of
the user itself the keys of the call. -/
theorem mem_readIndex_writeUser {tenant : Uuid} {user : Bytes} (htenant : f.tenantID = tenant)
    (h : key ∈ readIndex (writeUser store f) tenant.text user) :
    key ∈ readIndex store tenant.text user ∨
      user = f.userID ∧ key ∈ f.subsidiary (tenantAutonomous store tenant.text) := by
  subst htenant
  unfold readIndex at h
  by_cases huser : user = f.userID
  · subst huser
    have hindex : (f.indexValue (tenantAutonomous store f.tenantID.text)).version =
        some f.version := rfl
    rw [writeUser_eq, casSet_eq hindex, Function.update_self,
      writeAll_apply Flat.version_of_buried Flat.value_of_buried, assigned_apply,
      Flat.lookup_pairs_index, if_neg (not_not.mpr rfl)] at h
    obtain hold | hnew := mem_keys_cas h
    · split at hold
      · obtain hold | hnone := mem_keys_cas hold
        · exact .inl hold
        · exact absurd hnone List.not_mem_nil
      · exact .inl hold
    · exact .inr ⟨rfl, hnew⟩
  · rw [writeUser_apply fun hkey => huser (keyIndex_inj hkey)] at h
    refine .inl ?_
    split at h
    · next hpair =>
      obtain hold | hnone := mem_keys_cas h
      · exact hold
      · rw [Flat.keys_of_lookup_pairs hpair] at hnone
        exact absurd hnone List.not_mem_nil
    · split at h
      · obtain hold | hnone := mem_keys_cas h
        · exact hold
        · exact absurd hnone List.not_mem_nil
      · exact h

theorem Flat.not_touches_writeUser (htenant : g.tenantID = f.tenantID)
    (hsame : g.userID = f.userID → g = f) (h : ¬g.Touches store key) :
    ¬g.Touches (writeUser store f) key := by
  rintro (hindex | hlisted | hpair)
  · exact h (.inl hindex)
  · rw [htenant] at hlisted
    obtain hold | ⟨huser, hnew⟩ := mem_readIndex_writeUser rfl hlisted
    · exact h (.inr (.inl (by rw [htenant]; exact hold)))
    · rw [hsame huser] at h
      exact h (.inr (.inr ⟨_, Flat.lookup_ne_none_of_mem_subsidiary hnew⟩))
  · exact h (.inr (.inr hpair))

/-- **A cell after the call of its user** has the property that it had, or that the call's
own values have. -/
theorem writeUser_keeps {P : Option Value → Prop} {new : Option Value}
    (hkey : key ≠ keyIndex f.tenantID.text f.userID)
    (hnew : (f.pairs (tenantAutonomous store f.tenantID.text)).lookup key = new)
    (hset : ∀ val, new = some val → P (some val))
    (hbury : new = none → key ∈ readIndex store f.tenantID.text f.userID → P (some f.tomb))
    (h : P (store key) ∨ Outdated store key f.version ∧
      (new ≠ none ∨ key ∈ readIndex store f.tenantID.text f.userID)) :
    P (writeUser store f key) := by
  have hattempt {val : Value} (hval : val.version = some f.version) (hset : P (some val)) :
      P (cas Value.rank (store key) val) := by
    obtain heq | ⟨hkept, cur, hcur, hle⟩ := cas_cases (store key) val
    · rwa [heq]
    · rw [hkept]
      refine h.resolve_right fun hout => ?_
      rw [Value.rank_of_version hval] at hle
      exact absurd hle (not_le.mpr (hout.1 cur hcur))
  rw [writeUser_apply hkey, hnew]
  cases new with
  | some val =>
    exact hattempt (Flat.version_of_assigned (key, val) (Flat.mem_assigned.mpr hnew)) (hset val rfl)
  | none =>
    dsimp only
    split
    · next hindexed => exact hattempt rfl (hbury rfl hindexed)
    · next hindexed => exact h.resolve_right fun hout => hout.2.elim (fun hne => hne rfl) hindexed

end Touches

/-! ## The keys of one user -/

/-- How the keys of a user begin. -/
def userPrefix (tenant user : Bytes) : Bytes :=
  bytes "perm:" ++ tenant ++ bytes ":" ++ user ++ bytes ":"

/-- A key of the user's projection, or one of the single-key projections. -/
def OwnKey (tenant user key : Bytes) : Prop := userPrefix tenant user <+: key ∨ key.head? = some 97

section Own

variable {tenant user : Bytes}

theorem userPrefix_append (rest : Bytes) : userPrefix tenant user <+:
    bytes "perm:" ++ tenant ++ bytes ":" ++ user ++ 58 :: rest :=
  ⟨rest, List.append_assoc _ (bytes ":") rest⟩

theorem userPrefix_keyFlags : userPrefix tenant user <+: keyFlags tenant user :=
  userPrefix_append (bytes "flags")

theorem userPrefix_keyActions : userPrefix tenant user <+: keyActions tenant user :=
  userPrefix_append (bytes "actions")

theorem userPrefix_keyIndex : userPrefix tenant user <+: keyIndex tenant user :=
  userPrefix_append (bytes "index")

theorem userPrefix_keyWorkspace (w : Bytes) :
    userPrefix tenant user <+: keyWorkspace tenant user w := by
  rw [keyWorkspace, List.append_assoc]
  exact userPrefix_append (bytes "ws:" ++ w)

theorem userPrefix_keyResource (h : Bytes) :
    userPrefix tenant user <+: keyResource tenant user h := by
  rw [keyResource, List.append_assoc]
  exact userPrefix_append (bytes "res:" ++ h)

theorem not_ownKey_of_tenant {rest : Bytes} (hrest : (58 : UInt8) ∉ rest) :
    ¬OwnKey tenant user (bytes "perm:" ++ tenant ++ 58 :: rest) := by
  rintro (⟨x, hx⟩ | hhead)
  · unfold userPrefix at hx
    simp only [List.append_assoc] at hx
    have hcons := List.append_cancel_left (List.append_cancel_left hx)
    have htail : user ++ (bytes ":" ++ x) = rest := (List.cons.inj hcons).2
    rw [← htail] at hrest
    exact hrest (List.mem_append_right _ (List.mem_append_left _ (by decide)))
  · exact absurd (Option.some.inj hhead) (by decide)

theorem not_ownKey_tenantMeta : ¬OwnKey tenant user (keyTenantMeta tenant) :=
  not_ownKey_of_tenant (show (58 : UInt8) ∉ bytes "meta" by decide)

theorem not_ownKey_archivedWs : ¬OwnKey tenant user (keyArchivedWs tenant) :=
  not_ownKey_of_tenant (show (58 : UInt8) ∉ bytes "archived_ws" by decide)

theorem not_ownKey_catalog (t : Uuid) : ¬OwnKey t.text user catalogKey := by
  rintro (⟨x, hx⟩ | hhead)
  · have hlen := congrArg List.length hx
    have hshort : catalogKey.length = 20 := rfl
    have hperm : (bytes "perm:").length = 5 := rfl
    rw [hshort, userPrefix] at hlen
    simp only [List.length_append, Uuid.length_text, hperm] at hlen
    omega
  · exact absurd (Option.some.inj hhead) (by decide)

end Own

section Written

variable (env : Ext) (s : Snapshot) (inp : Input)

/-- What the call for the user of the snapshot has at the key of a reading. -/
def written : Reading → Option Value
  | .userFlags => some (.flags s.version (flatten env s).flags)
  | .tenantActions => some (.actions s.version (s.scopedActions false))
  | .workspace => (env.parse inp.workspaceID).bind fun id =>
    if id.text = inp.workspaceID then (s.workspaceActions.lookup id).map (.ws s.version) else none
  | .resource =>
    ((flatten env s).resources.lookup (urnHash env inp.resourceURN)).map (.res s.version)
  | _ => none

end Written

section Pairs

variable {f : Flat} {s : Snapshot}

theorem Flat.ownKey_of_lookup_pairs (h : (f.pairs autonomous).lookup key = some val) :
    OwnKey f.tenantID.text f.userID key := by
  have hmem := mem_of_lookup_mapOf h
  rw [mem_pairList] at hmem
  obtain ⟨rfl, -⟩ | hws | hres | hpy | ⟨rfl, -⟩ := hmem
  · exact .inl userPrefix_keyActions
  · obtain ⟨u, e, -, rfl, -⟩ := mem_wsPairs.mp hws
    exact .inl (userPrefix_keyWorkspace u.text)
  · obtain ⟨g, e, -, rfl, -⟩ := mem_resPairs.mp hres
    exact .inl (userPrefix_keyResource g)
  · exact .inr (keyTag_of_mem_pyPairs hpy).1
  · exact .inl userPrefix_keyFlags

theorem Flat.lookup_pairs_of_not_ownKey (h : ¬OwnKey f.tenantID.text f.userID key) :
    (f.pairs autonomous).lookup key = none :=
  Option.eq_none_iff_forall_not_mem.mpr fun _ hval => h (Flat.ownKey_of_lookup_pairs hval)

theorem lookup_pairs_entry (w : Bytes) :
    ((flatten env s).pairs autonomous).lookup (keyWorkspace s.tenantID.text s.userID w) =
      (env.parse w).bind fun id =>
        if id.text = w then (s.workspaceActions.lookup id).map (.ws s.version) else none := by
  refine Option.ext fun val =>
    (Flat.lookup_pairs_workspace (f := flatten env s)).trans ⟨?_, fun hval => ?_⟩
  · rintro ⟨id, e, rfl, hlookup, rfl⟩
    rw [env.parse_text, Option.bind_some, if_pos rfl]
    exact Option.map_eq_some_iff.mpr ⟨e, hlookup, rfl⟩
  · obtain ⟨id, -, hentry⟩ := Option.bind_eq_some_iff.mp hval
    split at hentry
    · next hid =>
      obtain ⟨e, hlookup, rfl⟩ := Option.map_eq_some_iff.mp hentry
      exact ⟨id, e, hid, hlookup, rfl⟩
    · cases hentry

theorem lookup_pairs_cellKey (hasked : s.Asked inp) (k : Reading) :
    ((flatten env s).pairs autonomous).lookup (cellKey env inp k) = written env s inp k := by
  obtain ⟨htenant, huser⟩ := hasked
  unfold cellKey
  rw [htenant, huser]
  cases k with
  | catalog =>
    exact Flat.lookup_pairs_of_not_ownKey (f := flatten env s) (not_ownKey_catalog s.tenantID)
  | autonomousEnabled =>
    exact Flat.lookup_pairs_of_not_ownKey (f := flatten env s) not_ownKey_tenantMeta
  | archivedWorkspaces =>
    exact Flat.lookup_pairs_of_not_ownKey (f := flatten env s) not_ownKey_archivedWs
  | userFlags => exact Flat.lookup_pairs_flags (f := flatten env s)
  | tenantActions => exact Flat.lookup_pairs_actions (f := flatten env s)
  | workspace => exact lookup_pairs_entry inp.workspaceID
  | resource =>
    refine Option.ext fun val => (Flat.lookup_pairs_resource (f := flatten env s)).trans ?_
    exact (exists_congr fun e => and_congr_right' eq_comm).trans Option.map_eq_some_iff.symm

theorem cellKey_ne_keyIndex (hasked : s.Asked inp) (k : Reading) :
    cellKey env inp k ≠ keyIndex s.tenantID.text s.userID := by
  have hown : OwnKey s.tenantID.text s.userID (keyIndex s.tenantID.text s.userID) :=
    .inl userPrefix_keyIndex
  obtain ⟨htenant, huser⟩ := hasked
  unfold cellKey
  rw [htenant, huser]
  cases k with
  | catalog => exact fun h => not_ownKey_catalog s.tenantID (h ▸ hown)
  | autonomousEnabled => exact fun h => not_ownKey_tenantMeta (h ▸ hown)
  | archivedWorkspaces => exact fun h => not_ownKey_archivedWs (h ▸ hown)
  | userFlags => exact ne_keyIndex_of_keyTag keyTag_flags (by decide)
  | tenantActions => exact ne_keyIndex_of_keyTag keyTag_actions (by decide)
  | workspace => exact ne_keyIndex_of_keyTag (keyTag_workspace _) (by decide)
  | resource => exact ne_keyIndex_of_keyTag (keyTag_resource _) (by decide)

theorem answers_written (hasked : s.Asked inp) {k : Reading} {val : Value}
    (h : written env s inp k = some val) : Answers env autonomous s inp (some val) k := by
  have hnames := hasked.names
  cases k with
  | catalog => cases h
  | autonomousEnabled => cases h
  | archivedWorkspaces => cases h
  | userFlags =>
    obtain rfl := Option.some.inj h
    have hread : (Value.flags s.version (flatten env s).flags).userFlags env =
        (flatten env s).flags := by
      simp [Value.userFlags, Value.admin, Value.wsAdmin, Value.roles, List.filterMap_map,
        env.parse_text]
    have hflags : (s.reader env autonomous).userFlags inp.tenant inp.effectiveUser =
        some ((Value.flags s.version (flatten env s).flags).userFlags env) := by
      rw [Snapshot.reader_userFlags hnames, hread]
    refine ⟨?_, fun _ _ _ _ => ?_⟩
    · unfold Reader.isAdmin
      rw [hflags]
      rfl
    · unfold Reader.administers
      rw [hflags]
      rfl
  | tenantActions =>
    obtain rfl := Option.some.inj h
    unfold Answers Reader.AnswersAlike
    rw [Snapshot.reader_tenantActions hnames]
    exact Iff.rfl
  | workspace =>
    obtain ⟨id, hid, hentry⟩ := Option.bind_eq_some_iff.mp h
    split at hentry
    · obtain ⟨e, hlookup, rfl⟩ := Option.map_eq_some_iff.mp hentry
      have hwant : (s.reader env autonomous).entry inp = some e := by
        unfold Reader.entry
        rw [Snapshot.reader_entry hnames, Snapshot.entryOf, hid]
        exact hlookup
      unfold Answers Reader.AnswersAlike
      rw [hwant]
      exact ⟨rfl, rfl, fun _ => rfl⟩
    · cases hentry
  | resource =>
    obtain ⟨e, hlookup, rfl⟩ := Option.map_eq_some_iff.mp h
    have hwant : (s.reader env autonomous).grant env inp = some e := by
      unfold Reader.grant
      rw [Snapshot.reader_resource hnames]
      exact hlookup
    unfold Answers Reader.AnswersAlike
    rw [hwant]
    rfl

end Pairs

/-! ## A run of the verification -/

section Run

variable (env : Ext) (autonomous : Bool) {tenant : Uuid}
  (loader : (user : Bytes) → Except Bytes (SnapshotOf tenant user)) (users : List Bytes)
  (store : Store)

/-- No call for another user of the run touches the key. -/
def Untouched (user key : Bytes) : Prop :=
  ∀ v ∈ users, v ≠ user → ∀ snap : SnapshotOf tenant v, loader v = .ok snap →
    ¬(flatten env snap.1).Touches store key

variable (s : Snapshot) (inp : Input) (k : Reading)

/-- What a repair needs of a key that is read.  Its value is right, or it is older than the
snapshot and the call writes it: as a pair, or as a key of the index, which is left to the
user.  A key of the index that is no pair is buried. -/
structure Mendable : Prop where
  untouched : Untouched env loader users store s.userID (cellKey env inp k)
  right : Answers env autonomous s inp (store (cellKey env inp k)) k ∨
    Outdated store (cellKey env inp k) s.version ∧ (written env s inp k ≠ none ∨
      cellKey env inp k ∈ readIndex store tenant.text s.userID ∧
        Untouched env loader users store s.userID (keyIndex tenant.text s.userID))
  buried : written env s inp k = none →
    cellKey env inp k ∈ readIndex store tenant.text s.userID →
      Answers env autonomous s inp (some (flatten env s).tomb) k

end Run

section Run

variable {env : Ext} {autonomous : Bool} {tenant : Uuid} {users : List Bytes} {user v : Bytes}
  {loader : (user : Bytes) → Except Bytes (SnapshotOf tenant user)} {store : Store}
  {snap : SnapshotOf tenant user} {snap' : SnapshotOf tenant v} {inp : Input} {k : Reading}

theorem Untouched.writeUser {key : Bytes} (h : Untouched env loader users store user key)
    (hload : loader v = .ok snap') :
    Untouched env loader users (writeUser store (flatten env snap'.1)) user key := by
  intro w hw hne t hloaded
  refine Flat.not_touches_writeUser (t.2.1.trans snap'.2.1.symm) (fun hsame => ?_)
    (h w hw hne t hloaded)
  have hwv : w = v := t.2.2.symm.trans (hsame.trans snap'.2.2)
  subst hwv
  rw [hload] at hloaded
  rw [Except.ok.inj hloaded]

theorem Untouched.writeUser_eq {key : Bytes} (h : Untouched env loader users store user key)
    (hv : v ∈ users) (hne : v ≠ user) (hload : loader v = .ok snap') :
    Rbac.writeUser store (flatten env snap'.1) key = store key :=
  writeUser_of_not_touches (h v hv hne snap' hload)

/-- **The step of another user**: a repair of another keeps the request mendable. -/
theorem Mendable.other (h : Mendable env autonomous loader users store snap.1 inp k)
    (hv : v ∈ users) (hne : v ≠ user) (hload : loader v = .ok snap') :
    Mendable env autonomous loader users (writeUser store (flatten env snap'.1)) snap.1 inp k := by
  have hne' : v ≠ snap.1.userID := by rwa [snap.2.2]
  have hcell := h.untouched.writeUser_eq hv hne' hload
  have hlisted {key : Bytes} (hmem : key ∈ readIndex (writeUser store (flatten env snap'.1))
      tenant.text snap.1.userID) : key ∈ readIndex store tenant.text snap.1.userID := by
    obtain hold | ⟨huser, -⟩ := mem_readIndex_writeUser snap'.2.1 hmem
    · exact hold
    · exact absurd (huser.trans snap'.2.2).symm hne'
  refine ⟨h.untouched.writeUser hload, ?_, fun hnone hmem => h.buried hnone (hlisted hmem)⟩
  rw [hcell]
  refine h.right.imp_right fun ⟨hout, hmore⟩ => ⟨?_, hmore.imp_right fun ⟨hmem, hindex⟩ => ?_⟩
  · intro val hval
    exact hout val (by rw [← hcell]; exact hval)
  · refine ⟨?_, hindex.writeUser hload⟩
    unfold readIndex
    rw [hindex.writeUser_eq hv hne' hload]
    exact hmem

/-- **The step of the user**: the repair sets the key right, and it stays mendable. -/
theorem Mendable.own (h : Mendable env autonomous loader users store snap.1 inp k)
    (hasked : snap.1.Asked inp) (hload : loader user = .ok snap) :
    Answers env autonomous snap.1 inp
        (writeUser store (flatten env snap.1) (cellKey env inp k)) k ∧
      Mendable env autonomous loader users (writeUser store (flatten env snap.1)) snap.1 inp k := by
  have htenant : (flatten env snap.1).tenantID = tenant := snap.2.1
  have hright : Answers env autonomous snap.1 inp
      (writeUser store (flatten env snap.1) (cellKey env inp k)) k := by
    refine writeUser_keeps (P := fun cell => Answers env autonomous snap.1 inp cell k)
      (cellKey_ne_keyIndex hasked k) (lookup_pairs_cellKey hasked k)
      (fun val => answers_written hasked) ?_ ?_
    · rw [htenant]
      exact h.buried
    · rw [htenant]
      exact h.right.imp_right (And.imp_right (Or.imp_right And.left))
  refine ⟨hright, h.untouched.writeUser hload, .inl hright, fun hnone hmem => ?_⟩
  obtain hold | ⟨-, hnew⟩ := mem_readIndex_writeUser htenant hmem
  · exact h.buried hnone hold
  · have hpair := Flat.lookup_ne_none_of_mem_subsidiary hnew
    rw [lookup_pairs_cellKey hasked] at hpair
    exact absurd hnone hpair

/-- What holds of a key at each turn of the loop. -/
structure VerifyInv (env : Ext) (autonomous : Bool) {tenant : Uuid}
    (loader : (user : Bytes) → Except Bytes (SnapshotOf tenant user)) (users : List Bytes)
    (s : Snapshot) (inp : Input) (k : Reading) (st : Store × VerifyResult) : Prop where
  mendable : Mendable env autonomous loader users st.1 s inp k
  repaired : s.userID ∈ st.2.driftedUsers →
    Answers env autonomous s inp (st.1 (cellKey env inp k)) k

theorem VerifyInv.writeUser {res res' : VerifyResult}
    (h : VerifyInv env autonomous loader users snap.1 inp k (store, res))
    (hasked : snap.1.Asked inp) (hload : loader user = .ok snap) (hv : v ∈ users)
    (hload' : loader v = .ok snap') (hres : res'.driftedUsers = res.driftedUsers ++ [v]) :
    VerifyInv env autonomous loader users snap.1 inp k
      (writeUser store (flatten env snap'.1), res') := by
  by_cases hsame : v = user
  · subst hsame
    rw [hload] at hload'
    obtain rfl := Except.ok.inj hload'
    obtain ⟨hright, hmendable⟩ := h.mendable.own hasked hload
    exact ⟨hmendable, fun _ => hright⟩
  · refine ⟨h.mendable.other hv hsame hload', fun hmem => ?_⟩
    have hne : v ≠ snap.1.userID := by rwa [snap.2.2]
    have hcell : Rbac.writeUser store (flatten env snap'.1) (cellKey env inp k) =
        store (cellKey env inp k) := h.mendable.untouched.writeUser_eq hv hne hload'
    dsimp only at hmem ⊢
    rw [hcell]
    rw [hres] at hmem
    rcases List.mem_append.mp hmem with hmem | hmem
    · exact h.repaired hmem
    · exact absurd (List.mem_singleton.mp hmem).symm hne

theorem verifyUsers_inv (hload : loader user = .ok snap) (hasked : snap.1.Asked inp)
    (todo : List Bytes) : ∀ st : Store × VerifyResult, (∀ v ∈ todo, v ∈ users) →
      VerifyInv env autonomous loader users snap.1 inp k st →
      VerifyInv env autonomous loader users snap.1 inp k
        (verifyUsers env loader true todo st).1 := by
  induction todo with
  | nil => exact fun st _ h => h
  | cons v todo ih =>
    rintro ⟨store, res⟩ hall h
    obtain ⟨hv, hrest⟩ := List.forall_mem_cons.mp hall
    rw [verifyUsers]
    split
    · exact h
    · rename_i snap' hload'
      dsimp only
      split
      · exact ih _ hrest h
      · rw [if_pos rfl]
        exact ih _ hrest (h.writeUser hasked hload hv hload' rfl)

end Run

/-! ## Verification -/

/-- **Verification.**  Over a projection that matches, a request is decided as over the
snapshot when the keys that it reads and the comparison leaves open are current; and a run
with repair leaves each drifted user so decided, when the keys that the request reads are
mendable. -/
theorem verify_decides_alike (env : Ext) (autonomous : Bool) :
    (∀ (store : Store) (s : Snapshot) (inp : Input), s.Asked inp →
      matchesFlat (redisReader env store) (flatten env s) = true →
      (∀ k ∈ (s.reader env autonomous).reads env inp, Current env autonomous s inp store k) →
      ((redisReader env store).decide env inp).run.allowed =
        ((s.reader env autonomous).decide env inp).run.allowed) ∧
    ∀ (tenant : Uuid) (loader : (user : Bytes) → Except Bytes (SnapshotOf tenant user))
      (users : List Bytes) (store : Store),
      ∀ user ∈ (verify env loader true users store).1.2.driftedUsers,
      ∀ snap : SnapshotOf tenant user, loader user = .ok snap →
      ∀ inp, snap.1.Asked inp →
      (∀ k ∈ (snap.1.reader env autonomous).reads env inp,
        Mendable env autonomous loader users store snap.1 inp k) →
      ((redisReader env (verify env loader true users store).1.1).decide env inp).run.allowed =
        ((snap.1.reader env autonomous).decide env inp).run.allowed := by
  constructor
  · intro store s inp hasked hmatches hcurrent
    exact Reader.decide_alike fun k hk =>
      (matched_of_matchesFlat hmatches).answers hasked (hcurrent k hk)
  · intro tenant loader users store user hdrifted snap hload inp hasked hmendable
    refine allowed_of_answers fun k hk => ?_
    have hinit : VerifyInv env autonomous loader users snap.1 inp k
        (store, ⟨tenant.text, users.length, [], []⟩) := ⟨hmendable k hk, nofun⟩
    have hinv := verifyUsers_inv hload hasked users _ (fun v hv => hv) hinit
    exact hinv.repaired (by rw [snap.2.2]; exact hdrifted)

/-! ## Samples -/

/-- A user without workspaces or grants. -/
def bareSnapshot : Snapshot := { sampleSnapshot with resourceGrants := [] }

/-- The request of the user in workspace `...01`. -/
def bareInput : Input where
  subject := ⟨bytes "u-1", .user, [], []⟩
  action := bytes "chart.dashboard.update"
  resourceURN := []
  workspaceID := (Uuid.ofByte 1).text
  tenant := (Uuid.ofByte 10).text

/-- The catalog, the keys of the user, an entry for workspace `...01` and an index. -/
def bareStore (admin : Bool) (ws : Option WorkspaceEntry) (listed : List Bytes) : Store :=
  fun key =>
  if key = catalogKey then some (.catalog 1 bareSnapshot.catalog)
  else if key = keyActions (Uuid.ofByte 10).text (bytes "u-1") then some (.actions 0 [])
  else if key = keyFlags (Uuid.ofByte 10).text (bytes "u-1") then some (.flags 0 ⟨admin, [], []⟩)
  else if key = keyWorkspace (Uuid.ofByte 10).text (bytes "u-1") (Uuid.ofByte 1).text then
    ws.map (.ws 0)
  else if key = keyIndex (Uuid.ofByte 10).text (bytes "u-1") then some (.index 0 listed)
  else none

/-- The loader of two users, of whom one has a colon in the name. -/
def bareLoader (user : Bytes) : Except Bytes (SnapshotOf (Uuid.ofByte 10) user) :=
  if user = bytes "u-1" ∨ user = bytes "svc:2" then
    .ok ⟨{ bareSnapshot with userID := user }, rfl, rfl⟩
  else .error (bytes "no such user")

/-- The entry of workspace `...01`, which the user left. -/
def staleEntry : WorkspaceEntry := ⟨[bytes "chart.dashboard.update"], false⟩

/-- The keys of a user who was an admin and in workspace `...01`. -/
def staleStore : Store := bareStore true (some staleEntry)
  [keyWorkspace (Uuid.ofByte 10).text (bytes "u-1") (Uuid.ofByte 1).text]

theorem bare_reads : (bareSnapshot.reader sampleExt false).reads sampleExt bareInput =
    [.catalog, .userFlags, .workspace] := by decide

theorem bare_catalog (admin : Bool) (ws : Option WorkspaceEntry) (listed : List Bytes) :
    Answers sampleExt false bareSnapshot bareInput (bareStore admin ws listed catalogKey)
      .catalog := by
  have hcell : bareStore admin ws listed catalogKey = some (.catalog 1 bareSnapshot.catalog) :=
    if_pos rfl
  rw [hcell]
  exact ⟨fun _ => by decide, nofun⟩

theorem bare_current : ∀ k ∈ (bareSnapshot.reader sampleExt false).reads sampleExt bareInput,
    Current sampleExt false bareSnapshot bareInput (bareStore false none []) k := by
  rw [bare_reads]
  simp only [List.forall_mem_cons, List.not_mem_nil, false_implies, implies_true, and_true]
  refine ⟨bare_catalog _ _ _, fun _ _ _ _ => by decide, .inr ⟨by decide, by decide, fun _ => ?_⟩⟩
  decide

theorem stale_untouched {key : Bytes} (hkey : key ∈ [catalogKey,
      keyFlags (Uuid.ofByte 10).text (bytes "u-1"),
      keyWorkspace (Uuid.ofByte 10).text (bytes "u-1") (Uuid.ofByte 1).text,
      keyIndex (Uuid.ofByte 10).text (bytes "u-1")]) :
    Untouched sampleExt bareLoader [bytes "svc:2", bytes "u-1"] staleStore (bytes "u-1") key := by
  intro v hv hne snap hload
  have hv : v = bytes "svc:2" := (List.mem_cons.mp hv).resolve_right
    fun hmem => hne (List.mem_singleton.mp hmem)
  subst hv
  have hsnap : snap.1 = { bareSnapshot with userID := bytes "svc:2" } :=
    congrArg Subtype.val (Except.ok.inj hload).symm
  rw [hsnap]
  rintro (hindex | hlisted | ⟨autonomous, hpair⟩)
  · revert hindex
    revert key
    decide
  · exact absurd hlisted (by
      have hnone : readIndex staleStore (Uuid.ofByte 10).text (bytes "svc:2") = [] := by decide
      exact hnone ▸ List.not_mem_nil)
  · refine hpair ?_
    clear hpair
    revert key
    cases autonomous <;> decide

theorem stale_mendable : ∀ k ∈ (bareSnapshot.reader sampleExt false).reads sampleExt bareInput,
    Mendable sampleExt false bareLoader [bytes "svc:2", bytes "u-1"] staleStore bareSnapshot
      bareInput k := by
  rw [bare_reads]
  simp only [List.forall_mem_cons, List.not_mem_nil, false_implies, implies_true, and_true]
  refine ⟨⟨stale_untouched (by decide), .inl (bare_catalog _ _ _), ?_⟩,
    ⟨stale_untouched (by decide), .inr ⟨?_, .inl (Option.some_ne_none _)⟩, nofun⟩,
    ⟨stale_untouched (by decide), .inr ⟨?_, .inr ⟨by decide, stale_untouched (by decide)⟩⟩, ?_⟩⟩
  · exact fun _ hlisted => absurd hlisted (by decide)
  · have hcell : staleStore (keyFlags (Uuid.ofByte 10).text (bytes "u-1")) =
        some (.flags 0 ⟨true, [], []⟩) := rfl
    intro val hval
    obtain rfl := Option.some.inj (hcell.symm.trans hval)
    decide
  · have hcell : staleStore (keyWorkspace (Uuid.ofByte 10).text (bytes "u-1")
        (Uuid.ofByte 1).text) = some (.ws 0 staleEntry) := rfl
    intro val hval
    obtain rfl := Option.some.inj (hcell.symm.trans hval)
    decide
  · exact fun _ _ => ⟨by decide, by decide, fun _ => by decide⟩

/-- The request is decided as over the snapshot: over keys that are current, and after
the repair of a user who is no longer an admin and left the workspace, with the repair of
another before it. -/
theorem verify_decides_alike_bare :
    ((redisReader sampleExt (bareStore false none [])).decide sampleExt bareInput).run.allowed =
        ((bareSnapshot.reader sampleExt false).decide sampleExt bareInput).run.allowed ∧
      ((redisReader sampleExt (verify sampleExt bareLoader true [bytes "svc:2", bytes "u-1"]
          staleStore).1.1).decide sampleExt bareInput).run.allowed =
        ((bareSnapshot.reader sampleExt false).decide sampleExt bareInput).run.allowed :=
  ⟨(verify_decides_alike sampleExt false).1 (bareStore false none []) bareSnapshot bareInput
    ⟨rfl, rfl⟩ (by decide) bare_current,
  (verify_decides_alike sampleExt false).2 (Uuid.ofByte 10) bareLoader
    [bytes "svc:2", bytes "u-1"] staleStore (bytes "u-1") (by decide) ⟨bareSnapshot, rfl, rfl⟩ rfl
    bareInput ⟨rfl, rfl⟩ stale_mendable⟩

/-- The entry of a workspace that the user left is not compared, and is read. -/
theorem stale_workspace_matches : bareSnapshot.Asked bareInput ∧
      matchesFlat (redisReader sampleExt (bareStore false (some staleEntry) []))
        (flatten sampleExt bareSnapshot) = true ∧
      ((redisReader sampleExt (bareStore false (some staleEntry) [])).decide sampleExt
        bareInput).run.allowed = true ∧
      ((bareSnapshot.reader sampleExt false).decide sampleExt bareInput).run.allowed = false :=
  ⟨⟨rfl, rfl⟩, by decide, by decide, by decide⟩

end Windrose.Rbac

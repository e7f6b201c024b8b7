/-
  Rbac/Grants.lean --- the content grants of a tenant and their owners.

  Source: services/rbac-service/internal/store/grants.go, domain/urn.go (ParseURN)
  and migrations/000001_init.up.sql (content_grants).

  Each operation is one transaction on the table of grants: an error rolls it back.
  The rows of the other tables a transaction reads are an argument of the
  operation, since other transactions may change them in between.  The queue of
  dirty users and the outbox, which these operations only append to, are left out.
-/
import Windrose.Foundation.Runs
import Windrose.Rbac.Flatten

set_option autoImplicit false

namespace Windrose.Rbac

open Windrose.Foundation

/-! ## Resource names -/

/-- A text at its first separator. -/
def cut (sep : UInt8) (s : Bytes) : Option (Bytes × Bytes) :=
  if sep ∈ s then some (s.takeWhile (· ≠ sep), (s.dropWhile (· ≠ sep)).tail) else none

/-- `URN`. -/
structure Urn where
  tenantID : Bytes
  service : Bytes
  resourceType : Bytes
  resourceID : Bytes
  deriving DecidableEq

/-- `ParseURN`: the scheme `wr`, three colons, and a slash in the last part. -/
def parseURN (s : Bytes) : Option Urn := do
  let (scheme, rest) ← cut 58 s
  let (tenant, rest) ← cut 58 rest
  let (service, resource) ← cut 58 rest
  if scheme ≠ bytes "wr" then none
  else do
    let (typ, id) ← cut 47 resource
    if typ = [] ∨ id = [] ∨ tenant = [] ∨ service = [] then none
    else some ⟨tenant, service, typ, id⟩

/-! ## The table -/

/-- The subject of a grant: one of the two columns, as the subject type says. -/
inductive GrantSubject where
  | user (id : Bytes)
  | group (id : Uuid)
  deriving DecidableEq

/-- `ContentGrant`: a row of `content_grants`. -/
structure ContentGrant where
  id : Uuid
  workspaceID : Uuid
  resourceURN : Bytes
  subject : GrantSubject
  level : GrantLevel
  implicit : Bool
  createdAt : Int
  updatedAt : Int
  deriving DecidableEq

/-- The columns of the unique index `uq_content_grants`. -/
def ContentGrant.key (g : ContentGrant) : Uuid × Bytes × GrantSubject :=
  (g.workspaceID, g.resourceURN, g.subject)

/-- The grants of a tenant, with the constraints of the table. -/
structure GrantTable where
  rows : List ContentGrant
  ids : (rows.map (·.id)).Nodup
  keys : (rows.map (·.key)).Nodup
  levels : ∀ g ∈ rows, g.level.valid = true

namespace GrantTable

def empty : GrantTable := ⟨[], List.nodup_nil, List.nodup_nil, fun _ h => by cases h⟩

/-- `INSERT`; `none` is a violated constraint. -/
def insert (t : GrantTable) (g : ContentGrant) : Option GrantTable :=
  if h : g.id ∉ t.rows.map (·.id) ∧ g.key ∉ t.rows.map (·.key) ∧ g.level.valid = true then
    some {
      rows := t.rows ++ [g]
      ids := by
        rw [List.map_append]
        exact t.ids.append (List.nodup_singleton _) (by simpa using h.1)
      keys := by
        rw [List.map_append]
        exact t.keys.append (List.nodup_singleton _) (by simpa using h.2.1)
      levels := by
        intro x hx
        obtain hx | hx := List.mem_append.mp hx
        · exact t.levels x hx
        · rw [List.mem_singleton.mp hx]
          exact h.2.2 }
  else none

/-- `DELETE` of the rows with `p`. -/
def deleteWhere (t : GrantTable) (p : ContentGrant → Bool) : GrantTable where
  rows := t.rows.filter (!p ·)
  ids := t.ids.sublist (List.filter_sublist.map _)
  keys := t.keys.sublist (List.filter_sublist.map _)
  levels g hg := t.levels g (List.mem_of_mem_filter hg)

/-- What `ON CONFLICT DO UPDATE` makes of the row in its way. -/
def toAssignment (now : Int) (g : ContentGrant) : ContentGrant :=
  { g with level := .editor, implicit := true, updatedAt := now }

/-- The update of the row with a key. -/
def updateKey (t : GrantTable) (key : Uuid × Bytes × GrantSubject) (now : Int) : GrantTable where
  rows := t.rows.map fun g => if g.key = key then toAssignment now g else g
  ids := by
    have hid : ∀ g : ContentGrant, (if g.key = key then toAssignment now g else g).id = g.id := by
      intro g
      split <;> rfl
    rw [List.map_map]
    simpa [Function.comp_def, hid] using t.ids
  keys := by
    have hkey : ∀ g : ContentGrant,
        (if g.key = key then toAssignment now g else g).key = g.key := by
      intro g
      split <;> rfl
    rw [List.map_map]
    simpa [Function.comp_def, hkey] using t.keys
  levels := by
    intro g hg
    obtain ⟨x, hx, rfl⟩ := List.mem_map.mp hg
    split
    · rfl
    · exact t.levels x hx

end GrantTable

/-! ## The operations -/

/-- `GroupType`. -/
inductive GroupType where
  | permission
  | content
  deriving DecidableEq

/-- The rows of other tables that a transaction reads. -/
structure Tables where
  /-- The workspaces, with whether they are archived. -/
  workspaces : Uuid → Option Bool
  groups : Uuid → Option GroupType
  workspaceGroups : Uuid → Uuid → Bool

/-- The texts of the errors. -/
inductive Message where
  | text (t : Bytes)
  /-- `invalid urn %q: want wr:<tenant>:<service>:<type>/<id>`. -/
  | invalidURN (urn : Bytes)
  deriving DecidableEq

/-- The codes of the errors. -/
inductive ErrorCode where
  | conflict
  | workspaceArchived
  | lastAdmin
  | groupNotInWorkspace
  | validationFailed
  deriving DecidableEq

/-- The errors of the store; `database` is a violated constraint passed on. -/
inductive StoreError where
  | notFound
  | conflict (code : ErrorCode) (message : Message)
  | validation (code : ErrorCode) (message : Message)
  | database
  deriving DecidableEq

/-- `SubjectType`. -/
inductive SubjectType where
  | user
  | group
  | other (text : Bytes)
  deriving DecidableEq

/-- `CreateGrantParams`; an empty `maxLevel` is no cap. -/
structure CreateGrantParams where
  workspaceID : Uuid
  resourceURN : Bytes
  subjectType : SubjectType
  subjectID : Bytes
  level : GrantLevel
  implicit : Bool
  maxLevel : GrantLevel

/-- The text of a level. -/
def GrantLevel.text : GrantLevel → Bytes
  | viewer => bytes "viewer"
  | editor => bytes "editor"
  | owner => bytes "owner"
  | other t => t

/-- A failed validation. -/
def invalid (text : String) : StoreError := .validation .validationFailed (.text (bytes text))

/-- The subject of a new grant: a group has to be a content group that is linked to the
workspace. -/
def grantSubject (env : Ext) (db : Tables) (p : CreateGrantParams) :
    Except StoreError GrantSubject :=
  match p.subjectType with
  | .group =>
    match env.parse p.subjectID with
    | none => .error (invalid "subject.id must be a group uuid")
    | some gid =>
      match db.groups gid with
      | none => .error .notFound
      | some .permission => .error (invalid "grants target content groups only")
      | some .content =>
        if db.workspaceGroups p.workspaceID gid then .ok (.group gid)
        else .error (.validation .groupNotInWorkspace
          (.text (bytes "group is not linked to the grant's workspace")))
  | .user =>
    if p.subjectID = [] then .error (invalid "subject.id is required")
    else .ok (.user p.subjectID)
  | .other _ => .error (invalid "subject.type must be user|group")

/-- The checks of `CreateGrant`, with the subject they find. -/
def checkGrant (env : Ext) (db : Tables) (p : CreateGrantParams) :
    Except StoreError GrantSubject :=
  if !p.level.valid then .error (invalid "level must be viewer|editor|owner")
  else if (parseURN p.resourceURN).isNone then
    .error (.validation .validationFailed (.invalidURN p.resourceURN))
  else if p.maxLevel ≠ .other [] ∧ !levelAtLeast p.maxLevel p.level then
    .error (.validation .validationFailed
      (.text (bytes "caller may grant at most " ++ p.maxLevel.text)))
  else
    match db.workspaces p.workspaceID with
    | none => .error .notFound
    | some true => .error (.conflict .workspaceArchived (.text (bytes "workspace is archived")))
    | some false => grantSubject env db p

/-- `CreateGrant`, with the id and the time of the new row. -/
def createGrant (env : Ext) (db : Tables) (id : Uuid) (now : Int) (p : CreateGrantParams)
    (t : GrantTable) : Except StoreError (GrantTable × ContentGrant) :=
  match checkGrant env db p with
  | .error e => .error e
  | .ok subject =>
    let g : ContentGrant :=
      ⟨id, p.workspaceID, p.resourceURN, subject, p.level, p.implicit, now, now⟩
    match t.insert g with
    | none => .error (.conflict .conflict
        (.text (bytes "grant already exists for this subject and resource")))
    | some t' => .ok (t', g)

/-- `CreateImplicitOwnerGrant`: an existing grant wins. -/
def createImplicitOwnerGrant (env : Ext) (db : Tables) (id : Uuid) (now : Int)
    (workspaceID : Uuid) (resourceURN creatorUserID : Bytes) (t : GrantTable) :
    Except StoreError GrantTable :=
  match createGrant env db id now
    ⟨workspaceID, resourceURN, .user, creatorUserID, .owner, true, .other []⟩ t with
  | .ok (t', _) => .ok t'
  | .error (.conflict .conflict _) => .ok t
  | .error e => .error e

/-- The grants of an assignment: the implicit editor grants of users on a resource. -/
def isAssignment (resourceURN : Bytes) (who : Bytes → Bool) (g : ContentGrant) : Bool :=
  g.resourceURN = resourceURN && g.implicit && g.level = .editor &&
    match g.subject with
    | .user u => who u
    | .group _ => false

/-- The users of the rows that a `DELETE` returns. -/
def returnedUsers (t : GrantTable) (p : ContentGrant → Bool) : List Bytes :=
  (t.rows.filter p).filterMap fun g =>
    match g.subject with
    | .user u => some u
    | .group _ => none

/-- `UpsertAssignmentGrant`: the other assignees lose their implicit editor grants, and
the row of the assignee is inserted, or the row in its way rewritten. -/
def upsertAssignmentGrant (db : Tables) (id : Uuid) (now : Int) (workspaceID : Uuid)
    (resourceURN assigneeID : Bytes) (t : GrantTable) :
    Except StoreError (GrantTable × List Bytes) :=
  if (parseURN resourceURN).isNone then
    .error (.validation .validationFailed (.invalidURN resourceURN))
  else
    let others := isAssignment resourceURN (· ≠ assigneeID)
    let affected := assigneeID :: returnedUsers t others
    let t := t.deleteWhere others
    let g : ContentGrant :=
      ⟨id, workspaceID, resourceURN, .user assigneeID, .editor, true, now, now⟩
    if g.key ∈ t.rows.map (·.key) then .ok (t.updateKey g.key now, affected)
    else if (db.workspaces workspaceID).isNone then .error .database
    else
      match t.insert g with
      | none => .error .database
      | some t' => .ok (t', affected)

/-- `RemoveAssignmentGrant`; an empty assignee stands for all of them. -/
def removeAssignmentGrant (resourceURN assigneeID : Bytes) (t : GrantTable) :
    GrantTable × List Bytes :=
  let p := isAssignment resourceURN fun u => assigneeID = [] || u = assigneeID
  (t.deleteWhere p, returnedUsers t p)

/-- `DeleteGrant`: the last owner of a resource stays. -/
def deleteGrant (id : Uuid) (overrideReason : Bytes) (superAdmin : Bool) (t : GrantTable) :
    Except StoreError GrantTable :=
  match t.rows.find? (·.id = id) with
  | none => .error .notFound
  | some g =>
    let owners := t.rows.countP fun x => x.resourceURN = g.resourceURN && x.level = .owner
    if g.level = .owner && owners ≤ 1 && !(superAdmin && overrideReason ≠ []) then
      .error (.conflict .lastAdmin (.text (bytes "cannot remove the last owner of a resource")))
    else .ok (t.deleteWhere (·.id = id))

/-- The operations, without an override by a super admin. -/
inductive GrantOp where
  | createGrant (db : Tables) (id : Uuid) (now : Int) (p : CreateGrantParams)
  | createImplicitOwnerGrant (db : Tables) (id : Uuid) (now : Int) (workspaceID : Uuid)
      (resourceURN creatorUserID : Bytes)
  | upsertAssignmentGrant (db : Tables) (id : Uuid) (now : Int) (workspaceID : Uuid)
      (resourceURN assigneeID : Bytes)
  | removeAssignmentGrant (resourceURN assigneeID : Bytes)
  | deleteGrant (id : Uuid) (overrideReason : Bytes) (superAdmin : Bool)
      (noOverride : (superAdmin && overrideReason ≠ []) = false)

/-- The table after a transaction; an error rolls it back. -/
def commit {α : Type} (t : GrantTable) (f : α → GrantTable) : Except StoreError α → GrantTable
  | .ok a => f a
  | .error _ => t

/-- One transaction. -/
def GrantTable.step (env : Ext) (t : GrantTable) : GrantOp → GrantTable
  | .createGrant db id now p => commit t Prod.fst (createGrant env db id now p t)
  | .createImplicitOwnerGrant db rowID now ws urn creator =>
    commit t id (createImplicitOwnerGrant env db rowID now ws urn creator t)
  | .upsertAssignmentGrant db id now ws urn assignee =>
    commit t Prod.fst (upsertAssignmentGrant db id now ws urn assignee t)
  | .removeAssignmentGrant urn assignee => (removeAssignmentGrant urn assignee t).1
  | .deleteGrant rowID reason superAdmin _ => commit t id (deleteGrant rowID reason superAdmin t)

/-! ## What the operations leave -/

/-- The resource has an owner. -/
def HasOwner (t : GrantTable) (urn : Bytes) : Prop :=
  ∃ g ∈ t.rows, g.resourceURN = urn ∧ g.level = .owner

/-- The grants that an assignment must not touch: those of a human share, and those of
an owner. -/
def IsShare (g : ContentGrant) : Prop := g.implicit = false ∨ g.level = .owner

instance (t : GrantTable) (urn : Bytes) : Decidable (HasOwner t urn) :=
  inferInstanceAs (Decidable (∃ g ∈ t.rows, _))

/-- An assignment leaves the shares as they are. -/
def Spares (env : Ext) (t : GrantTable) : GrantOp → Prop
  | .upsertAssignmentGrant db id now ws urn assignee => ∀ g ∈ t.rows, IsShare g →
      g ∈ (t.step env (.upsertAssignmentGrant db id now ws urn assignee)).rows
  | .removeAssignmentGrant urn assignee => ∀ g ∈ t.rows, IsShare g →
      g ∈ (t.step env (.removeAssignmentGrant urn assignee)).rows
  | _ => True

/-- The assignee has no share of the resource in the workspace of the assignment. -/
def Unshared (t : GrantTable) : GrantOp → Prop
  | .upsertAssignmentGrant _ _ _ ws urn assignee => (parseURN urn).isSome = true →
      ∀ g ∈ t.rows, g.key = (ws, urn, .user assignee) → ¬IsShare g
  | _ => True

variable {g : ContentGrant} {urn : Bytes} {t t' : GrantTable} {now : Int} {env : Ext}

theorem not_isShare_of_isAssignment {who : Bytes → Bool}
    (h : isAssignment urn who g = true) : ¬IsShare g := by
  simp only [isAssignment, Bool.and_eq_true, decide_eq_true_eq] at h
  rintro (himplicit | howner)
  · rw [h.1.1.2] at himplicit
    cases himplicit
  · rw [h.1.2] at howner
    cases howner

theorem mem_deleteWhere_isAssignment {who : Bytes → Bool} (hg : g ∈ t.rows) (hshare : IsShare g) :
    g ∈ (t.deleteWhere (isAssignment urn who)).rows := by
  refine List.mem_filter.mpr ⟨hg, ?_⟩
  rw [Bool.not_eq_true']
  apply Bool.eq_false_of_not_eq_true
  intro h
  exact not_isShare_of_isAssignment h hshare

theorem rows_insert (h : t.insert g = some t') : t'.rows = t.rows ++ [g] := by
  unfold GrantTable.insert at h
  split at h
  · cases h
    rfl
  · cases h

theorem rows_updateKey_of_ne {key : Uuid × Bytes × GrantSubject}
    (hg : g ∈ t.rows) (hne : g.key ≠ key) : g ∈ (t.updateKey key now).rows :=
  List.mem_map.mpr ⟨g, hg, if_neg hne⟩

theorem not_isShare_of_mem_updateKey {key : Uuid × Bytes × GrantSubject}
    (hg : g ∈ (t.updateKey key now).rows) (hkey : g.key = key) : ¬IsShare g := by
  obtain ⟨x, -, rfl⟩ := List.mem_map.mp hg
  split at hkey
  · rw [if_pos ‹_›]
    simp [IsShare, GrantTable.toAssignment]
  · exact absurd hkey ‹_›

theorem spares_upsert_iff (env : Ext) (t : GrantTable) (db : Tables) (id : Uuid) (now : Int)
    (ws : Uuid) (urn assignee : Bytes) :
    Spares env t (.upsertAssignmentGrant db id now ws urn assignee) ↔
      Unshared t (.upsertAssignmentGrant db id now ws urn assignee) := by
  simp only [Spares, Unshared, GrantTable.step, upsertAssignmentGrant]
  cases hparse : parseURN urn with
  | none =>
    simp only [Option.isNone_none, if_true, commit, Option.isSome_none, Bool.false_eq_true,
      false_implies, iff_true]
    exact fun g hg _ => hg
  | some u =>
    simp only [Option.isNone_some, Bool.false_eq_true, if_false, Option.isSome_some, forall_const]
    have hkeep : ∀ g ∈ t.rows, IsShare g →
        g ∈ (t.deleteWhere (isAssignment urn (· ≠ assignee))).rows :=
      fun g hg hshare => mem_deleteWhere_isAssignment hg hshare
    -- A share of the assignee in the way is still there after the first statement.
    have hway : ∀ g ∈ t.rows, g.key = (ws, urn, .user assignee) → IsShare g →
        (ws, urn, GrantSubject.user assignee) ∈
          (t.deleteWhere (isAssignment urn (· ≠ assignee))).rows.map (·.key) :=
      fun g hg hkey hshare => List.mem_map.mpr ⟨g, hkeep g hg hshare, hkey⟩
    split
    · simp only [commit]
      constructor
      · intro h g hg hkey hshare
        exact not_isShare_of_mem_updateKey (h g hg hshare) hkey hshare
      · intro h g hg hshare
        exact rows_updateKey_of_ne (hkeep g hg hshare) fun hkey => h g hg hkey hshare
    · next hfree =>
      have hunshared : ∀ g ∈ t.rows, g.key = (ws, urn, .user assignee) → ¬IsShare g :=
        fun g hg hkey hshare => hfree (hway g hg hkey hshare)
      refine ⟨fun _ => hunshared, fun _ g hg hshare => ?_⟩
      split
      · exact hg
      · split
        · exact hg
        · next t' hinsert =>
          simp only [commit, rows_insert hinsert]
          exact List.mem_append_left _ (hkeep g hg hshare)

theorem spares_iff (env : Ext) (t : GrantTable) (op : GrantOp) :
    Spares env t op ↔ Unshared t op := by
  cases op with
  | upsertAssignmentGrant db id now ws urn assignee =>
    exact spares_upsert_iff env t db id now ws urn assignee
  | removeAssignmentGrant urn assignee =>
    refine ⟨fun _ => trivial, fun _ g hg hshare => ?_⟩
    exact mem_deleteWhere_isAssignment hg hshare
  | createGrant db id now p => exact Iff.rfl
  | createImplicitOwnerGrant db id now ws urn creator => exact Iff.rfl
  | deleteGrant id reason superAdmin noOverride => exact Iff.rfl

/-! ## Owners -/

theorem HasOwner.mono (h : HasOwner t urn)
    (hrows : ∀ g ∈ t.rows, g.level = .owner → g ∈ t'.rows) : HasOwner t' urn := by
  obtain ⟨g, hg, hurn, hlevel⟩ := h
  exact ⟨g, hrows g hg hlevel, hurn, hlevel⟩

theorem mem_createGrant {db : Tables} {id : Uuid} {p : CreateGrantParams}
    {r : GrantTable × ContentGrant} (h : createGrant env db id now p t = .ok r)
    (hg : g ∈ t.rows) : g ∈ r.1.rows := by
  unfold createGrant at h
  split at h
  · cases h
  · simp only at h
    split at h
    · cases h
    · next hinsert =>
      cases h
      rw [rows_insert hinsert]
      exact List.mem_append_left _ hg

theorem GrantTable.eq_of_id (t : GrantTable) {h : ContentGrant} (hg : g ∈ t.rows)
    (hh : h ∈ t.rows) (hid : g.id = h.id) : g = h :=
  List.inj_on_of_nodup_map t.ids hg hh hid

theorem exists_other_owner (hg : g ∈ t.rows) (hlevel : g.level = .owner)
    (hcount : 1 < t.rows.countP fun x => x.resourceURN = g.resourceURN && x.level = .owner) :
    ∃ x ∈ t.rows, x ≠ g ∧ x.resourceURN = g.resourceURN ∧ x.level = .owner := by
  have hnodup : (t.rows.filter fun x => x.resourceURN = g.resourceURN && x.level = .owner).Nodup :=
    (List.Nodup.of_map _ t.ids).filter _
  have hmem : g ∈ t.rows.filter fun x => x.resourceURN = g.resourceURN && x.level = .owner := by
    simp [hg, hlevel]
  have hpos : 0 < ((t.rows.filter fun x => x.resourceURN = g.resourceURN &&
      x.level = .owner).erase g).length := by
    rw [List.length_erase_of_mem hmem, ← List.countP_eq_length_filter]
    omega
  obtain ⟨x, hx⟩ := List.exists_mem_of_length_pos hpos
  obtain ⟨hne, hx⟩ := (hnodup.mem_erase_iff).mp hx
  rw [List.mem_filter, Bool.and_eq_true, decide_eq_true_eq, decide_eq_true_eq] at hx
  exact ⟨x, hx.1, hne, hx.2⟩

theorem hasOwner_deleteGrant {id : Uuid} {reason : Bytes} {superAdmin : Bool}
    (hno : (superAdmin && reason ≠ []) = false) (h : HasOwner t urn)
    (hdel : deleteGrant id reason superAdmin t = .ok t') : HasOwner t' urn := by
  unfold deleteGrant at hdel
  split at hdel
  · cases hdel
  · next g hfind =>
    have hg : g ∈ t.rows := List.mem_of_find?_eq_some hfind
    have hid : g.id = id := by simpa using List.find?_some hfind
    simp only [hno, Bool.not_false, Bool.and_true] at hdel
    split at hdel
    · cases hdel
    · next hlast =>
      cases hdel
      have hother : ∀ x ∈ t.rows, x ≠ g → x ∈ (t.deleteWhere (·.id = id)).rows := by
        intro x hx hne
        refine List.mem_filter.mpr ⟨hx, ?_⟩
        simp only [Bool.not_eq_true', decide_eq_false_iff_not]
        intro hxid
        exact hne (t.eq_of_id hx hg (hxid.trans hid.symm))
      obtain ⟨x, hx, hurn, hlevel⟩ := h
      by_cases hxg : x = g
      · subst hxg
        have hcount : 1 < t.rows.countP fun y =>
            y.resourceURN = x.resourceURN && y.level = .owner := by
          simpa [hlevel] using hlast
        obtain ⟨y, hy, hne, hyurn, hylevel⟩ := exists_other_owner hx hlevel hcount
        exact ⟨y, hother y hy hne, hyurn.trans hurn, hylevel⟩
      · exact ⟨x, hother x hx hxg, hurn, hlevel⟩

theorem hasOwner_step {op : GrantOp}
    (hspares : Spares env t op) (h : HasOwner t urn) : HasOwner (t.step env op) urn := by
  cases op with
  | createGrant db id now p =>
    refine h.mono fun g hg _ => ?_
    simp only [GrantTable.step]
    cases hcreate : createGrant env db id now p t with
    | error e => exact hg
    | ok r => exact mem_createGrant hcreate hg
  | createImplicitOwnerGrant db rowID now ws u creator =>
    refine h.mono fun g hg _ => ?_
    simp only [GrantTable.step, createImplicitOwnerGrant]
    split
    · next hcreate => exact mem_createGrant hcreate hg
    · exact hg
    · exact hg
  | upsertAssignmentGrant db id now ws u assignee =>
    exact h.mono fun g hg hlevel => hspares g hg (.inr hlevel)
  | removeAssignmentGrant u assignee => exact h.mono fun g hg hlevel => hspares g hg (.inr hlevel)
  | deleteGrant rowID reason superAdmin noOverride =>
    simp only [GrantTable.step]
    cases hdel : deleteGrant rowID reason superAdmin t with
    | error e => exact h
    | ok t' => exact hasOwner_deleteGrant noOverride h hdel

/-! ## Sequences of operations -/

/-- A resource that has an owner at some point of the run has one ever after. -/
def KeepsOwners (env : Ext) (t : GrantTable) (ops : List GrantOp) : Prop :=
  ∀ urn done more, done ++ more <+: ops → HasOwner (run (GrantTable.step env) t done) urn →
    HasOwner (run (GrantTable.step env) t (done ++ more)) urn

theorem keepsOwners_of_each {ops : List GrantOp}
    (h : Each (GrantTable.step env) (Spares env) t ops) : KeepsOwners env t ops := by
  intro urn done more
  induction more using List.reverseRecOn with
  | nil =>
    intro _ howner
    rw [List.append_nil]
    exact howner
  | append_singleton more op ih =>
    intro hpre howner
    rw [← List.append_assoc] at hpre ⊢
    rw [run_snoc]
    exact hasOwner_step (h (done ++ more) op hpre)
      (ih ((List.prefix_append _ [op]).trans hpre) howner)

/-- Every sequence keeps the owners and has its assignments leave the shares as they
were, exactly when no assignment meets a share of its own assignee in its way. -/
theorem grants_kept_iff (env : Ext) (t : GrantTable) (ops : List GrantOp) :
    (KeepsOwners env t ops ∧ Each (GrantTable.step env) (Spares env) t ops) ↔
      Each (GrantTable.step env) Unshared t ops := by
  have heach : Each (GrantTable.step env) (Spares env) t ops ↔
      Each (GrantTable.step env) Unshared t ops :=
    forall_congr' fun done => forall_congr' fun op => imp_congr_right fun _ => spares_iff env _ op
  rw [← heach]
  exact ⟨And.right, fun h => ⟨keepsOwners_of_each h, h⟩⟩

/-- The creator of a case is assigned to it: the assignment rewrites the owner grant. -/
theorem grants_not_kept : let urn := bytes "wr:t-a:case:case/c-1"
    let db : Tables := ⟨fun _ => some false, fun _ => none, fun _ _ => false⟩
    let t := GrantTable.empty.step sampleExt
      (.createImplicitOwnerGrant db (Uuid.ofByte 21) 0 (Uuid.ofByte 1) urn (bytes "u-1"))
    let op : GrantOp :=
      .upsertAssignmentGrant db (Uuid.ofByte 22) 1 (Uuid.ofByte 1) urn (bytes "u-1")
    HasOwner t urn ∧ ¬HasOwner (t.step sampleExt op) urn ∧ ¬Spares sampleExt t op := by
  intro urn db t op
  have hbefore : HasOwner t urn := by decide
  have hafter : ¬HasOwner (t.step sampleExt op) urn := by decide
  exact ⟨hbefore, hafter, fun hspares => hafter (hasOwner_step hspares hbefore)⟩

end Windrose.Rbac

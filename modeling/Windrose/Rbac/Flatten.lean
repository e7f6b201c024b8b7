/-
  Rbac/Flatten.lean --- the flattening of one user's permissions.

  Source: services/rbac-service/internal/projection/flatten.go.
-/
import Mathlib.Data.List.Dedup
import Windrose.Rbac.Domain

set_option autoImplicit false

namespace Windrose.Rbac

open Windrose.Foundation

/-! ## Snapshots and projections -/

/-- `WorkspaceRef`. -/
structure WorkspaceRef where
  id : Uuid
  archived : Bool
  deriving DecidableEq

/-- `ResourceGrant`. -/
structure ResourceGrant where
  urn : Bytes
  level : GrantLevel
  workspaceID : Uuid
  archived : Bool
  deriving DecidableEq

/-- `Snapshot`: the SQL ground truth for one user. -/
structure Snapshot where
  tenantID : Uuid
  userID : Bytes
  admin : Bool
  useCaseAdmin : Bool
  actions : List Bytes
  roles : List Bytes
  assignedWorkspaces : List WorkspaceRef
  resourceGrants : List ResourceGrant
  archivedWorkspaceIDs : List Uuid
  catalog : GoMap Bytes Bool
  version : Int

/-- `Flags`. -/
structure Flags where
  admin : Bool
  wsAdmin : List Uuid
  roles : List Bytes
  deriving DecidableEq

/-- `WorkspaceEntry`. -/
structure WorkspaceEntry where
  actions : List Bytes
  archived : Bool
  deriving DecidableEq

/-- `ResourceEntry`. -/
structure ResourceEntry where
  urn : Bytes
  level : GrantLevel
  workspaceID : Bytes
  archived : Bool
  deriving DecidableEq

/-- `Flat`: the projection of one user. -/
structure Flat where
  tenantID : Uuid
  userID : Bytes
  tenantActions : List Bytes
  workspaceActions : GoMap Uuid WorkspaceEntry
  resources : GoMap Bytes ResourceEntry
  flags : Flags
  catalog : GoMap Bytes Bool
  version : Int

/-! ## Flatten -/

/-- `dedupSorted`. -/
def dedupSorted (l : List Bytes) : List Bytes := l.dedup.insertionSort (· ≤ ·)

@[simp] theorem mem_dedupSorted {a : Bytes} {l : List Bytes} : a ∈ dedupSorted l ↔ a ∈ l := by
  simp [dedupSorted]

namespace Snapshot

/-- The granted actions the catalog registers with this scope. -/
def scopedActions (s : Snapshot) (isScoped : Bool) : List Bytes :=
  (dedupSorted s.actions).filter fun a => s.catalog.lookup a = some isScoped

/-- The entry of one assigned workspace; an archived one keeps the read verbs. -/
def workspaceEntry (s : Snapshot) (w : WorkspaceRef) : WorkspaceEntry where
  actions :=
    if w.archived then (s.scopedActions true).filter (archivedReadVerbs <| actionVerb ·)
    else s.scopedActions true
  archived := w.archived

/-- The loop over the assigned workspaces. -/
def workspaceActions (s : Snapshot) : GoMap Uuid WorkspaceEntry :=
  mapOf (s.assignedWorkspaces.map fun w => (w.id, s.workspaceEntry w))

def wsAdmin (s : Snapshot) : List Uuid :=
  (if s.useCaseAdmin then s.assignedWorkspaces.map (·.id) else []).insertionSort
    (·.text ≤ ·.text)

end Snapshot

/-- One turn of the loop over the grants: of two grants with one hash the level is
the higher, and the entry is live when one of them is. -/
def addGrant (env : Ext) (m : GoMap Bytes ResourceEntry) (g : ResourceGrant) :
    GoMap Bytes ResourceEntry :=
  m.insert (urnHash env g.urn)
    { urn := g.urn
      level :=
        match m.lookup (urnHash env g.urn) with
        | some prev => maxLevel prev.level g.level
        | none => g.level
      workspaceID := g.workspaceID.text
      archived :=
        match m.lookup (urnHash env g.urn) with
        | some prev =>
          if prev.archived ≠ g.archived then prev.archived && g.archived else g.archived
        | none => g.archived }

/-- `Flatten`. -/
def flatten (env : Ext) (s : Snapshot) : Flat where
  tenantID := s.tenantID
  userID := s.userID
  tenantActions := s.scopedActions false
  workspaceActions := s.workspaceActions
  resources := s.resourceGrants.foldl (addGrant env) ∅
  flags := { admin := s.admin, wsAdmin := s.wsAdmin, roles := dedupSorted s.roles }
  catalog := s.catalog
  version := s.version

/-! ## What a projection holds -/

namespace Snapshot

variable {s : Snapshot}

theorem mem_scopedActions {isScoped : Bool} {a : Bytes} :
    a ∈ s.scopedActions isScoped ↔ a ∈ s.actions ∧ s.catalog.lookup a = some isScoped := by
  simp [scopedActions]

theorem mem_workspaceEntry {w : WorkspaceRef} {a : Bytes} :
    a ∈ (s.workspaceEntry w).actions ↔ (a ∈ s.actions ∧ s.catalog.lookup a = some true) ∧
      (w.archived = true → archivedReadVerbs (actionVerb a) = true) := by
  cases h : w.archived <;> simp [workspaceEntry, h, mem_scopedActions]

theorem mem_wsAdmin {u : Uuid} :
    u ∈ s.wsAdmin ↔ s.useCaseAdmin = true ∧ ∃ w ∈ s.assignedWorkspaces, w.id = u := by
  unfold wsAdmin
  rw [List.mem_insertionSort]
  cases h : s.useCaseAdmin <;> simp

theorem exists_of_lookup_workspaceActions {u : Uuid} {e : WorkspaceEntry}
    (h : s.workspaceActions.lookup u = some e) :
    ∃ w ∈ s.assignedWorkspaces, w.id = u ∧ e = s.workspaceEntry w := by
  obtain ⟨w, hw, hp⟩ := List.mem_map.mp (mem_of_lookup_mapOf h)
  obtain ⟨hid, he⟩ := Prod.mk.inj hp
  exact ⟨w, hw, hid, he.symm⟩

theorem exists_lookup_workspaceActions {w : WorkspaceRef}
    (h : w ∈ s.assignedWorkspaces) : ∃ e, s.workspaceActions.lookup w.id = some e :=
  exists_lookup_mapOf (List.mem_map_of_mem h)

end Snapshot

/-! ## Merged grants -/

/-- What the entry of one hash says of the grants it merges. -/
structure Merges (gs : List ResourceGrant) (e : ResourceEntry) : Prop where
  rank_le : ∀ g ∈ gs, levelRank g.level ≤ levelRank e.level
  level_mem : ∃ g ∈ gs, g.level = e.level
  archived_iff : e.archived = true ↔ ∀ g ∈ gs, g.archived = true

/-- The grants of a list with a given hash. -/
def grantsAt (env : Ext) (gs : List ResourceGrant) (h : Bytes) : List ResourceGrant :=
  gs.filter fun g => urnHash env g.urn = h

theorem Merges.singleton (g : ResourceGrant) {e : ResourceEntry} (hlevel : e.level = g.level)
    (harch : e.archived = g.archived) : Merges [g] e := by
  constructor
  · intro g' hg'
    rw [List.mem_singleton.mp hg', hlevel]
  · exact ⟨g, List.mem_singleton_self g, hlevel.symm⟩
  · simp [harch]

theorem Merges.snoc {gs : List ResourceGrant} {prev e : ResourceEntry} (h : Merges gs prev)
    (g : ResourceGrant) (hlevel : e.level = maxLevel prev.level g.level)
    (harch : e.archived = (prev.archived && g.archived)) : Merges (gs ++ [g]) e := by
  constructor
  · intro g' hg'
    rw [hlevel, levelRank_maxLevel]
    obtain hg' | hg' := List.mem_append.mp hg'
    · exact le_max_of_le_left (h.rank_le g' hg')
    · rw [List.mem_singleton.mp hg']
      exact le_max_right _ _
  · obtain ⟨g', hg', hl⟩ := h.level_mem
    rw [hlevel]
    unfold maxLevel
    split
    · exact ⟨g', List.mem_append_left _ hg', hl⟩
    · exact ⟨g, by simp, rfl⟩
  · rw [harch, Bool.and_eq_true, h.archived_iff]
    simp [or_imp, forall_and]

theorem lookup_addGrants (env : Ext) (gs : List ResourceGrant) (h : Bytes) :
    match (gs.foldl (addGrant env) ∅).lookup h with
    | some e => Merges (grantsAt env gs h) e
    | none => grantsAt env gs h = [] := by
  induction gs using List.reverseRecOn with
  | nil => simp [grantsAt]
  | append_singleton gs g ih =>
    rw [List.foldl_append, List.foldl_cons, List.foldl_nil]
    generalize gs.foldl (addGrant env) ∅ = m at ih ⊢
    have hsplit : grantsAt env (gs ++ [g]) h = grantsAt env gs h ++ grantsAt env [g] h :=
      List.filter_append ..
    rw [hsplit]
    unfold addGrant
    by_cases hh : h = urnHash env g.urn
    · have hg : grantsAt env [g] h = [g] := by simp [grantsAt, hh]
      subst hh
      rw [hg, AList.lookup_insert]
      cases hprev : m.lookup (urnHash env g.urn) with
      | none =>
        rw [hprev] at ih
        simp only at ih ⊢
        rw [ih]
        exact Merges.singleton g rfl rfl
      | some prev =>
        rw [hprev] at ih
        refine Merges.snoc ih g rfl ?_
        cases hp : prev.archived <;> cases g.archived <;> simp [hp]
    · have hg : grantsAt env [g] h = [] := by simp [grantsAt, Ne.symm hh]
      rw [hg, List.append_nil, AList.lookup_insert_ne hh]
      exact ih

theorem mem_grantsAt {env : Ext} {gs : List ResourceGrant} {h : Bytes} {g : ResourceGrant} :
    g ∈ grantsAt env gs h ↔ g ∈ gs ∧ urnHash env g.urn = h := by
  simp [grantsAt]

/-! ## A small tenant -/

/-- A user of tenant `...0a` with the dashboard actions and an editor grant on one
dashboard through the live workspace `...01`; workspace `...03` is archived. -/
def sampleSnapshot : Snapshot where
  tenantID := Uuid.ofByte 10
  userID := bytes "u-1"
  admin := false
  useCaseAdmin := false
  actions := [bytes "chart.dashboard.read", bytes "chart.dashboard.update"]
  roles := []
  assignedWorkspaces := []
  resourceGrants := [⟨bytes "wr:t-a:chart:dashboard/d-9", .editor, Uuid.ofByte 1, false⟩]
  archivedWorkspaceIDs := [Uuid.ofByte 3]
  catalog := (AList.singleton (bytes "chart.dashboard.read") true).insert
    (bytes "chart.dashboard.update") true
  version := 1

end Windrose.Rbac

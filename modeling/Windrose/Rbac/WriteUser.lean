/-
  Rbac/WriteUser.lean --- concurrent writers of one user's projection.

  Source: services/rbac-service/internal/projection/redis.go (casSet, WriteUser,
  readIndex, tenantAutonomous).

  A call is a phase with what its local variables hold.  A step is one command to
  Redis: the read of the tenant's flags, the read of the index, one
  compare-and-set of a key (the map of pairs is ranged over in any order), one
  tombstone, and the write of the index.  The steps of the calls interleave in any
  order; a step that a call cannot take changes nothing.
-/
import Windrose.Foundation.Double
import Windrose.Foundation.LastWriter
import Windrose.Foundation.Runs
import Windrose.Rbac.PyProjection

set_option autoImplicit false

namespace Windrose.Rbac

open Windrose.Foundation

/-! ## Compare and set -/

/-- `casSet`: the script compares the versions as Lua numbers, which are doubles. -/
def casSet (store : Store) (key : Bytes) (val : Value) (version : Int) : Store :=
  match (store key).bind (·.version) with
  | some cur =>
    if toDouble cur ≥ toDouble version then store else Function.update store key (some val)
  | none => Function.update store key (some val)

/-- The rank of a value; one without a version gives way to any. -/
def Value.rank (val : Value) : WithBot Int := (val.version.map toDouble : Option Int)

theorem casSet_eq {store : Store} {key : Bytes} {val : Value} {version : Int}
    (h : val.version = some version) : casSet store key val version =
      Function.update store key (cas Value.rank (store key) val) := by
  have hrank : val.rank = (toDouble version : WithBot Int) := by
    unfold Value.rank
    rw [h]
    rfl
  unfold casSet
  cases hcell : store key with
  | none => rfl
  | some cur =>
    unfold cas
    simp only [Option.bind_some, hrank]
    cases hcur : cur.version with
    | none =>
      have hbot : cur.rank = ⊥ := by
        unfold Value.rank
        rw [hcur]
        rfl
      rw [hbot, if_neg (by simp)]
    | some v =>
      have hv : cur.rank = (toDouble v : WithBot Int) := by
        unfold Value.rank
        rw [hcur]
        rfl
      rw [hv]
      simp only [ge_iff_le, WithBot.coe_le_coe]
      split
      · rw [← hcell, Function.update_eq_self]
      · rfl

/-! ## The keys of a call -/

namespace Flat

variable (f : Flat) (autonomous : Bool)

/-- The pairs of the workspaces. -/
def wsPairs : List (Bytes × Value) :=
  f.workspaceActions.entries.map fun p =>
    (keyWorkspace f.tenantID.text f.userID p.1.text, .ws f.version p.2)

/-- The pairs of the resource grants. -/
def resPairs : List (Bytes × Value) :=
  f.resources.entries.map fun p => (keyResource f.tenantID.text f.userID p.1, .res f.version p.2)

/-- The pairs of the single-key projection. -/
def pyPairs : List (Bytes × Value) :=
  (f.buildPyProjection autonomous).entries.map fun p => (p.1, .py f.version p.2)

/-- The assignments to `pairs`. -/
def pairList : List (Bytes × Value) :=
  (keyActions f.tenantID.text f.userID, .actions f.version f.tenantActions) ::
    (f.wsPairs ++ f.resPairs ++ f.pyPairs autonomous ++
      [(keyFlags f.tenantID.text f.userID, .flags f.version f.flags)])

def pairs : GoMap Bytes Value := mapOf (f.pairList autonomous)

/-- The keys that are read by workspace or by resource. -/
def grantKeys : List Bytes := (f.wsPairs ++ f.resPairs).map (·.1)

def subsidiary : List Bytes := f.grantKeys ++ (f.pyPairs autonomous).map (·.1)

def tomb : Value := .tombstone f.version

/-- The value of the index. -/
def indexValue : Value := .index f.version (f.subsidiary autonomous)

end Flat

/-! ## Which key holds which value -/

/-- The bytes that tell the keys of one user apart: the first, and the one after the
user's name. -/
def keyTag (tenant user key : Bytes) : Option UInt8 × Option UInt8 :=
  (key.head?, (key.drop (tenant.length + user.length + 7)).head?)

section Keys

variable {tenant user : Bytes}

theorem keyTag_append (suffix : Bytes) :
    keyTag tenant user (bytes "perm:" ++ tenant ++ bytes ":" ++ user ++ 58 :: suffix) =
      (some 112, suffix.head?) := by
  have hperm : bytes "perm:" = [112, 101, 114, 109, 58] := rfl
  have hcolon : bytes ":" = [58] := rfl
  have hlen : (bytes "perm:" ++ tenant ++ bytes ":" ++ user ++ [58]).length =
      tenant.length + user.length + 7 := by
    simp only [hperm, hcolon, List.length_append, List.length_cons, List.length_nil]
    omega
  unfold keyTag
  rw [← hlen, ← List.singleton_append, ← List.append_assoc, List.drop_left]
  rfl

@[simp] theorem keyTag_actions : keyTag tenant user (keyActions tenant user) =
    (some 112, some 97) :=
  keyTag_append (bytes "actions")

@[simp] theorem keyTag_workspace (w : Bytes) :
    keyTag tenant user (keyWorkspace tenant user w) = (some 112, some 119) := by
  unfold keyWorkspace
  rw [List.append_assoc]
  exact keyTag_append (bytes "ws:" ++ w)

@[simp] theorem keyTag_resource (h : Bytes) :
    keyTag tenant user (keyResource tenant user h) = (some 112, some 114) := by
  unfold keyResource
  rw [List.append_assoc]
  exact keyTag_append (bytes "res:" ++ h)

@[simp] theorem keyTag_flags : keyTag tenant user (keyFlags tenant user) = (some 112, some 102) :=
  keyTag_append (bytes "flags")

@[simp] theorem keyTag_index : keyTag tenant user (keyIndex tenant user) = (some 112, some 105) :=
  keyTag_append (bytes "index")

theorem keyTag_py (a w : Bytes) :
    (keyTag tenant user (pyProjectionKey tenant user a w)).1 = some 97 := rfl

theorem keyWorkspace_inj {v w : Bytes} :
    keyWorkspace tenant user v = keyWorkspace tenant user w ↔ v = w := by
  unfold keyWorkspace
  exact List.append_right_inj _

theorem keyResource_inj {g h : Bytes} :
    keyResource tenant user g = keyResource tenant user h ↔ g = h := by
  unfold keyResource
  exact List.append_right_inj _

end Keys

namespace Flat

variable {f : Flat} {autonomous : Bool} {k : Bytes} {val : Value}

theorem mem_wsPairs : (k, val) ∈ f.wsPairs ↔ ∃ u e, f.workspaceActions.lookup u = some e ∧
    k = keyWorkspace f.tenantID.text f.userID u.text ∧ val = .ws f.version e := by
  unfold wsPairs
  simp only [List.mem_map, Prod.mk.injEq]
  constructor
  · rintro ⟨⟨u, e⟩, hmem, hk, hv⟩
    exact ⟨u, e, AList.mem_lookup_iff.mpr hmem, hk.symm, hv.symm⟩
  · rintro ⟨u, e, hlookup, hk, hv⟩
    exact ⟨⟨u, e⟩, AList.mem_lookup_iff.mp hlookup, hk.symm, hv.symm⟩

theorem mem_resPairs : (k, val) ∈ f.resPairs ↔ ∃ h e, f.resources.lookup h = some e ∧
    k = keyResource f.tenantID.text f.userID h ∧ val = .res f.version e := by
  unfold resPairs
  simp only [List.mem_map, Prod.mk.injEq]
  constructor
  · rintro ⟨⟨h, e⟩, hmem, hk, hv⟩
    exact ⟨h, e, AList.mem_lookup_iff.mpr hmem, hk.symm, hv.symm⟩
  · rintro ⟨h, e, hlookup, hk, hv⟩
    exact ⟨⟨h, e⟩, AList.mem_lookup_iff.mp hlookup, hk.symm, hv.symm⟩

theorem keyTag_of_mem_pyPairs (h : (k, val) ∈ f.pyPairs autonomous) :
    (keyTag f.tenantID.text f.userID k).1 = some 97 ∧ ∃ p, val = .py f.version p := by
  unfold pyPairs at h
  obtain ⟨⟨key, p⟩, hmem, heq⟩ := List.mem_map.mp h
  obtain ⟨rfl, rfl⟩ := Prod.mk.inj heq
  refine ⟨?_, p, rfl⟩
  have hlookup : (f.buildPyProjection autonomous).lookup key = some p :=
    AList.mem_lookup_iff.mpr hmem
  rw [lookup_buildPyProjection, mem_pyEntries] at hlookup
  obtain ⟨a, -, rfl, -⟩ | ⟨u, e, a, -, -, rfl, -⟩ := hlookup
  · exact keyTag_py a []
  · exact keyTag_py a u.text

theorem mem_pairList : (k, val) ∈ f.pairList autonomous ↔
    (k = keyActions f.tenantID.text f.userID ∧ val = .actions f.version f.tenantActions) ∨
      (k, val) ∈ f.wsPairs ∨ (k, val) ∈ f.resPairs ∨ (k, val) ∈ f.pyPairs autonomous ∨
      (k = keyFlags f.tenantID.text f.userID ∧ val = .flags f.version f.flags) := by
  simp [pairList]

theorem version_of_mem_pairList (h : (k, val) ∈ f.pairList autonomous) :
    val.version = some f.version := by
  rw [mem_pairList, mem_wsPairs, mem_resPairs] at h
  obtain ⟨-, rfl⟩ | ⟨u, e, -, -, rfl⟩ | ⟨h, e, -, -, rfl⟩ | hpy | ⟨-, rfl⟩ := h
  · rfl
  · rfl
  · rfl
  · obtain ⟨-, p, rfl⟩ := keyTag_of_mem_pyPairs hpy
    rfl
  · rfl

theorem keyTag_of_mem_subsidiary (h : k ∈ f.subsidiary autonomous) :
    (keyTag f.tenantID.text f.userID k = (some 112, some 119) ∨
      keyTag f.tenantID.text f.userID k = (some 112, some 114)) ∧ k ∈ f.grantKeys ∨
      (keyTag f.tenantID.text f.userID k).1 = some 97 := by
  unfold subsidiary at h
  obtain h | h := List.mem_append.mp h
  · refine .inl ⟨?_, h⟩
    unfold grantKeys at h
    obtain ⟨⟨key, val⟩, hmem, rfl⟩ := List.mem_map.mp h
    rw [List.mem_append, mem_wsPairs, mem_resPairs] at hmem
    obtain ⟨u, e, -, rfl, -⟩ | ⟨g, e, -, rfl, -⟩ := hmem
    · exact .inl (keyTag_workspace u.text)
    · exact .inr (keyTag_resource g)
  · obtain ⟨⟨key, val⟩, hmem, rfl⟩ := List.mem_map.mp h
    exact .inr (keyTag_of_mem_pyPairs hmem).1

theorem keyTag_of_lookup_pairs (h : (f.pairs autonomous).lookup k = some val) :
    k ∈ f.subsidiary autonomous ∨
      keyTag f.tenantID.text f.userID k = (some 112, some 97) ∨
      keyTag f.tenantID.text f.userID k = (some 112, some 102) := by
  have hgrant : (k, val) ∈ f.wsPairs ++ f.resPairs → k ∈ f.subsidiary autonomous :=
    fun hmem => List.mem_append_left _ (List.mem_map_of_mem hmem)
  have hmem := mem_of_lookup_mapOf h
  rw [mem_pairList] at hmem
  obtain ⟨rfl, -⟩ | hws | hres | hpy | ⟨rfl, -⟩ := hmem
  · exact .inr (.inl keyTag_actions)
  · exact .inl (hgrant (List.mem_append_left _ hws))
  · exact .inl (hgrant (List.mem_append_right _ hres))
  · exact .inl (List.mem_append_right _ (List.mem_map_of_mem hpy))
  · exact .inr (.inr keyTag_flags)

theorem mem_pairList_of_keyTag {x : UInt8}
    (htag : keyTag f.tenantID.text f.userID k = (some 112, some x))
    (h : (k, val) ∈ f.pairList autonomous) :
    (x = 97 ∧ val = .actions f.version f.tenantActions) ∨ (x = 119 ∧ (k, val) ∈ f.wsPairs) ∨
      (x = 114 ∧ (k, val) ∈ f.resPairs) ∨ (x = 102 ∧ val = .flags f.version f.flags) := by
  rw [mem_pairList] at h
  obtain ⟨rfl, rfl⟩ | hws | hres | hpy | ⟨rfl, rfl⟩ := h
  · rw [keyTag_actions] at htag
    simp only [Prod.mk.injEq, Option.some.injEq, true_and] at htag
    exact .inl ⟨htag.symm, rfl⟩
  · obtain ⟨u, e, -, rfl, -⟩ := mem_wsPairs.mp hws
    rw [keyTag_workspace] at htag
    simp only [Prod.mk.injEq, Option.some.injEq, true_and] at htag
    exact .inr (.inl ⟨htag.symm, hws⟩)
  · obtain ⟨h, e, -, rfl, -⟩ := mem_resPairs.mp hres
    rw [keyTag_resource] at htag
    simp only [Prod.mk.injEq, Option.some.injEq, true_and] at htag
    exact .inr (.inr (.inl ⟨htag.symm, hres⟩))
  · have hhead := (keyTag_of_mem_pyPairs hpy).1
    rw [htag] at hhead
    exact absurd (Option.some.inj hhead) (by decide)
  · rw [keyTag_flags] at htag
    simp only [Prod.mk.injEq, Option.some.injEq, true_and] at htag
    exact .inr (.inr (.inr ⟨htag.symm, rfl⟩))

theorem lookup_pairs_index :
    (f.pairs autonomous).lookup (keyIndex f.tenantID.text f.userID) = none := by
  cases h : (f.pairs autonomous).lookup (keyIndex f.tenantID.text f.userID) with
  | none => rfl
  | some val =>
    obtain ⟨hx, -⟩ | ⟨hx, -⟩ | ⟨hx, -⟩ | ⟨hx, -⟩ :=
      mem_pairList_of_keyTag keyTag_index (mem_of_lookup_mapOf h) <;> cases hx

theorem lookup_pairs_actions : (f.pairs autonomous).lookup (keyActions f.tenantID.text f.userID) =
      some (.actions f.version f.tenantActions) := by
  obtain ⟨val, hval⟩ := exists_lookup_mapOf (mem_pairList.mpr (.inl ⟨rfl, rfl⟩) :
    (keyActions f.tenantID.text f.userID, _) ∈ f.pairList autonomous)
  obtain ⟨-, rfl⟩ | ⟨hx, -⟩ | ⟨hx, -⟩ | ⟨hx, -⟩ :=
    mem_pairList_of_keyTag keyTag_actions (mem_of_lookup_mapOf hval)
  · exact hval
  all_goals cases hx

theorem lookup_pairs_flags : (f.pairs autonomous).lookup (keyFlags f.tenantID.text f.userID) =
      some (.flags f.version f.flags) := by
  obtain ⟨val, hval⟩ := exists_lookup_mapOf
    (mem_pairList.mpr (.inr (.inr (.inr (.inr ⟨rfl, rfl⟩)))) :
      (keyFlags f.tenantID.text f.userID, _) ∈ f.pairList autonomous)
  obtain ⟨hx, -⟩ | ⟨hx, -⟩ | ⟨hx, -⟩ | ⟨-, rfl⟩ :=
    mem_pairList_of_keyTag keyTag_flags (mem_of_lookup_mapOf hval)
  · cases hx
  · cases hx
  · cases hx
  · exact hval

theorem lookup_pairs_workspace {w : Bytes} :
    (f.pairs autonomous).lookup (keyWorkspace f.tenantID.text f.userID w) = some val ↔
      ∃ u e, u.text = w ∧ f.workspaceActions.lookup u = some e ∧ val = .ws f.version e := by
  have hread : ∀ {v : Value},
      (f.pairs autonomous).lookup (keyWorkspace f.tenantID.text f.userID w) = some v →
      ∃ u e, u.text = w ∧ f.workspaceActions.lookup u = some e ∧ v = .ws f.version e := by
    intro v hv
    obtain ⟨hx, -⟩ | ⟨-, hmem⟩ | ⟨hx, -⟩ | ⟨hx, -⟩ :=
      mem_pairList_of_keyTag (keyTag_workspace w) (mem_of_lookup_mapOf hv)
    · cases hx
    · obtain ⟨u, e, he, hk, hval⟩ := mem_wsPairs.mp hmem
      exact ⟨u, e, (keyWorkspace_inj.mp hk).symm, he, hval⟩
    · cases hx
    · cases hx
  constructor
  · exact hread
  · rintro ⟨u, e, rfl, he, rfl⟩
    obtain ⟨v, hv⟩ := exists_lookup_mapOf
      (mem_pairList.mpr (.inr (.inl (mem_wsPairs.mpr ⟨u, e, he, rfl, rfl⟩))) :
        (keyWorkspace f.tenantID.text f.userID u.text, _) ∈ f.pairList autonomous)
    obtain ⟨u', e', htext, he', rfl⟩ := hread hv
    rw [Uuid.text_injective htext, he, Option.some.injEq] at he'
    rw [he']
    exact hv

theorem lookup_pairs_resource {h : Bytes} :
    (f.pairs autonomous).lookup (keyResource f.tenantID.text f.userID h) = some val ↔
      ∃ e, f.resources.lookup h = some e ∧ val = .res f.version e := by
  have hread : ∀ {v : Value},
      (f.pairs autonomous).lookup (keyResource f.tenantID.text f.userID h) = some v →
      ∃ e, f.resources.lookup h = some e ∧ v = .res f.version e := by
    intro v hv
    obtain ⟨hx, -⟩ | ⟨hx, -⟩ | ⟨-, hmem⟩ | ⟨hx, -⟩ :=
      mem_pairList_of_keyTag (keyTag_resource h) (mem_of_lookup_mapOf hv)
    · cases hx
    · cases hx
    · obtain ⟨g, e, he, hk, hval⟩ := mem_resPairs.mp hmem
      rw [← keyResource_inj.mp hk] at he
      exact ⟨e, he, hval⟩
    · cases hx
  constructor
  · exact hread
  · rintro ⟨e, he, rfl⟩
    obtain ⟨v, hv⟩ := exists_lookup_mapOf
      (mem_pairList.mpr (.inr (.inr (.inl (mem_resPairs.mpr ⟨h, e, he, rfl, rfl⟩)))) :
        (keyResource f.tenantID.text f.userID h, _) ∈ f.pairList autonomous)
    obtain ⟨e', he', rfl⟩ := hread hv
    rw [he, Option.some.injEq] at he'
    rw [he']
    exact hv

end Flat

/-- `tenantAutonomous`. -/
def tenantAutonomous (store : Store) (tenant : Bytes) : Bool :=
  (store (keyTenantMeta tenant)).any (·.autonomousEnabled)

/-- `readIndex`. -/
def readIndex (store : Store) (tenant user : Bytes) : List Bytes :=
  ((store (keyIndex tenant user)).map (·.keys)).getD []

/-! ## Calls that interleave -/

/-- Where a call is. -/
inductive Phase where
  | idle
  /-- The pairs are built. -/
  | begun (autonomous : Bool)
  /-- The index was read: `todo` are the pairs still to write, `gc` the keys still to
  bury. -/
  | writing (autonomous : Bool) (oldKeys : List Bytes) (todo : GoMap Bytes Value)
      (gc : List Bytes)
  | finished (autonomous : Bool) (oldKeys : List Bytes)

/-- The keys the call found in the index. -/
def Phase.oldKeys : Phase → List Bytes
  | writing _ old _ _ => old
  | finished _ old => old
  | _ => []

/-- The call has returned. -/
def Phase.isFinished : Phase → Bool
  | finished _ _ => true
  | _ => false

/-- The calls `WriteUser` for one user. -/
structure Calls (ι : Type) where
  tenantID : Uuid
  userID : Bytes
  flat : ι → Flat
  tenant_eq : ∀ c, (flat c).tenantID = tenantID
  user_eq : ∀ c, (flat c).userID = userID

/-- Redis and the calls. -/
structure World (ι : Type) where
  store : Store
  phase : ι → Phase

/-- The call `c` moves on. -/
def World.setPhase {ι : Type} [DecidableEq ι] (w : World ι) (c : ι) (p : Phase) : World ι :=
  { w with phase := Function.update w.phase c p }

/-- The call `c` moves on with a write. -/
def World.write {ι : Type} [DecidableEq ι] (w : World ι) (c : ι) (key : Bytes) (val : Value)
    (version : Int) (p : Phase) : World ι where
  store := casSet w.store key val version
  phase := Function.update w.phase c p

/-- The commands of a call. -/
inductive Command (ι : Type) where
  | start (c : ι)
  | readIndex (c : ι)
  | write (c : ι) (key : Bytes)
  | bury (c : ι)
  | finish (c : ι)

namespace Calls

variable {ι : Type} [DecidableEq ι] (calls : Calls ι)

/-- No call has begun. -/
def init (store : Store) : World ι := ⟨store, fun _ => .idle⟩

/-- The keys of the index that are none of the call's own. -/
def stale (c : ι) (autonomous : Bool) (oldKeys : List Bytes) : List Bytes :=
  oldKeys.filter (· ∉ (calls.flat c).subsidiary autonomous)

/-- One command. -/
def step (w : World ι) : Command ι → World ι
  | .start c =>
    match w.phase c with
    | .idle => w.setPhase c (.begun (tenantAutonomous w.store calls.tenantID.text))
    | _ => w
  | .readIndex c =>
    match w.phase c with
    | .begun auto =>
      let old := readIndex w.store calls.tenantID.text calls.userID
      w.setPhase c (.writing auto old ((calls.flat c).pairs auto) (calls.stale c auto old))
    | _ => w
  | .write c key =>
    match w.phase c with
    | .writing auto old todo gc =>
      match todo.lookup key with
      | some val => w.write c key val (calls.flat c).version (.writing auto old (todo.erase key) gc)
      | none => w
    | _ => w
  | .bury c =>
    match w.phase c with
    | .writing auto old todo (key :: gc) =>
      if todo.keys = [] then
        w.write c key (calls.flat c).tomb (calls.flat c).version (.writing auto old todo gc)
      else w
    | _ => w
  | .finish c =>
    match w.phase c with
    | .writing auto old todo [] =>
      if todo.keys = [] then
        w.write c (keyIndex calls.tenantID.text calls.userID) ((calls.flat c).indexValue auto)
          (calls.flat c).version (.finished auto old)
      else w
    | _ => w

end Calls

end Windrose.Rbac

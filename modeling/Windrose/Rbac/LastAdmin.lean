/-
  Rbac/LastAdmin.lean --- the members of a tenant's Admin group.

  Source: services/rbac-service/internal/store/groups.go (AddMember, RemoveMember,
  BulkMembers) and projection.go (LoadSnapshot).

  `RemoveMember` counts the rows of the group, and the snapshot of a user the rows that have
  not expired.

  The entries of a bulk call commit one by one, so a call is a list of transactions, with
  the time that passes before each.  The queue of dirty users and the outbox, which these
  operations only append to, are left out.
-/
import Windrose.Foundation.Bytes
import Windrose.Foundation.Runs
import Windrose.Foundation.Upsert

set_option autoImplicit false

namespace Windrose.Rbac

open Windrose.Foundation

/-! ## The group -/

/-- The members of the group with their `expires_at`, and the time. -/
structure AdminGroup where
  now : Int
  members : Table Bytes (Option Int)

/-- The errors of `RemoveMember`. -/
inductive MemberError where
  | lastAdmin
  | notFound
  deriving DecidableEq

namespace AdminGroup

/-- `expires_at IS NULL OR expires_at > now()`. -/
def unexpired (g : AdminGroup) (expiresAt : Option Int) : Bool := expiresAt.all (g.now < ·)

/-- The user is one whom `LoadSnapshot` takes as an admin. -/
def IsAdmin (g : AdminGroup) (user : Bytes) : Prop :=
  ∃ row ∈ g.members, row.1 = user ∧ g.unexpired row.2 = true

/-- `AddMember`: the member who is there stays as he is. -/
def addMember (g : AdminGroup) (user : Bytes) (expiresAt : Option Int) : AdminGroup :=
  { g with members := g.members.upsert user expiresAt fun old => old }

/-- `RemoveMember`; `override` is a super admin with a reason. -/
def removeMember (g : AdminGroup) (user : Bytes) (override : Bool) :
    Except MemberError AdminGroup :=
  if g.members.length ≤ 1 ∧ override = false then .error .lastAdmin
  else if g.members.all (·.1 ≠ user) then .error .notFound
  else .ok { g with members := g.members.keep (· ≠ user) }

/-! ## Transactions -/

/-- What one call commits. -/
inductive Transaction where
  | wait (time : Nat)
  | add (user : Bytes) (expiresAt : Option Int)
  | remove (user : Bytes)

/-- One step. -/
def step (g : AdminGroup) : Transaction → AdminGroup
  | .wait time => { g with now := g.now + time }
  | .add user expiresAt => g.addMember user expiresAt
  | .remove user =>
    match g.removeMember user false with
    | .ok g' => g'
    | .error _ => g

end AdminGroup

/-- An entry of `BulkMembers`; one that is neither is an error of its own. -/
inductive BulkMemberOp where
  | add (user : Bytes)
  | remove (user : Bytes)
  | other (op user : Bytes)

/-- `MaxBulkMembers`. -/
def maxBulkMembers : Nat := 500

/-- The calls; time may pass before each entry of a bulk call. -/
inductive MemberCall where
  | wait (time : Nat)
  | addMember (user : Bytes) (expiresAt : Option Int)
  | bulkMembers (ops : List (Nat × BulkMemberOp))
  | removeMember (user : Bytes)

open AdminGroup (Transaction)

/-- An entry of a bulk call: members are added without expiry. -/
def BulkMemberOp.transactions : BulkMemberOp → List Transaction
  | .add user => [.add user none]
  | .remove user => [.remove user]
  | .other _ _ => []

def MemberCall.transactions : MemberCall → List Transaction
  | .wait time => [.wait time]
  | .addMember user expiresAt => [.add user expiresAt]
  | .bulkMembers ops =>
    if ops = [] ∨ maxBulkMembers < ops.length then []
    else ops.flatMap fun entry => .wait entry.1 :: entry.2.transactions
  | .removeMember user => [.remove user]

namespace AdminGroup

/-! ## What is promised -/

/-- A removal that succeeds while there is an admin leaves one. -/
def KeepsAdmin (g : AdminGroup) : Transaction → Prop
  | .remove user => ∀ g', g.removeMember user false = .ok g' → (∃ admin, g.IsAdmin admin) →
      ∃ admin, g'.IsAdmin admin
  | _ => True

/-- The user is the one admin of the group. -/
def SoleAdmin (g : AdminGroup) (user : Bytes) : Prop :=
  g.IsAdmin user ∧ ∀ admin, g.IsAdmin admin → admin = user

/-- The one admin is removed only from a group without other rows, which is refused. -/
def Fits (g : AdminGroup) : Transaction → Prop
  | .remove user => g.SoleAdmin user → g.members.length ≤ 1
  | _ => True

/-! ## One removal -/

variable {g g' : AdminGroup} {user admin : Bytes}

theorem removeMember_ok (h : g.removeMember user false = .ok g') :
    g.members.length > 1 ∧ g' = { g with members := g.members.keep (· ≠ user) } := by
  rw [removeMember] at h
  split at h
  · cases h
  · next hcount =>
    split at h
    · cases h
    · cases h
      exact ⟨Nat.not_le.mp fun hle => hcount ⟨hle, rfl⟩, rfl⟩

theorem isAdmin_keep : { g with members := g.members.keep (· ≠ user) }.IsAdmin admin ↔
      g.IsAdmin admin ∧ admin ≠ user := by
  constructor
  · rintro ⟨row, hrow, rfl, hlive⟩
    obtain ⟨hmem, hne⟩ := List.mem_filter.mp hrow
    exact ⟨⟨row, hmem, rfl, hlive⟩, of_decide_eq_true hne⟩
  · rintro ⟨⟨row, hmem, rfl, hlive⟩, hne⟩
    exact ⟨row, List.mem_filter.mpr ⟨hmem, decide_eq_true hne⟩, rfl, hlive⟩

theorem removeMember_of_isAdmin (hadmin : g.IsAdmin user) (hcount : 1 < g.members.length) :
    g.removeMember user false = .ok { g with members := g.members.keep (· ≠ user) } := by
  obtain ⟨row, hmem, huser, -⟩ := hadmin
  have hfound : ¬g.members.all (·.1 ≠ user) = true := fun hall =>
    of_decide_eq_true (List.all_eq_true.mp hall row hmem) huser
  rw [removeMember, if_neg fun h => Nat.not_le.mpr hcount h.1, if_neg hfound]

theorem keepsAdmin_iff (g : AdminGroup) (t : Transaction) : g.KeepsAdmin t ↔ g.Fits t := by
  cases t with
  | wait time => exact Iff.rfl
  | add user expiresAt => exact Iff.rfl
  | remove user =>
    constructor
    · intro hkeeps hsole
      by_contra hcount
      have hok := removeMember_of_isAdmin hsole.1 (Nat.not_le.mp hcount)
      obtain ⟨admin, hadmin⟩ := hkeeps _ hok ⟨user, hsole.1⟩
      obtain ⟨hadmin, hne⟩ := isAdmin_keep.mp hadmin
      exact hne (hsole.2 admin hadmin)
    · rintro hfits g' hok ⟨admin, hadmin⟩
      obtain ⟨hcount, rfl⟩ := removeMember_ok hok
      by_cases huser : admin = user
      · subst huser
        have hnot : ¬∀ other, g.IsAdmin other → other = admin := fun hall =>
          Nat.not_le.mpr hcount (hfits ⟨hadmin, hall⟩)
        push Not at hnot
        obtain ⟨other, hother, hne⟩ := hnot
        exact ⟨other, isAdmin_keep.mpr ⟨hother, hne⟩⟩
      · exact ⟨admin, isAdmin_keep.mpr ⟨hadmin, huser⟩⟩

/-! ## Runs -/

/-- Along a run of calls each removal keeps an admin exactly when none comes to the one admin
among expired members. -/
theorem admins_kept_iff (g : AdminGroup) (calls : List MemberCall) :
    Each step KeepsAdmin g (calls.flatMap MemberCall.transactions) ↔
      Each step Fits g (calls.flatMap MemberCall.transactions) := by
  refine forall₃_congr fun done t _ => ?_
  exact keepsAdmin_iff _ t

/-- A member is added for ten seconds, and the other one is removed after twenty. -/
theorem last_admin_removed : ¬ ∀ (g : AdminGroup) (calls : List MemberCall),
    Each step KeepsAdmin g (calls.flatMap MemberCall.transactions) := by
  intro h
  let g : AdminGroup := ⟨0, [(bytes "owner", none)]⟩
  have hstep := h g [.addMember (bytes "guest") (some 10), .wait 20, .removeMember (bytes "owner")]
    [.add (bytes "guest") (some 10), .wait 20] (.remove (bytes "owner")) (List.prefix_refl _)
  have hbefore : IsAdmin ⟨20, [(bytes "owner", none), (bytes "guest", some 10)]⟩ (bytes "owner") :=
    ⟨_, List.mem_cons_self, rfl, rfl⟩
  obtain ⟨admin, row, hrow, -, hlive⟩ :=
    hstep ⟨20, [(bytes "guest", some 10)]⟩ rfl ⟨bytes "owner", hbefore⟩
  rw [List.mem_singleton.mp hrow] at hlive
  cases hlive

end AdminGroup

end Windrose.Rbac

/-
  Rbac/Domain.lean --- grant levels, verbs and resource names.

  Source: services/rbac-service/internal/domain/levels.go, catalog.go
  (ActionVerb), urn.go (URNHash, ParseURN) and types.go (GrantLevel, principal
  types).

  SHA-256 and `uuid.Parse` are not of the repository: they are the fields of
  `Ext`, with the two laws of `uuid.Parse` the service relies on: it reads the
  canonical text of an id back, and rejects the empty text.
-/
import Mathlib.Data.List.Induction
import Mathlib.Data.List.Sort
import Windrose.Foundation.Uuid
import Windrose.Foundation.Digest
import Mathlib.Data.List.AList

set_option autoImplicit false

namespace Windrose.Rbac

open Windrose.Foundation

/-- A Go map: finitely many keys, each with one value. -/
abbrev GoMap (κ ν : Type) : Type := AList fun _ : κ => ν

/-- A map filled by a loop of assignments: a later value of a key replaces an earlier. -/
def mapOf {κ ν : Type} [DecidableEq κ] (l : List (κ × ν)) : GoMap κ ν :=
  l.foldl (fun m p => m.insert p.1 p.2) ∅

variable {κ ν : Type}

theorem mapOf_snoc [DecidableEq κ] (l : List (κ × ν)) (p : κ × ν) :
    mapOf (l ++ [p]) = (mapOf l).insert p.1 p.2 := by
  unfold mapOf
  rw [List.foldl_append, List.foldl_cons, List.foldl_nil]

theorem mem_of_lookup_mapOf [DecidableEq κ] {l : List (κ × ν)} {k : κ} {v : ν}
    (h : (mapOf l).lookup k = some v) : (k, v) ∈ l := by
  induction l using List.reverseRecOn with
  | nil => cases h
  | append_singleton l p ih =>
    rw [mapOf_snoc] at h
    by_cases hk : k = p.1
    · subst hk
      rw [AList.lookup_insert, Option.some.injEq] at h
      subst h
      exact List.mem_append_right _ (List.mem_singleton_self p)
    · rw [AList.lookup_insert_ne hk] at h
      exact List.mem_append_left _ (ih h)

theorem exists_lookup_mapOf [DecidableEq κ] {l : List (κ × ν)} {k : κ} {v : ν}
    (h : (k, v) ∈ l) : ∃ w, (mapOf l).lookup k = some w := by
  induction l using List.reverseRecOn with
  | nil => cases h
  | append_singleton l p ih =>
    rw [mapOf_snoc]
    by_cases hk : k = p.1
    · subst hk
      exact ⟨p.2, AList.lookup_insert _⟩
    · rw [AList.lookup_insert_ne hk]
      obtain h | h := List.mem_append.mp h
      · exact ih h
      · rw [List.mem_singleton] at h
        exact absurd (congrArg Prod.fst h) hk

theorem lookup_mapOf_iff [DecidableEq κ] {l : List (κ × ν)}
    (honce : ∀ k v w, (k, v) ∈ l → (k, w) ∈ l → v = w) {k : κ} {v : ν} :
    (mapOf l).lookup k = some v ↔ (k, v) ∈ l := by
  constructor
  · exact mem_of_lookup_mapOf
  · intro h
    obtain ⟨w, hw⟩ := exists_lookup_mapOf h
    rw [hw, honce k w v (mem_of_lookup_mapOf hw) h]

/-- The functions the service calls that are not of the repository. -/
structure Ext where
  sha256 : Bytes → Bytes
  /-- `uuid.Parse`, which accepts more than one spelling of an id. -/
  parse : Bytes → Option Uuid
  parse_text : ∀ u : Uuid, parse u.text = some u
  parse_nil : parse [] = none

/-! ## Principals and levels -/

/-- The `typ` of a subject. -/
inductive Typ where
  | user
  | service
  | agentObo
  | agentAutonomous
  | other (text : Bytes)
  deriving DecidableEq

/-- `GrantLevel`; `other` is any text that is not one of the three levels. -/
inductive GrantLevel where
  | viewer
  | editor
  | owner
  | other (text : Bytes)
  deriving DecidableEq

namespace GrantLevel

/-- `Valid`. -/
def valid : GrantLevel → Bool
  | other _ => false
  | _ => true

end GrantLevel

/-- `VerbRead`. -/
def verbRead : Bytes := bytes "read"
/-- `VerbList`. -/
def verbList : Bytes := bytes "list"
/-- `VerbExport`. -/
def verbExport : Bytes := bytes "export"
/-- `VerbUpdate`. -/
def verbUpdate : Bytes := bytes "update"
/-- `VerbExecute`. -/
def verbExecute : Bytes := bytes "execute"
/-- `VerbShare`. -/
def verbShare : Bytes := bytes "share"
/-- `VerbDelete`. -/
def verbDelete : Bytes := bytes "delete"
/-- `VerbAdmin`. -/
def verbAdmin : Bytes := bytes "admin"

/-- `levelVerbs`. -/
def levelVerbs : GrantLevel → List Bytes
  | .viewer => [verbRead, verbList, verbExport]
  | .editor => [verbRead, verbList, verbExport, verbUpdate, verbExecute, verbShare]
  | .owner =>
    [verbRead, verbList, verbExport, verbUpdate, verbExecute, verbShare, verbDelete, verbAdmin]
  | .other _ => []

/-- `LevelAllowsVerb`. -/
def levelAllowsVerb (l : GrantLevel) (verb : Bytes) : Bool := verb ∈ levelVerbs l

/-- `levelRank`: the lattice viewer < editor < owner. -/
def levelRank : GrantLevel → Nat
  | .viewer => 1
  | .editor => 2
  | .owner => 3
  | .other _ => 0

/-- `MaxLevel`. -/
def maxLevel (a b : GrantLevel) : GrantLevel := if levelRank b ≤ levelRank a then a else b

/-- `LevelAtLeast`. -/
def levelAtLeast (a b : GrantLevel) : Bool := levelRank b ≤ levelRank a

/-- `ArchivedReadVerbs`: all that an archived workspace lets through. -/
def archivedReadVerbs (verb : Bytes) : Bool := verb ∈ [verbRead, verbList, verbExport]

theorem levelAllowsVerb_mono {a b : GrantLevel} {verb : Bytes}
    (hrank : levelRank a ≤ levelRank b) (h : levelAllowsVerb a verb = true) :
    levelAllowsVerb b verb = true := by
  have hsub : levelVerbs a ⊆ levelVerbs b := by
    cases a <;> cases b <;> first | (simp [levelRank] at hrank; done) | simp [levelVerbs]
  exact decide_eq_true (hsub (of_decide_eq_true h))

theorem levelRank_maxLevel (a b : GrantLevel) :
    levelRank (maxLevel a b) = max (levelRank a) (levelRank b) := by
  unfold maxLevel
  split <;> omega

/-! ## Actions -/

/-- `ActionVerb`: the text after the last dot; empty when there is no dot. -/
def actionVerb (action : Bytes) : Bytes :=
  if 46 ∈ action then (action.reverse.takeWhile (· ≠ 46)).reverse else []

theorem actionVerb_of_not_mem {action : Bytes} (h : (46 : UInt8) ∉ action) :
    actionVerb action = [] := if_neg h

/-- `URNHash`: the first 32 digits of the digest. -/
def urnHash (env : Ext) (urn : Bytes) : Bytes := (hexEncode (env.sha256 urn)).take 32

/-- The outside functions on the names of a small tenant: SHA-256 of one resource
name, and the canonical texts of ids. -/
def sampleExt : Ext where
  sha256 := digestTable [
    (bytes "wr:t-a:chart:dashboard/d-9",
      [107, 197, 169, 61, 68, 43, 229, 247, 9, 92, 238, 85, 79, 49, 224, 70,
       20, 51, 239, 253, 188, 153, 156, 196, 0, 21, 94, 45, 220, 25, 118, 50])]
  parse := Uuid.ofText
  parse_text := Uuid.ofText_text
  parse_nil := rfl

end Windrose.Rbac

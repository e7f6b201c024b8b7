/-
  Foundation/Fresh.lean --- lists that grow by new elements, and names that are new.

  `addNew` is the loop body "if x not in xs: xs.append(x)", with the membership test on a
  key.  `fresh` is the loop that counts a name up until it is not in use; it ends because
  the names in use are finitely many (`fresh_not_mem`).
-/
import Mathlib.Data.List.Dedup
import Mathlib.Data.List.Range

set_option autoImplicit false

namespace Windrose.Foundation

/-! ## New elements -/

section AddNew

variable {α κ : Type} [DecidableEq κ] (key : α → κ)

/-- The list with an element at its end, if the key of the element is new. -/
def addNew (xs : List α) (x : α) : List α := if key x ∈ xs.map key then xs else xs ++ [x]

/-- The list with those of the elements that are new. -/
def addAllNew (xs ys : List α) : List α := ys.foldl (addNew key) xs

variable {key}

theorem isPrefix_addNew (xs : List α) (x : α) : xs <+: addNew key xs x := by
  unfold addNew
  split
  · exact List.prefix_refl _
  · exact List.prefix_append _ _

theorem isPrefix_addAllNew (xs ys : List α) : xs <+: addAllNew key xs ys := by
  induction ys generalizing xs with
  | nil => exact List.prefix_refl _
  | cons y ys ih => exact (isPrefix_addNew xs y).trans (ih _)

theorem mem_addNew {xs : List α} {x y : α} (h : y ∈ addNew key xs x) : y ∈ xs ∨ y = x := by
  unfold addNew at h
  split at h
  · exact .inl h
  · simpa using h

theorem mem_addAllNew {xs ys : List α} {y : α} (h : y ∈ addAllNew key xs ys) : y ∈ xs ∨ y ∈ ys := by
  induction ys generalizing xs with
  | nil => exact .inl h
  | cons x ys ih =>
    rcases ih h with hy | hy
    · rcases mem_addNew hy with hy | rfl
      · exact .inl hy
      · exact .inr List.mem_cons_self
    · exact .inr (List.mem_cons_of_mem _ hy)

theorem key_mem_addNew (xs : List α) (x : α) : key x ∈ (addNew key xs x).map key := by
  unfold addNew
  split
  · assumption
  · simp

theorem key_mem_addAllNew {xs ys : List α} {k : κ} :
    k ∈ (addAllNew key xs ys).map key ↔ k ∈ xs.map key ∨ k ∈ ys.map key := by
  constructor
  · intro h
    obtain ⟨y, hy, rfl⟩ := List.mem_map.mp h
    rcases mem_addAllNew hy with hy | hy
    · exact .inl (List.mem_map_of_mem hy)
    · exact .inr (List.mem_map_of_mem hy)
  · rintro (h | h)
    · exact ((isPrefix_addAllNew xs ys).map key).subset h
    · induction ys generalizing xs with
      | nil => cases h
      | cons y ys ih =>
        rcases List.mem_cons.mp h with rfl | h
        · exact ((isPrefix_addAllNew _ ys).map key).subset (key_mem_addNew xs y)
        · exact ih h

theorem nodup_addNew {xs : List α} (h : (xs.map key).Nodup) (x : α) :
    ((addNew key xs x).map key).Nodup := by
  unfold addNew
  split
  · exact h
  · next hx => simpa [List.nodup_append, h] using fun y hy heq => hx (List.mem_map.mpr ⟨y, hy, heq⟩)

theorem nodup_addAllNew {xs : List α} (h : (xs.map key).Nodup) (ys : List α) :
    ((addAllNew key xs ys).map key).Nodup := by
  induction ys generalizing xs with
  | nil => exact h
  | cons y ys ih => exact ih (nodup_addNew h y)

end AddNew

section AddNewId

variable {α : Type} [DecidableEq α]

theorem mem_addAllNew_id {xs ys : List α} {y : α} : y ∈ addAllNew id xs ys ↔ y ∈ xs ∨ y ∈ ys := by
  simpa using (key_mem_addAllNew : y ∈ (addAllNew id xs ys).map id ↔ _)

theorem nodup_addAllNew_id {xs : List α} (h : xs.Nodup) (ys : List α) :
    (addAllNew id xs ys).Nodup := by
  have hid : ((addAllNew id xs ys).map id).Nodup := nodup_addAllNew (by simpa using h) ys
  simpa using hid

end AddNewId

/-! ## Names that are new -/

section FreshNames

variable {β : Type} [DecidableEq β] (candidate : Nat → β) (used : List β)

/-- The first candidate from `i` on that is not in use. -/
def fresh : Nat → Nat → β
  | 0, i => candidate i
  | fuel + 1, i => if candidate i ∈ used then fresh fuel (i + 1) else candidate i

variable {candidate used}

theorem fresh_mem {fuel i : Nat} (h : fresh candidate used fuel i ∈ used) :
    ∀ j, i ≤ j → j ≤ i + fuel → candidate j ∈ used := by
  induction fuel generalizing i with
  | zero =>
    intro j hij hji
    rwa [show j = i by omega]
  | succ fuel ih =>
    unfold fresh at h
    split at h
    · next hi =>
      intro j hij hji
      rcases Nat.eq_or_lt_of_le hij with rfl | hlt
      · exact hi
      · exact ih h j hlt (by omega)
    · next hi => exact absurd h hi

theorem fresh_not_mem (hinj : Function.Injective candidate) (i : Nat) :
    fresh candidate used used.length i ∉ used := by
  intro h
  have hall := fresh_mem h
  have hsub : (List.range' i (used.length + 1)).map candidate ⊆ used := by
    intro b hb
    obtain ⟨j, hj, rfl⟩ := List.mem_map.mp hb
    have := List.mem_range'_1.mp hj
    exact hall j this.1 (by omega)
  have hle := ((List.nodup_range' (s := i)).map hinj).length_le_of_subset hsub
  rw [List.length_map, List.length_range'] at hle
  omega

theorem fresh_eq_candidate (fuel i : Nat) :
    ∃ j, i ≤ j ∧ fresh candidate used fuel i = candidate j := by
  induction fuel generalizing i with
  | zero => exact ⟨i, le_refl i, rfl⟩
  | succ fuel ih =>
    unfold fresh
    split
    · obtain ⟨j, hj, heq⟩ := ih (i + 1)
      exact ⟨j, by omega, heq⟩
    · exact ⟨i, le_refl i, rfl⟩

end FreshNames

theorem length_le_one_of_nodup {α : Type} {l : List α} (hnodup : l.Nodup)
    (hall : ∀ a ∈ l, ∀ b ∈ l, a = b) : l.length ≤ 1 := by
  cases l with
  | nil => exact Nat.zero_le _
  | cons a l =>
    rw [List.eq_replicate_of_mem fun b hb => hall b hb a List.mem_cons_self] at hnodup
    exact List.nodup_replicate.mp hnodup

end Windrose.Foundation

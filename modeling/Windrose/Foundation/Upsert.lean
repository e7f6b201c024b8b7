/-
  Foundation/Upsert.lean --- tables with a primary key and their upserts.

  A table is the list of its rows, each under its key.  `upsert` is
  `INSERT ... ON CONFLICT DO UPDATE`: the row under the key is changed, or a new one
  comes last.  `upsertAll` is the same for the rows of a SELECT.
-/
import Mathlib.Data.List.Dedup
import Mathlib.Algebra.BigOperators.Group.List.Basic
import Mathlib.Data.Int.Cast.Lemmas

set_option autoImplicit false

namespace Windrose.Foundation

/-- The rows of a table, each under its primary key. -/
abbrev Table (κ ν : Type) : Type := List (κ × ν)

namespace Table

variable {κ ν : Type} [DecidableEq κ]

/-- The row under a key. -/
def find : Table κ ν → κ → Option ν
  | [], _ => none
  | (k, v) :: t, k' => if k = k' then some v else find t k'

/-- `INSERT ... ON CONFLICT (key) DO UPDATE`. -/
def upsert (k : κ) (new : ν) (onConflict : ν → ν) : Table κ ν → Table κ ν
  | [] => [(k, new)]
  | (k', v) :: t => if k' = k then (k', onConflict v) :: t else (k', v) :: upsert k new onConflict t

/-- The upserts of the rows of a SELECT. -/
def upsertAll (new : κ → ν) (onConflict : κ → ν → ν) (ks : List κ) (t : Table κ ν) : Table κ ν :=
  ks.foldl (fun t k => t.upsert k (new k) (onConflict k)) t

/-- `DELETE` of the rows whose key does not satisfy `p`. -/
def keep (p : κ → Bool) (t : Table κ ν) : Table κ ν := t.filter (p ·.1)

/-- `DELETE` of the row under a key. -/
def remove (k : κ) : Table κ ν → Table κ ν
  | [] => []
  | (k', v) :: t => if k' = k then t else (k', v) :: remove k t

/-- `UPDATE`: every row becomes `f` of it, under the same key. -/
def update (f : κ → ν → ν) (t : Table κ ν) : Table κ ν := t.map fun row => (row.1, f row.1 row.2)

theorem find_update (f : κ → ν → ν) (t : Table κ ν) (k : κ) :
    (t.update f).find k = (t.find k).map (f k) := by
  induction t with
  | nil => rfl
  | cons row t ih =>
    obtain ⟨key, v⟩ := row
    rw [update, List.map_cons, find, find]
    split
    · next hk => rw [hk, Option.map_some]
    · exact ih

variable {k : κ} {v : ν} {p : κ → Bool}

omit [DecidableEq κ] in
theorem mem_keep {t : Table κ ν} : (k, v) ∈ t.keep p ↔ (k, v) ∈ t ∧ p k = true := List.mem_filter

omit [DecidableEq κ] in
theorem keep_keep {q : κ → Bool} (h : ∀ k, q k = true → p k = true) (t : Table κ ν) :
    (t.keep p).keep q = t.keep q := by
  rw [keep, keep, keep, List.filter_filter]
  refine List.filter_congr fun row _ => ?_
  cases hq : q row.1 with
  | false => rfl
  | true => rw [h row.1 hq]; rfl

theorem find_append (s t : Table κ ν) (k : κ) : find (s ++ t) k = (s.find k).or (t.find k) := by
  induction s with
  | nil => rfl
  | cons row s ih =>
    obtain ⟨key, w⟩ := row
    rw [List.cons_append, find, find]
    split
    · rfl
    · exact ih

theorem find_map (f : κ → ν) (ks : List κ) (k : κ) :
    find (ks.map fun k => (k, f k)) k = if k ∈ ks then some (f k) else none := by
  induction ks with
  | nil => rfl
  | cons k' ks ih =>
    rw [List.map_cons, find]
    by_cases hk : k' = k
    · rw [if_pos hk, hk, if_pos List.mem_cons_self]
    · rw [if_neg hk, ih]
      simp [Ne.symm hk]

section Upsert

variable {k k' : κ} {new : ν} {onConflict : ν → ν} {t : Table κ ν}

theorem mem_of_find (h : t.find k = some v) : (k, v) ∈ t := by
  induction t with
  | nil => cases h
  | cons row t ih =>
    obtain ⟨key, w⟩ := row
    rw [find] at h
    split at h
    · next hk =>
      cases h
      exact hk ▸ List.mem_cons_self
    · exact List.mem_cons_of_mem _ (ih h)

theorem find_upsert :
    (t.upsert k new onConflict).find k = some ((t.find k).elim new onConflict) := by
  induction t with
  | nil => simp [upsert, find]
  | cons row t ih =>
    obtain ⟨key, w⟩ := row
    rw [upsert]
    split
    · next hk => simp [find, hk]
    · next hk => rw [find, if_neg hk, ih, find, if_neg hk]

theorem find_upsert_const : (t.upsert k new fun _ => new).find k = some new := by
  rw [find_upsert]
  cases t.find k <;> rfl

theorem countP_upsert (p : ν → Bool) :
    (t.upsert k new fun _ => new).countP (p ·.2) + (t.find k).elim 0 (p · |>.toNat) =
      t.countP (p ·.2) + (p new).toNat := by
  induction t with
  | nil => cases hp : p new <;> simp [upsert, find, hp]
  | cons row t ih =>
    obtain ⟨key, w⟩ := row
    rw [upsert, find]
    split
    · rw [List.countP_cons, List.countP_cons, Option.elim_some]
      cases p new <;> cases p w <;> simp
    · rw [List.countP_cons, List.countP_cons]
      omega

theorem find_upsert_of_ne (h : k' ≠ k) : (t.upsert k new onConflict).find k' = t.find k' := by
  induction t with
  | nil => simp [upsert, find, h.symm]
  | cons row t ih =>
    obtain ⟨key, w⟩ := row
    rw [upsert]
    split
    · next hk =>
      subst hk
      rw [find, if_neg h.symm, find, if_neg h.symm]
    · rw [find, find, ih]

/-- A row that its conflict does not change. -/
def Settled (onConflict : ν → ν) (t : Table κ ν) (k : κ) : Prop :=
  ∃ v, t.find k = some v ∧ onConflict v = v

theorem upsert_eq_self (h : Settled onConflict t k) : t.upsert k new onConflict = t := by
  obtain ⟨v, hv, hsame⟩ := h
  induction t with
  | nil => cases hv
  | cons row t ih =>
    obtain ⟨key, w⟩ := row
    rw [find] at hv
    rw [upsert]
    split at hv
    · next hk =>
      cases hv
      rw [if_pos hk, hsame]
    · next hk => rw [if_neg hk, ih hv]

theorem find_remove_of_ne (h : k' ≠ k) : (t.remove k).find k' = t.find k' := by
  induction t with
  | nil => rfl
  | cons row t ih =>
    obtain ⟨key, w⟩ := row
    rw [remove]
    split
    · next hk => rw [find, if_neg (hk ▸ h.symm)]
    · rw [find, find, ih]

theorem perm_remove (h : t.find k = some v) : t.Perm ((k, v) :: t.remove k) := by
  induction t with
  | nil => cases h
  | cons row t ih =>
    obtain ⟨key, w⟩ := row
    rw [find] at h
    rw [remove]
    split at h
    · next hk =>
      cases h
      rw [if_pos hk, hk]
    · next hk =>
      rw [if_neg hk]
      exact ((ih h).cons _).trans (.swap _ _ _)

theorem perm_upsert_of_some (h : t.find k = some v) :
    (t.upsert k new onConflict).Perm ((k, onConflict v) :: t.remove k) := by
  induction t with
  | nil => cases h
  | cons row t ih =>
    obtain ⟨key, w⟩ := row
    rw [find] at h
    rw [upsert, remove]
    split at h
    · next hk =>
      cases h
      rw [if_pos hk, if_pos hk, hk]
    · next hk =>
      rw [if_neg hk, if_neg hk]
      exact ((ih h).cons _).trans (.swap _ _ _)

theorem perm_upsert_of_none (h : t.find k = none) :
    (t.upsert k new onConflict).Perm ((k, new) :: t) := by
  induction t with
  | nil => rfl
  | cons row t ih =>
    obtain ⟨key, w⟩ := row
    rw [find] at h
    rw [upsert]
    split at h
    · cases h
    · next hk =>
      rw [if_neg hk]
      exact ((ih h).cons _).trans (.swap _ _ _)

theorem upsert_eq_append (h : t.find k = none) : t.upsert k new onConflict = t ++ [(k, new)] := by
  induction t with
  | nil => rfl
  | cons row t ih =>
    obtain ⟨key, w⟩ := row
    rw [find] at h
    rw [upsert]
    split at h
    · cases h
    · next hk => rw [if_neg hk, ih h, List.cons_append]

theorem keep_upsert (h : p k = false) : (t.upsert k new onConflict).keep p = t.keep p := by
  induction t with
  | nil => simp [upsert, keep, h]
  | cons row t ih =>
    obtain ⟨key, w⟩ := row
    rw [upsert]
    split
    · next hk =>
      subst hk
      rw [keep, keep, List.filter_cons_of_neg (by simpa using h),
        List.filter_cons_of_neg (by simpa using h)]
    · rw [keep, keep] at ih ⊢
      rw [List.filter_cons, List.filter_cons, ih]

theorem mem_upsert (h : (k', v) ∈ t.upsert k new onConflict) :
    (k', v) ∈ t ∨ (k' = k ∧ (v = new ∨ ∃ w, (k, w) ∈ t ∧ v = onConflict w)) := by
  induction t with
  | nil =>
    cases List.mem_singleton.mp h
    exact .inr ⟨rfl, .inl rfl⟩
  | cons row t ih =>
    obtain ⟨key, w⟩ := row
    rw [upsert] at h
    split at h
    · next hk =>
      subst hk
      rcases List.mem_cons.mp h with heq | h
      · cases heq
        exact .inr ⟨rfl, .inr ⟨w, List.mem_cons_self, rfl⟩⟩
      · exact .inl (List.mem_cons_of_mem _ h)
    · rcases List.mem_cons.mp h with heq | h
      · exact .inl (heq ▸ List.mem_cons_self)
      · rcases ih h with h | ⟨rfl, h⟩
        · exact .inl (List.mem_cons_of_mem _ h)
        · refine .inr ⟨rfl, h.imp_right ?_⟩
          rintro ⟨u, hu, rfl⟩
          exact ⟨u, List.mem_cons_of_mem _ hu, rfl⟩

end Upsert

section UpsertAll

variable {new : κ → ν} {onConflict : κ → ν → ν} {t : Table κ ν} {ks : List κ}

theorem upsertAll_cons (k : κ) : upsertAll new onConflict (k :: ks) t =
    upsertAll new onConflict ks (t.upsert k (new k) (onConflict k)) := rfl

theorem find_upsertAll_of_not_mem (h : k ∉ ks) :
    (upsertAll new onConflict ks t).find k = t.find k := by
  induction ks generalizing t with
  | nil => rfl
  | cons k' ks ih =>
    rw [List.mem_cons, not_or] at h
    obtain ⟨hne, hrest⟩ := h
    rw [upsertAll_cons, ih hrest, find_upsert_of_ne hne]

theorem find_upsertAll (hnodup : ks.Nodup) (h : k ∈ ks) :
    (upsertAll new onConflict ks t).find k = some ((t.find k).elim (new k) (onConflict k)) := by
  induction ks generalizing t with
  | nil => cases h
  | cons k' ks ih =>
    obtain ⟨hnew, hnodup⟩ := List.nodup_cons.mp hnodup
    rw [upsertAll_cons]
    rcases List.mem_cons.mp h with rfl | hk
    · rw [find_upsertAll_of_not_mem hnew, find_upsert]
    · have hne : k ≠ k' := fun heq => hnew (heq ▸ hk)
      rw [ih hnodup hk, find_upsert_of_ne hne]

theorem upsertAll_eq_self (h : ∀ k ∈ ks, Settled (onConflict k) t k) :
    upsertAll new onConflict ks t = t := by
  induction ks with
  | nil => rfl
  | cons k ks ih =>
    obtain ⟨hk, hrest⟩ := List.forall_mem_cons.mp h
    rw [upsertAll_cons, upsert_eq_self hk]
    exact ih hrest

theorem keep_upsertAll (h : ∀ k ∈ ks, p k = true → Settled (onConflict k) t k) :
    (upsertAll new onConflict ks t).keep p = t.keep p := by
  induction ks generalizing t with
  | nil => rfl
  | cons k ks ih =>
    obtain ⟨hk, hrest⟩ := List.forall_mem_cons.mp h
    rw [upsertAll_cons]
    cases hp : p k with
    | true =>
      rw [upsert_eq_self (hk hp)]
      exact ih hrest
    | false =>
      refine (ih fun k' hk' hp' => ?_).trans (keep_upsert hp)
      obtain ⟨v, hv, hsame⟩ := hrest k' hk' hp'
      have hne : k' ≠ k := by
        rintro rfl
        exact absurd hp' (by rw [hp]; exact Bool.false_ne_true)
      exact ⟨v, (find_upsert_of_ne hne).trans hv, hsame⟩

theorem forall_mem_upsertAll {P : κ → ν → Prop} (hnew : ∀ k ∈ ks, P k (new k))
    (hconflict : ∀ k v, P k v → P k (onConflict k v)) (h : ∀ k v, (k, v) ∈ t → P k v) :
    ∀ k v, (k, v) ∈ upsertAll new onConflict ks t → P k v := by
  induction ks generalizing t with
  | nil => exact h
  | cons k ks ih =>
    obtain ⟨hk, hrest⟩ := List.forall_mem_cons.mp hnew
    refine ih hrest fun k' v hv => ?_
    rcases mem_upsert hv with hv | ⟨rfl, rfl | ⟨w, hw, rfl⟩⟩
    · exact h k' v hv
    · exact hk
    · exact hconflict _ w (h _ w hw)

end UpsertAll

/-! ## Groups -/

section Groups

variable {ρ : Type} (key : ρ → κ)

/-- `GROUP BY`: the keys of the rows, each once. -/
def groups (rows : List ρ) : List κ := (rows.map key).dedup

/-- `SUM` over the rows of one group. -/
def sumOf (quantity : ρ → Int) (rows : List ρ) (k : κ) : Int :=
  ((rows.filter (key · = k)).map quantity).sum

variable {key} {quantity : ρ → Int}

theorem groups_nodup (rows : List ρ) : (groups key rows).Nodup := List.nodup_dedup _

variable {rows : List ρ}

theorem mem_groups : k ∈ groups key rows ↔ ∃ r ∈ rows, key r = k := by
  rw [groups, List.mem_dedup, List.mem_map]

theorem sumOf_append (l m : List ρ) (k : κ) :
    sumOf key quantity (l ++ m) k = sumOf key quantity l k + sumOf key quantity m k := by
  rw [sumOf, List.filter_append, List.map_append, List.sum_append]
  rfl

theorem sumOf_eq_zero (h : ∀ r ∈ rows, key r ≠ k) : sumOf key quantity rows k = 0 := by
  rw [sumOf, List.filter_eq_nil_iff.mpr fun r hr => by simpa using h r hr]
  rfl

theorem sumOf_filter {p : ρ → Bool} (h : ∀ r ∈ rows, key r = k → p r = true) :
    sumOf key quantity (rows.filter p) k = sumOf key quantity rows k := by
  rw [sumOf, sumOf, List.filter_filter]
  refine congrArg (fun l => (l.map quantity).sum) (List.filter_congr fun r hr => ?_)
  by_cases hk : key r = k
  · simp [hk, h r hr hk]
  · simp [hk]

section Sums

variable {R : Type} [CommRing R]

variable (key quantity) in
theorem sum_sumOf (weight : κ → R) (ks : List κ) (rows : List ρ) :
    (ks.map fun k => weight k * (sumOf key quantity rows k : R)).sum =
      (rows.map fun r => (ks.countP (· = key r) : R) *
        (weight (key r) * (quantity r : R))).sum := by
  induction rows with
  | nil => simp [sumOf]
  | cons r rows ih =>
    have hcons (k : κ) : weight k * (sumOf key quantity (r :: rows) k : R) =
        (if k = key r then weight k * (quantity r : R) else 0) +
          weight k * (sumOf key quantity rows k : R) := by
      rw [sumOf, List.filter_cons]
      by_cases hk : key r = k
      · rw [if_pos (decide_eq_true hk), if_pos hk.symm, List.map_cons, List.sum_cons]
        rw [Int.cast_add, mul_add, sumOf]
      · rw [if_neg (by simpa using hk), if_neg (Ne.symm hk), zero_add, sumOf]
    rw [List.map_congr_left fun k _ => hcons k, List.sum_map_add, ih, List.sum_map_ite_eq,
      List.map_cons, List.sum_cons]
    simp [nsmul_eq_mul, List.count_eq_countP, beq_eq_decide]

theorem sum_groups (weight : κ → R) (rows : List ρ) :
    ((groups key rows).map fun k => weight k * (sumOf key quantity rows k : R)).sum =
      (rows.map fun r => weight (key r) * (quantity r : R)).sum := by
  rw [sum_sumOf]
  refine congrArg List.sum (List.map_congr_left fun r hr => ?_)
  have hmem : key r ∈ groups key rows := mem_groups.mpr ⟨r, hr, rfl⟩
  have hone : (groups key rows).countP (· = key r) = 1 :=
    (List.countP_congr fun k _ => by simp).trans (List.count_eq_one_of_mem (groups_nodup rows) hmem)
  rw [hone, Nat.cast_one, one_mul]

end Sums

end Groups

end Table

end Windrose.Foundation

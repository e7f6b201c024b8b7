/-
  Foundation/Relation.lean --- the joins of SQL over lists of rows.

  A relation is a list of rows.  A left join keeps a row that finds no partner, a full join
  also those of the right side, and rows meet by `=`, for which a key that holds a NULL is
  equal to none.
-/
import Mathlib.Data.List.Dedup

set_option autoImplicit false

namespace Windrose.Foundation.Relation

/-! ## Left and inner joins -/

section Joins

variable {ω τ β : Type} (on : ω → τ → Bool) (pair : ω → Option τ → ω)

/-- A row next to the rows of the other side that it meets. -/
def innerRows (right : List τ) (w : ω) : List ω :=
  (right.filter (on w)).map fun t => pair w (some t)

/-- A row next to those that it meets, or alone. -/
def leftRows (right : List τ) (w : ω) : List ω :=
  match right.filter (on w) with
  | [] => [pair w none]
  | t :: ts => (t :: ts).map fun t => pair w (some t)

def innerJoin (left : List ω) (right : List τ) : List ω := left.flatMap (innerRows on pair right)

def leftJoin (left : List ω) (right : List τ) : List ω := left.flatMap (leftRows on pair right)

variable {on pair}

variable {right : List τ}

theorem leftRows_of_length_le {w : ω} (h : (right.filter (on w)).length ≤ 1) :
    ∃ o, leftRows on pair right w = [pair w o] := by
  unfold leftRows
  split
  · exact ⟨none, rfl⟩
  · next t ts hts =>
    rw [hts] at h
    cases ts with
    | nil => exact ⟨some t, rfl⟩
    | cons => simp at h

theorem leftJoin_map {f : ω → β} (hf : ∀ w o, f (pair w o) = f w)
    {left : List ω} (h : ∀ w ∈ left, (right.filter (on w)).length ≤ 1) :
    (leftJoin on pair left right).map f = left.map f := by
  induction left with
  | nil => rfl
  | cons w left ih =>
    obtain ⟨hw, hrest⟩ := List.forall_mem_cons.mp h
    obtain ⟨o, ho⟩ : ∃ o, leftRows on pair right w = [pair w o] := leftRows_of_length_le hw
    calc (leftJoin on pair (w :: left) right).map f
        = (leftRows on pair right w).map f ++ (leftJoin on pair left right).map f := by
          simp [leftJoin]
      _ = f w :: left.map f := by rw [ho, ih hrest]; simp [hf]

theorem mem_leftJoin {left : List ω} {w : ω}
    (h : w ∈ leftJoin on pair left right) :
    ∃ v ∈ left, ∃ o : Option τ, (∀ t ∈ o, t ∈ right) ∧ w = pair v o := by
  obtain ⟨v, hv, hw⟩ := List.mem_flatMap.mp h
  refine ⟨v, hv, ?_⟩
  unfold leftRows at hw
  split at hw
  · exact ⟨none, by simp, List.mem_singleton.mp hw⟩
  · next t ts hts =>
    obtain ⟨u, hu, rfl⟩ := List.mem_map.mp hw
    refine ⟨some u, ?_, rfl⟩
    rintro x hx
    cases hx
    exact (List.mem_filter.mp (hts ▸ hu)).1

end Joins

/-! ## Groups -/

section Groups

variable {ρ κ : Type} [DecidableEq κ] (key : ρ → κ)

/-- The keys of a relation, each once. -/
def keys (rows : List ρ) : List κ := (rows.map key).dedup

/-- The rows with one key. -/
def group (rows : List ρ) (k : κ) : List ρ := rows.filter (key · = k)

variable {key}

variable {rows : List ρ}

theorem mem_keys {k : κ} : k ∈ keys key rows ↔ ∃ r ∈ rows, key r = k := by
  rw [keys, List.mem_dedup, List.mem_map]

theorem keys_nodup (rows : List ρ) : (keys key rows).Nodup := List.nodup_dedup _

theorem group_eq_nil {k : κ} : group key rows k = [] ↔ k ∉ keys key rows := by
  simp [group, mem_keys]

variable (key) in
/-- The row that has a key, where there is one. -/
def at? (rows : List ρ) (k : κ) : Option ρ := rows.find? (key · = k)

theorem isSome_at? {k : κ} : (at? key rows k).isSome = true ↔ k ∈ rows.map key := by
  simp [at?, List.find?_isSome, List.mem_map]

theorem nodup_map_iff : (rows.map key).Nodup ↔ ∀ k, (group key rows k).length ≤ 1 := by
  rw [List.nodup_iff_count_le_one]
  refine forall_congr' fun k => ?_
  rw [List.count_eq_countP, List.countP_map, List.countP_eq_length_filter, group]
  rfl

theorem group_of_nodup (h : (rows.map key).Nodup) (k : κ) :
    group key rows k = (at? key rows k).toList := by
  induction rows with
  | nil => rfl
  | cons r rows ih =>
    rw [List.map_cons, List.nodup_cons] at h
    by_cases hr : key r = k
    · have hrest : group key rows k = [] := by
        rw [group, List.filter_eq_nil_iff]
        intro s hs hsk
        exact h.1 (List.mem_map.mpr ⟨s, hs, (of_decide_eq_true hsk).trans hr.symm⟩)
      rw [group] at hrest ⊢
      rw [at?, List.filter_cons_of_pos (by simpa using hr), hrest,
        List.find?_cons_of_pos (by simpa using hr), Option.toList_some]
    · have := ih h.2
      rw [group, at?] at this ⊢
      rw [List.filter_cons_of_neg (by simpa using hr), List.find?_cons_of_neg (by simpa using hr),
        this]

end Groups

/-! ## Chains of full joins -/

section FullJoins

variable {ρ κ : Type} (key : ρ → κ) (on : List (Option ρ) → ρ → Bool)

/-- A row of one table at its place, with none of the `k` tables before it. -/
def placed (k : Nat) (r : ρ) : List (Option ρ) := List.replicate k none ++ [some r]

/-- `left FULL JOIN right`, where `k` tables are joined on the left side. -/
def fullJoin (k : Nat) (left : List (List (Option ρ))) (right : List ρ) : List (List (Option ρ)) :=
  leftJoin on (fun w o => w ++ [o]) left right ++
    (right.filter fun r => left.all fun w => !on w r).map (placed k)

/-- `left CROSS JOIN right`. -/
def crossJoin (left : List (List (Option ρ))) (right : List ρ) : List (List (Option ρ)) :=
  left.flatMap fun w => right.map fun r => w ++ [some r]

/-- The full joins of the tables after those on the left side. -/
def fullJoins : Nat → List (List (Option ρ)) → List (List ρ) → List (List (Option ρ))
  | _, left, [] => left
  | k, left, table :: tables => fullJoins (k + 1) (fullJoin on k left table) tables

/-- The key of the first row that a wide row holds. -/
def wideKey (w : List (Option ρ)) : Option κ := (w.findSome? id).map key

/-- Every row that a wide row holds has one key. -/
def Uniform (w : List (Option ρ)) (k : κ) : Prop := (∃ r, some r ∈ w) ∧ ∀ r, some r ∈ w → key r = k

/-- The wide rows with one key. -/
def rowsAt [DecidableEq κ] (rows : List (List (Option ρ))) (k : κ) : List (List (Option ρ)) :=
  rows.filter (wideKey key · = some k)

/-- A wide row for each of the rows, that holds this row only. -/
def alone : List (Option ρ) → List (List (Option ρ))
  | [] => []
  | o :: os =>
    (o.toList.map fun r => some r :: List.replicate os.length none) ++ (alone os).map (none :: ·)

variable {key on}

variable {w : List (Option ρ)}

theorem Uniform.wideKey {k : κ} (h : Uniform key w k) : wideKey key w = some k := by
  obtain ⟨⟨r, hr⟩, hall⟩ := h
  cases hfind : w.findSome? id with
  | none => exact absurd (List.findSome?_eq_none_iff.mp hfind _ hr) (by simp)
  | some s =>
    obtain ⟨o, ho, hos⟩ := List.exists_of_findSome?_eq_some hfind
    simp only [id_eq] at hos
    rw [Relation.wideKey, hfind, Option.map_some, hall s (hos ▸ ho)]

theorem uniform_placed (k : Nat) (r : ρ) : Uniform key (placed k r) (key r) := by
  constructor
  · exact ⟨r, by simp [placed]⟩
  · intro s hs
    have : s = r := by simpa [placed] using hs
    rw [this]

theorem Uniform.append_none {k : κ} (h : Uniform key w k) : Uniform key (w ++ [none]) k := by
  simpa [Uniform] using h

theorem Uniform.append_some {k : κ} (h : Uniform key w k) {r : ρ}
    (hr : key r = k) : Uniform key (w ++ [some r]) k := by
  obtain ⟨⟨s, hs⟩, hall⟩ := h
  refine ⟨⟨s, List.mem_append_left _ hs⟩, fun t ht => ?_⟩
  rcases List.mem_append.mp ht with ht | ht
  · exact hall t ht
  · have : t = r := by simpa using ht
    rw [this, hr]

theorem alone_append_none (os : List (Option ρ)) :
    alone (os ++ [none]) = (alone os).map (· ++ [none]) := by
  induction os with
  | nil => rfl
  | cons o os ih => simp [alone, ih, ← List.replicate_succ', Function.comp_def]

theorem alone_append_some (os : List (Option ρ)) (r : ρ) :
    alone (os ++ [some r]) = (alone os).map (· ++ [none]) ++ [placed os.length r] := by
  induction os with
  | nil => rfl
  | cons o os ih =>
    simp [alone, ih, ← List.replicate_succ', Function.comp_def, placed, List.replicate_succ]

theorem length_alone (os : List (Option ρ)) : (alone os).length = os.countP Option.isSome := by
  induction os with
  | nil => rfl
  | cons o os ih => cases o <;> simp [alone, ih, Nat.add_comm]

variable {os : List (Option ρ)} {left : List (List (Option ρ))} {k : Nat} {right : List ρ}
  {tables : List (List ρ)}

theorem alone_of_countP_le_one (h : os.countP Option.isSome ≤ 1) : ∀ w ∈ alone os, w = os := by
  induction os with
  | nil => intro w hw; cases hw
  | cons o os ih =>
    intro w hw
    cases o with
    | none =>
      obtain ⟨v, hv, rfl⟩ := List.mem_map.mp (by simpa [alone] using hw)
      rw [ih (by simpa using h) v hv]
    | some r =>
      have hrest : os.countP Option.isSome = 0 := by simpa [List.countP_cons] using h
      have hnone : ∀ o ∈ os, o = none := by simpa [List.countP_eq_zero] using hrest
      have hempty : alone os = [] := List.length_eq_zero_iff.mp (by rw [length_alone, hrest])
      have heq : os = List.replicate os.length none := List.eq_replicate_iff.mpr ⟨rfl, hnone⟩
      have hw : w = some r :: List.replicate os.length none := by simpa [alone, hempty] using hw
      rw [hw, ← heq]

theorem fullJoin_congr {on' : List (Option ρ) → ρ → Bool}
    (h : ∀ w ∈ left, ∀ r, on w r = on' w r) (right : List ρ) :
    fullJoin on k left right = fullJoin on' k left right := by
  have hleft : leftJoin on (fun w o => w ++ [o]) left right =
      leftJoin on' (fun w o => w ++ [o]) left right := by
    refine List.flatMap_congr fun w hw => ?_
    rw [leftRows, leftRows, funext (h w hw)]
  have hright : right.filter (fun r => left.all fun w => !on w r) =
      right.filter fun r => left.all fun w => !on' w r := by
    refine List.filter_congr fun r _ => ?_
    rw [Bool.eq_iff_iff, List.all_eq_true, List.all_eq_true]
    exact forall₂_congr fun w hw => by rw [h w hw r]
  rw [fullJoin, fullJoin, hleft, hright]

theorem length_of_mem_fullJoin
    (h : ∀ w ∈ left, w.length = k) : ∀ w ∈ fullJoin on k left right, w.length = k + 1 := by
  intro w hw
  rcases List.mem_append.mp hw with hw | hw
  · obtain ⟨v, hv, o, -, rfl⟩ := mem_leftJoin hw
    rw [List.length_append, h v hv, List.length_singleton]
  · obtain ⟨r, -, rfl⟩ := List.mem_map.mp hw
    simp [placed]

theorem length_of_mem_fullJoins
    (h : ∀ w ∈ left, w.length = k) : ∀ w ∈ fullJoins on k left tables,
      w.length = k + tables.length := by
  induction tables generalizing k left with
  | nil => exact h
  | cons table tables ih =>
    intro w hw
    rw [ih (length_of_mem_fullJoin h) w hw, List.length_cons]
    omega

theorem crossJoin_eq_fullJoin (hon : ∀ w r, on w r = true)
    (hleft : left ≠ []) (hright : right ≠ []) :
    crossJoin left right = fullJoin on k left right := by
  have hrows : ∀ w, leftRows on (fun w o => w ++ [o]) right w = right.map fun r => w ++
      [some r] := by
    intro w
    have hall : right.filter (on w) = right := List.filter_eq_self.mpr fun r _ => hon w r
    rw [leftRows, hall]
    cases right with
    | nil => exact absurd rfl hright
    | cons r rs => rfl
  have hnone : right.filter (fun r => left.all fun w => !on w r) = [] := by
    rw [List.filter_eq_nil_iff]
    intro r _ hall
    obtain ⟨w, hw⟩ := List.exists_mem_of_ne_nil _ hleft
    simpa [hon] using List.all_eq_true.mp hall w hw
  rw [fullJoin, hnone, List.map_nil, List.append_nil, crossJoin, leftJoin, funext hrows]

theorem crossJoin_ne_nil (hleft : left ≠ []) (hright : right ≠ []) : crossJoin left right ≠ [] := by
  obtain ⟨w, hw⟩ := List.exists_mem_of_ne_nil _ hleft
  obtain ⟨r, hr⟩ := List.exists_mem_of_ne_nil _ hright
  exact List.ne_nil_of_mem (List.mem_flatMap.mpr ⟨w, hw, List.mem_map_of_mem hr⟩)

variable {table : List ρ}

section Step

variable [DecidableEq κ] (full : κ → Bool)

/-- The condition of a full join says that the keys are equal and without NULL. -/
def MeetsByKey (on : List (Option ρ) → ρ → Bool) (full : κ → Bool) (key : ρ → κ) : Prop :=
  ∀ w k r, Uniform key w k → (on w r = true ↔ full k = true ∧ key r = k)

/-- What the tables have at a key: one wide row, or one for each of their rows. -/
def expected (os : List (Option ρ)) (k : κ) : List (List (Option ρ)) :=
  if full k then if os.any Option.isSome then [os] else [] else alone os

variable {full}

theorem filter_on (hon : MeetsByKey on full key) {table : List ρ} (htable : (table.map key).Nodup)
    {k : κ} (hw : Uniform key w k) :
    table.filter (on w) = if full k then (at? key table k).toList else [] := by
  split
  · next hfull =>
    rw [← group_of_nodup htable, group]
    exact List.filter_congr fun r _ => by
      rw [Bool.eq_iff_iff, hon w k r hw]
      simp [hfull]
  · next hfull =>
    rw [List.filter_eq_nil_iff]
    exact fun r _ hr => hfull ((hon w k r hw).mp hr).1

theorem extend_row (hon : MeetsByKey on full key) {table : List ρ} (htable : (table.map key).Nodup)
    {k : κ} (hw : Uniform key w k) :
    leftRows on (fun w o => w ++ [o]) table w =
      [w ++ [if full k then at? key table k else none]] := by
  rw [leftRows, filter_on hon htable hw]
  cases full k with
  | false => rfl
  | true => cases at? key table k <;> rfl

theorem uniform_extend {table : List ρ} {k : κ} (hw : Uniform key w k) :
    Uniform key (w ++ [if full k then at? key table k else none]) k := by
  cases hfull : full k with
  | false => simpa using hw.append_none
  | true =>
    cases hat : at? key table k with
    | none => simpa using hw.append_none
    | some r => simpa using hw.append_some (by simpa using List.find?_some hat)

variable {n : Nat}

theorem uniform_fullJoin (hon : MeetsByKey on full key) {left : List (List (Option ρ))}
    {table : List ρ} (htable : (table.map key).Nodup) (hleft : ∀ w ∈ left, ∃ k, Uniform key w k) :
    ∀ w ∈ fullJoin on n left table, ∃ k, Uniform key w k := by
  intro w hw
  rcases List.mem_append.mp hw with hw | hw
  · obtain ⟨v, hv, hw⟩ := List.mem_flatMap.mp hw
    obtain ⟨k, hk⟩ := hleft v hv
    rw [extend_row hon htable hk, List.mem_singleton] at hw
    exact ⟨k, hw ▸ uniform_extend hk⟩
  · obtain ⟨r, -, rfl⟩ := List.mem_map.mp hw
    exact ⟨key r, uniform_placed n r⟩

theorem rowsAt_extend (hon : MeetsByKey on full key) {left : List (List (Option ρ))}
    {table : List ρ} (htable : (table.map key).Nodup) (hleft : ∀ w ∈ left, ∃ k, Uniform key w k)
    (k : κ) : rowsAt key (leftJoin on (fun w o => w ++ [o]) left table) k =
      (rowsAt key left k).map (· ++ [if full k then at? key table k else none]) := by
  induction left with
  | nil => rfl
  | cons w left ih =>
    obtain ⟨⟨j, hj⟩, hrest⟩ := List.forall_mem_cons.mp hleft
    have ih := ih hrest
    rw [rowsAt, leftJoin] at ih ⊢
    rw [List.flatMap_cons, List.filter_append, ih, extend_row hon htable hj, rowsAt, rowsAt]
    have hbefore : wideKey key w = some j := hj.wideKey
    have hafter : wideKey key (w ++ [if full j then at? key table j else none]) = some j :=
      (uniform_extend hj).wideKey
    by_cases hjk : j = k
    · rw [hjk] at hbefore hafter
      rw [hjk, List.filter_cons_of_pos (by simpa using hafter),
        List.filter_cons_of_pos (by simpa using hbefore), List.map_cons]
      rfl
    · rw [List.filter_cons_of_neg (by simpa [hafter] using hjk),
        List.filter_cons_of_neg (by simpa [hbefore] using hjk)]
      rfl

theorem rowsAt_unmet (hon : MeetsByKey on full key) (n : Nat)
    (htable : (table.map key).Nodup) (hleft : ∀ w ∈ left, ∃ k, Uniform key w k) (k : κ) :
    rowsAt key ((table.filter fun r => left.all fun w => !on w r).map (placed n)) k =
      if full k = true ∧ rowsAt key left k ≠ [] then []
      else ((at? key table k).toList).map (placed n) := by
  have hmeets : ∀ r, key r = k → ((left.all fun w => !on w r) = true ↔
      ¬ (full k = true ∧ rowsAt key left k ≠ [])) := by
    intro r hr
    rw [List.all_eq_true, ← not_iff_not, not_not]
    constructor
    · intro h
      push Not at h
      obtain ⟨w, hw, hon'⟩ := h
      obtain ⟨j, hj⟩ := hleft w hw
      obtain ⟨hfull, hkey⟩ := (hon w j r hj).mp (by simpa using hon')
      rw [hr] at hkey
      subst hkey
      exact ⟨hfull, List.ne_nil_of_mem (List.mem_filter.mpr ⟨hw, by simpa using hj.wideKey⟩)⟩
    · rintro ⟨hfull, hne⟩ hall
      obtain ⟨w, hw⟩ := List.exists_mem_of_ne_nil _ hne
      obtain ⟨hw, hwk⟩ := List.mem_filter.mp hw
      obtain ⟨j, hj⟩ := hleft w hw
      have hjk : j = k := by simpa [hj.wideKey] using hwk
      have := (hon w j r hj).mpr ⟨hjk ▸ hfull, hr.trans hjk.symm⟩
      simpa [this] using hall w hw
  rw [rowsAt, List.filter_map, List.filter_filter]
  have hcongr : table.filter (fun r => ((fun w => decide (wideKey key w = some k)) ∘ placed n) r &&
      left.all fun w => !on w r) =
      if full k = true ∧ rowsAt key left k ≠ [] then [] else group key table k := by
    split
    · next h =>
      rw [List.filter_eq_nil_iff]
      intro r _ hr
      rw [Bool.and_eq_true, Function.comp_apply, (uniform_placed n r).wideKey] at hr
      exact (hmeets r (by simpa using hr.1)).mp hr.2 h
    · next h =>
      rw [group]
      refine List.filter_congr fun r _ => ?_
      rw [Function.comp_apply, (uniform_placed n r : Uniform key _ _).wideKey]
      by_cases hr : key r = k
      · simp [hr, (hmeets r hr).mpr h]
      · simp [hr]
  rw [hcongr, group_of_nodup htable]
  split <;> rfl

theorem rowsAt_fullJoin (hon : MeetsByKey on full key)
    (htable : (table.map key).Nodup) (hleft : ∀ w ∈ left, ∃ k, Uniform key w k)
    {k : κ} (hos : os.length = n) (h : rowsAt key left k = expected full os k) :
    rowsAt key (fullJoin on n left table) k = expected full (os ++ [at? key table k]) k := by
  have hsplit : rowsAt key (fullJoin on n left table) k =
      (rowsAt key left k).map (· ++ [if full k then at? key table k else none]) ++
      if full k = true ∧ rowsAt key left k ≠ [] then []
      else ((at? key table k).toList).map (placed n) := by
    rw [← rowsAt_extend hon htable hleft, ← rowsAt_unmet hon n htable hleft]
    simp only [rowsAt, fullJoin, List.filter_append]
  rw [hsplit, h]
  cases hfull : full k with
  | true =>
    cases hany : os.any Option.isSome with
    | true => simp [expected, hfull, hany]
    | false =>
      have hnone : os = List.replicate n none := by
        rw [List.eq_replicate_iff]
        refine ⟨hos, fun o ho => ?_⟩
        simpa using List.any_eq_false.mp hany o ho
      cases hat : at? key table k with
      | none => simp [expected, hfull, hany]
      | some r => simp [expected, hfull, placed, hnone]
  | false =>
    cases hat : at? key table k with
    | none => simp [expected, hfull, alone_append_none]
    | some r => simp [expected, hfull, alone_append_some, hos]

theorem rowsAt_fullJoins (hon : MeetsByKey on full key)
    (htables : ∀ t ∈ tables, (t.map key).Nodup)
    (hleft : ∀ w ∈ left, ∃ k, Uniform key w k) {k : κ} (hos : os.length = n)
    (h : rowsAt key left k = expected full os k) : rowsAt key (fullJoins on n left tables) k =
      expected full (os ++ tables.map fun t => at? key t k) k := by
  induction tables generalizing n left os with
  | nil => simpa [fullJoins] using h
  | cons table tables ih =>
    obtain ⟨htable, hrest⟩ := List.forall_mem_cons.mp htables
    have hstep := rowsAt_fullJoin hon htable hleft hos h
    rw [fullJoins, ih hrest (uniform_fullJoin hon htable hleft) (by simp [hos]) hstep]
    simp

theorem uniform_fullJoins (hon : MeetsByKey on full key)
    (htables : ∀ t ∈ tables, (t.map key).Nodup)
    (hleft : ∀ w ∈ left, ∃ k, Uniform key w k) :
    ∀ w ∈ fullJoins on n left tables, ∃ k, Uniform key w k := by
  induction tables generalizing n left with
  | nil => exact hleft
  | cons table tables ih =>
    obtain ⟨htable, hrest⟩ := List.forall_mem_cons.mp htables
    exact ih hrest (uniform_fullJoin hon htable hleft)

end Step

/-! ## What a chain of full joins builds -/

section Chain

variable [DecidableEq κ] {full : κ → Bool}

/-- The chain that starts with one table. -/
def fullJoinAll (on : List (Option ρ) → ρ → Bool) : List (List ρ) → List (List (Option ρ))
  | [] => []
  | table :: tables => fullJoins on 1 (table.map (placed 0)) tables

variable (key) in
/-- The rows of the tables with a key, each at its place. -/
def across (tables : List (List ρ)) (k : κ) : List (Option ρ) := tables.map fun t => at? key t k

theorem rowsAt_first (h : (table.map key).Nodup) (k : κ) :
    rowsAt key (table.map (placed 0)) k = expected full [at? key table k] k := by
  have hplaced : ∀ r : ρ, (fun w => decide (wideKey key w = some k)) (placed 0 r) =
      decide (key r = k) := by
    intro r
    simp [(uniform_placed 0 r : Uniform key _ _).wideKey]
  have hgroup := group_of_nodup h k
  rw [group] at hgroup
  rw [rowsAt, List.filter_map]
  simp only [Function.comp_def, hplaced]
  rw [hgroup]
  cases at? key table k <;> cases hfull : full k <;> simp [expected, hfull, placed, alone]

/-- Key by key, a chain of full joins has what its tables have: one wide row for a key
without NULL, and one for each row with a key that holds a NULL. -/
theorem rowsAt_fullJoinAll (hon : MeetsByKey on full key)
    (htables : ∀ t ∈ tables, (t.map key).Nodup) (k : κ) :
    rowsAt key (fullJoinAll on tables) k = expected full (across key tables k) k := by
  cases tables with
  | nil => cases hfull : full k <;> simp [fullJoinAll, rowsAt, expected, across, hfull, alone]
  | cons table tables =>
    obtain ⟨htable, hrest⟩ := List.forall_mem_cons.mp htables
    have hleft : ∀ w ∈ table.map (placed 0), ∃ k, Uniform key w k := by
      intro w hw
      obtain ⟨r, -, rfl⟩ := List.mem_map.mp hw
      exact ⟨key r, uniform_placed 0 r⟩
    exact rowsAt_fullJoins hon hrest hleft rfl (rowsAt_first htable k)

theorem uniform_fullJoinAll (hon : MeetsByKey on full key)
    (htables : ∀ t ∈ tables, (t.map key).Nodup) :
    ∀ w ∈ fullJoinAll on tables, ∃ k, Uniform key w k := by
  cases tables with
  | nil => exact fun w hw => absurd hw (List.not_mem_nil)
  | cons table tables =>
    obtain ⟨htable, hrest⟩ := List.forall_mem_cons.mp htables
    refine uniform_fullJoins hon hrest fun w hw => ?_
    obtain ⟨r, -, rfl⟩ := List.mem_map.mp hw
    exact ⟨key r, uniform_placed 0 r⟩

theorem rowsAt_ne_nil_iff (hon : MeetsByKey on full key)
    (htables : ∀ t ∈ tables, (t.map key).Nodup) (k : κ) :
    rowsAt key (fullJoinAll on tables) k ≠ [] ↔ ∃ t ∈ tables, ∃ r ∈ t, key r = k := by
  have hany : (across key tables k).any Option.isSome = true ↔
      ∃ t ∈ tables, ∃ r ∈ t, key r = k := by
    simp [across, at?, List.find?_isSome]
  rw [rowsAt_fullJoinAll hon htables, ← hany, expected]
  split
  · split
    · next h => simp [h]
    · next h => simp [h]
  · rw [ne_eq, ← List.length_eq_zero_iff, length_alone, List.countP_eq_zero]
    simp [Option.ne_none_iff_isSome]

/-- The keys that hold a NULL and are in two tables are those with more than one wide row. -/
theorem length_rowsAt_le_one_iff (hon : MeetsByKey on full key)
    (htables : ∀ t ∈ tables, (t.map key).Nodup) (k : κ) :
    (rowsAt key (fullJoinAll on tables) k).length ≤ 1 ↔
      (full k = false → (across key tables k).countP Option.isSome ≤ 1) := by
  rw [rowsAt_fullJoinAll hon htables, expected]
  cases full k with
  | true =>
    simp only [if_true, reduceCtorEq, false_implies, iff_true]
    split <;> simp
  | false => simp [length_alone]

/-- Where a key has one wide row, it holds the rows of all tables with this key. -/
theorem rowsAt_eq_across (hon : MeetsByKey on full key)
    (htables : ∀ t ∈ tables, (t.map key).Nodup) {k : κ}
    (h : (rowsAt key (fullJoinAll on tables) k).length ≤ 1) :
    ∀ w ∈ rowsAt key (fullJoinAll on tables) k, w = across key tables k := by
  intro w hw
  have hcount := (length_rowsAt_le_one_iff hon htables k).mp h
  rw [rowsAt_fullJoinAll hon htables, expected] at hw
  cases hfull : full k with
  | true =>
    rw [hfull, if_pos rfl] at hw
    split at hw
    · exact List.mem_singleton.mp hw
    · cases hw
  | false =>
    rw [hfull] at hw
    exact alone_of_countP_le_one (hcount hfull) w hw

theorem length_of_mem_fullJoinAll : ∀ w ∈ fullJoinAll on tables, w.length = tables.length := by
  cases tables with
  | nil => exact nofun
  | cons table tables =>
    intro w hw
    rw [length_of_mem_fullJoins (k := 1) ?_ w hw, List.length_cons, Nat.add_comm]
    intro v hv
    obtain ⟨r, -, rfl⟩ := List.mem_map.mp hv
    rfl

end Chain

end FullJoins

/-! ## The least row -/

section Least

variable {ρ σ : Type}

/-- The first row that is below all rows. -/
def least (le : ρ → ρ → Bool) (rows : List ρ) : Option ρ := rows.find? fun r => rows.all (le r)

variable {rows : List ρ}

theorem least_eq_some {le : ρ → ρ → Bool} {r : ρ} (h : least le rows = some r) :
    r ∈ rows ∧ ∀ s ∈ rows, le r s = true := by
  have hbelow : (fun r => rows.all (le r)) r = true :=
    List.find?_some (p := fun r => rows.all (le r)) h
  exact ⟨List.mem_of_find?_eq_some h, List.all_eq_true.mp hbelow⟩

theorem least_map (le : σ → σ → Bool) (f : ρ → σ) (rows : List ρ) :
    least le (rows.map f) = (least (fun r s => le (f r) (f s)) rows).map f := by
  unfold least
  rw [List.find?_map]
  simp only [Function.comp_def, List.all_map]

variable {le : ρ → ρ → Bool} (htotal : ∀ r s, le r s = true ∨ le s r = true)
  (htrans : ∀ r s t, le r s = true → le s t = true → le r t = true)

include htotal htrans in
theorem exists_le_all (hne : rows ≠ []) : ∃ r ∈ rows, ∀ s ∈ rows, le r s = true := by
  induction rows with
  | nil => exact absurd rfl hne
  | cons a rows ih =>
    have hrefl : le a a = true := (htotal a a).elim (fun h => h) fun h => h
    cases rows with
    | nil => exact ⟨a, List.mem_cons_self .., fun s hs => List.mem_singleton.mp hs ▸ hrefl⟩
    | cons b rows =>
      obtain ⟨r, hr, hall⟩ := ih (List.cons_ne_nil b rows)
      rcases htotal a r with har | hra
      · refine ⟨a, List.mem_cons_self .., fun s hs => ?_⟩
        rcases List.mem_cons.mp hs with rfl | hs
        · exact hrefl
        · exact htrans a r s har (hall s hs)
      · refine ⟨r, List.mem_cons_of_mem _ hr, fun s hs => ?_⟩
        rcases List.mem_cons.mp hs with rfl | hs
        · exact hra
        · exact hall s hs

include htotal htrans in
theorem least_eq_none : least le rows = none ↔ rows = [] := by
  constructor
  · intro h
    by_contra hne
    obtain ⟨r, hr, hall⟩ := exists_le_all htotal htrans hne
    exact absurd (List.all_eq_true.mpr hall) (List.find?_eq_none.mp h r hr)
  · rintro rfl
    rfl

include htrans in
theorem least_filter {r : ρ} (h : least le rows = some r) {p : ρ → Bool}
    (hp : p r = true) : least le (rows.filter p) = some r := by
  obtain ⟨hr, before, after, hsplit, hbefore⟩ := List.find?_eq_some_iff_append.mp h
  have hall := (least_eq_some h).2
  refine List.find?_eq_some_iff_append.mpr
    ⟨List.all_eq_true.mpr fun s hs => hall s (List.mem_of_mem_filter hs), before.filter p,
      after.filter p, ?_, fun s hs => ?_⟩
  · rw [hsplit, List.filter_append, List.filter_cons_of_pos hp]
  · have hmem : r ∈ rows.filter p :=
      List.mem_filter.mpr ⟨hsplit ▸ List.mem_append_right _ (List.mem_cons_self ..), hp⟩
    have hnot := hbefore s (List.mem_of_mem_filter hs)
    rw [Bool.not_eq_true', ← Bool.not_eq_true] at hnot ⊢
    exact fun hbelow => hnot (List.all_eq_true.mpr fun t ht =>
      htrans s r t (List.all_eq_true.mp hbelow r hmem) (hall t ht))

end Least

end Windrose.Foundation.Relation

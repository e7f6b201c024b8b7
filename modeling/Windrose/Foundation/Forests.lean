/-
  Foundation/Forests.lean --- forests: tables of parents, and graphs without a cycle.

  A table of parents is what union-find keeps.  `Forest` says whom it represents: every
  element leads to its representative through elements of less and less depth, and no
  depth is greater than the number of the elements that have a parent.  So a search that
  has one step for each of these, and one more, ends at the representative.
-/
import Mathlib.Combinatorics.SimpleGraph.Acyclic
import Windrose.Foundation.Paths

set_option autoImplicit false

namespace Windrose.Foundation

section Parents

variable {α : Type} [DecidableEq α]

/-- The table with a new parent for an element. -/
def setParent (parent : List (α × α)) (x p : α) : List (α × α) := (x, p) :: parent.filter (·.1 ≠ x)

theorem lookup_setParent (parent : List (α × α)) (x p y : α) :
    (setParent parent x p).lookup y = if y = x then some p else parent.lookup y := by
  by_cases hy : y = x
  · simp [setParent, hy]
  · have hfilter : (parent.filter (·.1 ≠ x)).lookup y = parent.lookup y := by
      induction parent with
      | nil => rfl
      | cons q parent ih =>
        by_cases hq : q.1 = x
        · rw [List.filter_cons_of_neg (by simpa using hq), ih, List.lookup_cons,
            beq_false_of_ne (hq ▸ hy)]
        · rw [List.filter_cons_of_pos (by simpa using hq), List.lookup_cons, List.lookup_cons, ih]
    rw [if_neg hy, setParent, List.lookup_cons, beq_false_of_ne hy]
    exact hfilter

/-- The elements that have a parent. -/
def children (parent : List (α × α)) : Finset α := (parent.map Prod.fst).toFinset

theorem mem_children {parent : List (α × α)} {x : α} :
    x ∈ children parent ↔ ∃ p, parent.lookup x = some p := by
  rw [← Option.isSome_iff_exists, List.lookup_isSome_iff, children, List.mem_toFinset, List.mem_map]
  simp only [beq_iff_eq, @eq_comm α x]

theorem children_setParent (parent : List (α × α)) (x p : α) :
    children (setParent parent x p) = insert x (children parent) := by
  ext y
  by_cases hy : y = x <;> simp [children, setParent, hy]

/-- What a table of parents represents. -/
structure Forest (parent : List (α × α)) (rep : α → α) (depth : α → Nat) : Prop where
  step {x p : α} : parent.lookup x = some p → rep p = rep x ∧ depth p < depth x
  root {x : α} : parent.lookup x = none → rep x = x ∧ depth x = 0
  depth_le (x : α) : depth x ≤ (children parent).card

theorem Forest.nil : Forest ([] : List (α × α)) id fun _ => 0 where
  step := nofun
  root _ := ⟨rfl, rfl⟩
  depth_le _ := Nat.zero_le _

namespace Forest

variable {parent : List (α × α)} {rep : α → α} {depth : α → Nat}

theorem depth_le_length (h : Forest parent rep depth) (x : α) : depth x ≤ parent.length :=
  (h.depth_le x).trans ((List.toFinset_card_le _).trans (by rw [List.length_map]))

theorem lookup_rep (h : Forest parent rep depth) (x : α) : parent.lookup (rep x) = none := by
  induction hd : depth x using Nat.strong_induction_on generalizing x with
  | _ d ih =>
    cases hx : parent.lookup x with
    | none => rwa [(h.root hx).1]
    | some p =>
      rw [← (h.step hx).1]
      exact ih _ (hd ▸ (h.step hx).2) p rfl

theorem grand (h : Forest parent rep depth) {x p : α} (hx : parent.lookup x = some p) :
    rep ((parent.lookup p).getD p) = rep x ∧ depth ((parent.lookup p).getD p) < depth x := by
  cases hp : parent.lookup p with
  | none => exact h.step hx
  | some g => exact ⟨(h.step hp).1.trans (h.step hx).1, (h.step hp).2.trans (h.step hx).2⟩

/-- A step of path halving: the parent of an element becomes the parent of its parent. -/
theorem halve (h : Forest parent rep depth) {x p : α} (hx : parent.lookup x = some p) :
    Forest (setParent parent x ((parent.lookup p).getD p)) rep depth where
  step := by
    intro y q hq
    rw [lookup_setParent] at hq
    split at hq
    · next hy =>
      cases hq
      exact hy ▸ h.grand hx
    · exact h.step hq
  root := by
    intro y hy
    rw [lookup_setParent] at hy
    split at hy
    · cases hy
    · exact h.root hy
  depth_le := by
    intro y
    rw [children_setParent, Finset.insert_eq_of_mem (mem_children.mpr ⟨p, hx⟩)]
    exact h.depth_le y

/-- A root is linked below another one. -/
theorem link (h : Forest parent rep depth) {a b : α} (ha : parent.lookup a = none)
    (hb : parent.lookup b = none) (hne : a ≠ b) :
    Forest (setParent parent a b) (fun x => if rep x = a then b else rep x)
      (fun x => if rep x = a then depth x + 1 else depth x) where
  step := by
    intro x p hp
    rw [lookup_setParent] at hp
    split at hp
    · next hx =>
      cases hp
      simp [hx, h.root ha, h.root hb, hne.symm]
    · simp only [(h.step hp).1, true_and]
      have hlt := (h.step hp).2
      split <;> omega
  root := by
    intro x hx
    rw [lookup_setParent] at hx
    split at hx
    · cases hx
    · next hxa => simp [h.root hx, hxa]
  depth_le := by
    intro x
    have hnew : a ∉ children parent := by
      rw [mem_children, ha]
      rintro ⟨p, hp⟩
      cases hp
    rw [children_setParent, Finset.card_insert_of_notMem hnew]
    have hle := h.depth_le x
    split <;> omega

end Forest

theorem rep_link_iff {rep : α → α} {G : SimpleGraph α}
    (hrep : ∀ x y, rep x = rep y ↔ G.Reachable x y) {a b : α} (hab : a ≠ b) (x y : α) :
    (if rep x = rep a then rep b else rep x) = (if rep y = rep a then rep b else rep y) ↔
      (G ⊔ SimpleGraph.fromEdgeSet {s(a, b)}).Reachable x y := by
  have hle : ∀ {x y}, G.Reachable x y →
      (G ⊔ SimpleGraph.fromEdgeSet {s(a, b)}).Reachable x y := fun h => h.mono le_sup_left
  have hedge : (G ⊔ SimpleGraph.fromEdgeSet {s(a, b)}).Reachable a b :=
    SimpleGraph.Adj.reachable (by simp [hab])
  constructor
  · intro h
    split at h
    · next hx =>
      have hxb := (hle ((hrep x a).mp hx)).trans hedge
      split at h
      · next hy => exact hxb.trans ((hle ((hrep y a).mp hy)).trans hedge).symm
      · exact hxb.trans (hle ((hrep b y).mp h))
    · split at h
      · next hy => exact (hle ((hrep x b).mp h)).trans ((hle ((hrep y a).mp hy)).trans hedge).symm
      · exact hle ((hrep x y).mp h)
  · intro h
    rw [SimpleGraph.reachable_iff_reflTransGen] at h
    induction h with
    | refl => rfl
    | tail _ hadj ih =>
      rw [ih]
      rw [SimpleGraph.sup_adj] at hadj
      rcases hadj with hadj | hadj
      · rw [(hrep _ _).mpr hadj.reachable]
      · rw [SimpleGraph.fromEdgeSet_adj, Set.mem_singleton_iff, Sym2.eq_iff] at hadj
        rcases hadj.1 with ⟨rfl, rfl⟩ | ⟨rfl, rfl⟩ <;> simp

end Parents

section Paths

variable {V E : Type} {source target : E → V} {edges : List E} {G : SimpleGraph V}

/-- A simple path is a path of every graph that joins the ends of the edges. -/
theorem Walk.exists_isPath
    (hG : ∀ e ∈ edges, source e ≠ target e → G.Adj (source e) (target e)) {a b : V} {es : List E}
    (h : Walk source target edges a es b) (hnodup : (a :: es.map target).Nodup) :
    ∃ p : G.Path a b, p.1.support = a :: es.map target := by
  suffices hwalk : ∃ w : G.Walk a b, w.support = a :: es.map target by
    obtain ⟨w, hw⟩ := hwalk
    exact ⟨⟨w, w.isPath_def.mpr (hw ▸ hnodup)⟩, hw⟩
  induction es generalizing a with
  | nil =>
    cases h
    exact ⟨.nil, rfl⟩
  | cons e es ih =>
    obtain ⟨he, rfl, hrest⟩ := h
    obtain ⟨ha, hnodup⟩ := List.nodup_cons.mp hnodup
    obtain ⟨w, hw⟩ := ih hrest hnodup
    exact ⟨.cons (hG e he fun heq => ha (heq ▸ List.mem_cons_self)) w, by simp [hw]⟩

theorem Walk.eq_of_isAcyclic (hacyclic : G.IsAcyclic)
    (hG : ∀ e ∈ edges, source e ≠ target e → G.Adj (source e) (target e))
    (hends : ∀ e ∈ edges, ∀ f ∈ edges, s(source e, target e) = s(source f, target f) → e = f)
    {a b : V} {es fs : List E} (hes : Walk source target edges a es b)
    (hesn : (a :: es.map target).Nodup) (hfs : Walk source target edges a fs b)
    (hfsn : (a :: fs.map target).Nodup) : es = fs := by
  obtain ⟨p, hp⟩ := hes.exists_isPath hG hesn
  obtain ⟨q, hq⟩ := hfs.exists_isPath hG hfsn
  have htargets : es.map target = fs.map target := by
    rw [(hacyclic.subsingleton_path a b).elim p q, hq] at hp
    exact (List.cons.inj hp).2.symm
  clear hp hq p q hesn hfsn
  induction es generalizing a fs with
  | nil => exact (List.map_eq_nil_iff.mp htargets.symm).symm
  | cons e es ih =>
    cases fs with
    | nil => cases htargets
    | cons f fs =>
      obtain ⟨htarget, hrest⟩ := List.cons.inj htargets
      obtain rfl := hends e hes.1 f hfs.1 (by rw [htarget, hes.2.1, hfs.2.1])
      rw [ih hes.2.2 hfs.2.2 hrest]

end Paths

end Windrose.Foundation

/-
  Foundation/Paths.lean --- the simple paths of a directed graph with parallel edges.

  A path is the list of its edges.  `paths` is the depth-first search that collects every
  simple path to a target (`mem_paths`).

  Where a vertex is the target of exactly one path, that path enters each of its vertices
  the way every other simple path does.  So the union of such paths is a tree (`Tree`).
-/
import Windrose.Foundation.Fresh

set_option autoImplicit false

namespace Windrose.Foundation

section Paths

variable {V E : Type} (source target : E → V) (edges : List E)

/-- The simple paths from a vertex to `goal` that avoid the vertices visited. -/
def paths [DecidableEq V] (goal : V) : Nat → V → List V → List (List E)
  | 0, _, _ => []
  | fuel + 1, at_, visited =>
    if at_ = goal then [[]]
    else
      (edges.filter fun e => source e = at_ ∧ target e ∉ visited).flatMap fun e =>
        (paths goal fuel (target e) (target e :: visited)).map (e :: ·)

/-- The edges lead from one vertex to the other. -/
def Walk : V → List E → V → Prop
  | a, [], b => a = b
  | a, e :: es, b => e ∈ edges ∧ source e = a ∧ Walk (target e) es b

variable {source target edges}

theorem Walk.append {a b c : V} {es fs : List E} (h : Walk source target edges a es b)
    (h' : Walk source target edges b fs c) : Walk source target edges a (es ++ fs) c := by
  induction es generalizing a with
  | nil => exact h ▸ h'
  | cons e es ih => exact ⟨h.1, h.2.1, ih h.2.2⟩

variable {a b : V}

theorem Walk.split {es fs : List E} {e : E}
    (h : Walk source target edges a (es ++ e :: fs) b) :
    Walk source target edges a (es ++ [e]) (target e) ∧
      Walk source target edges (target e) fs b := by
  induction es generalizing a with
  | nil => exact ⟨⟨h.1, h.2.1, rfl⟩, h.2.2⟩
  | cons x es ih =>
    obtain ⟨hleft, hright⟩ := ih h.2.2
    exact ⟨⟨h.1, h.2.1, hleft⟩, hright⟩

variable {es : List E}

theorem Walk.mem_edges (h : Walk source target edges a es b) : ∀ e ∈ es, e ∈ edges := by
  induction es generalizing a with
  | nil => exact nofun
  | cons x es ih =>
    intro e he
    rcases List.mem_cons.mp he with rfl | he
    · exact h.1
    · exact ih h.2.2 e he

theorem Walk.target_mem (h : Walk source target edges a es b)
    (hne : es ≠ []) : b ∈ es.map target := by
  induction es generalizing a with
  | nil => exact absurd rfl hne
  | cons e es ih =>
    rcases List.eq_nil_or_concat es with rfl | ⟨es', x, rfl⟩
    · exact List.mem_cons.mpr (.inl h.2.2.symm)
    · exact List.mem_cons_of_mem _ (ih h.2.2 (by simp))

theorem length_le_of_nodup (hmem : ∀ e ∈ es, e ∈ edges)
    (h : (es.map target).Nodup) : es.length ≤ edges.length :=
  (List.Nodup.of_map target h).length_le_of_subset hmem

/-- Where there is a walk there is a simple path: a vertex that comes back is cut out. -/
theorem Walk.exists_simple (h : Walk source target edges a es b) :
    ∃ fs, Walk source target edges a fs b ∧ (a :: fs.map target).Nodup := by
  induction es generalizing a with
  | nil => exact ⟨[], h, List.nodup_singleton a⟩
  | cons e es ih =>
    obtain ⟨fs, hfs, hnodup⟩ := ih h.2.2
    by_cases ha : a ∈ target e :: fs.map target
    · rcases List.mem_cons.mp ha with rfl | ha
      · exact ⟨fs, hfs, hnodup⟩
      · obtain ⟨f, hf, rfl⟩ := List.mem_map.mp ha
        obtain ⟨front, back, rfl⟩ := List.append_of_mem hf
        refine ⟨back, hfs.split.2, ((List.nodup_cons.mp hnodup).2).sublist ?_⟩
        rw [List.map_append, List.map_cons]
        exact List.sublist_append_right _ _
    · exact ⟨e :: fs, ⟨h.1, h.2.1, hfs⟩, List.nodup_cons.mpr ⟨ha, hnodup⟩⟩

theorem exists_walk_iff : (∃ es, Walk source target edges a es b) ↔
      Relation.ReflTransGen (fun a b => ∃ e ∈ edges, source e = a ∧ target e = b) a b := by
  constructor
  · rintro ⟨es, h⟩
    induction es generalizing a with
    | nil => exact h ▸ .refl
    | cons e es ih => exact .head ⟨e, h.1, h.2.1, rfl⟩ (ih h.2.2)
  · intro h
    induction h using Relation.ReflTransGen.head_induction_on with
    | refl => exact ⟨[], rfl⟩
    | head hstep _ ih =>
      obtain ⟨e, he, hsource, rfl⟩ := hstep
      obtain ⟨es, hes⟩ := ih
      exact ⟨e :: es, he, hsource, hes⟩

variable [DecidableEq V]

variable {fuel : Nat}

theorem mem_paths {goal : V} {a : V} {visited : List V} (ha : a ∈ visited)
    : es ∈ paths source target edges goal fuel a visited ↔
      Walk source target edges a es goal ∧ (es.map target).Nodup ∧
        (∀ v ∈ es.map target, v ∉ visited) ∧ es.length < fuel := by
  induction fuel generalizing a visited es with
  | zero => simp [paths]
  | succ fuel ih =>
    unfold paths
    by_cases hgoal : a = goal
    · rw [if_pos hgoal, List.mem_singleton]
      constructor
      · rintro rfl
        exact ⟨hgoal, List.nodup_nil, nofun, Nat.succ_pos fuel⟩
      · rintro ⟨hwalk, -, havoid, -⟩
        by_contra hne
        exact havoid goal (hwalk.target_mem hne) (hgoal ▸ ha)
    · rw [if_neg hgoal]
      cases es with
      | nil =>
        refine iff_of_false (fun h => ?_) fun h => hgoal h.1
        obtain ⟨e, -, h⟩ := List.mem_flatMap.mp h
        simp at h
      | cons e es =>
        have hmem : e :: es ∈ ((edges.filter fun e => source e = a ∧ target e ∉ visited).flatMap
            fun e => (paths source target edges goal fuel (target e) (target e :: visited)).map
              (e :: ·)) ↔ (e ∈ edges ∧ source e = a ∧ target e ∉ visited) ∧
            es ∈ paths source target edges goal fuel (target e) (target e :: visited) := by
          simp [List.mem_flatMap, and_assoc]
        rw [hmem, ih List.mem_cons_self]
        simp only [Walk, List.map_cons, List.nodup_cons, List.mem_cons, forall_eq_or_imp,
          List.length_cons, not_or]
        constructor
        · rintro ⟨⟨he, hsource, hnew⟩, hwalk, hnodup, havoid, hlen⟩
          exact ⟨⟨he, hsource, hwalk⟩, ⟨fun hv => (havoid _ hv).1 rfl, hnodup⟩,
            ⟨hnew, fun v hv => (havoid v hv).2⟩, by omega⟩
        · rintro ⟨⟨he, hsource, hwalk⟩, ⟨hself, hnodup⟩, ⟨hnew, havoid⟩, hlen⟩
          exact ⟨⟨he, hsource, hnew⟩, hwalk, hnodup,
            fun v hv => ⟨fun heq => hself (heq ▸ hv), havoid v hv⟩, by omega⟩

theorem mem_paths_self {goal a : V} (hfuel : edges.length < fuel) :
    es ∈ paths source target edges goal fuel a [a] ↔
      Walk source target edges a es goal ∧ (a :: es.map target).Nodup := by
  rw [mem_paths (List.mem_singleton_self a), List.nodup_cons]
  constructor
  · rintro ⟨hwalk, hnodup, havoid, -⟩
    exact ⟨hwalk, fun ha => havoid a ha (List.mem_singleton_self a), hnodup⟩
  · rintro ⟨hwalk, ha, hnodup⟩
    refine ⟨hwalk, hnodup, fun v hv hva => ha (List.mem_singleton.mp hva ▸ hv), ?_⟩
    exact lt_of_le_of_lt (length_le_of_nodup hwalk.mem_edges hnodup) hfuel

theorem nodup_paths (hedges : edges.Nodup) (goal : V) (fuel : Nat) (a : V) (visited : List V) :
    (paths source target edges goal fuel a visited).Nodup := by
  induction fuel generalizing a visited with
  | zero => exact List.nodup_nil
  | succ fuel ih =>
    unfold paths
    split
    · exact List.nodup_singleton _
    · refine List.nodup_flatMap.mpr
        ⟨fun e _ => (ih _ _).map List.cons_injective, (hedges.filter _).imp fun hne => ?_⟩
      rintro es he hf
      obtain ⟨es, -, rfl⟩ := List.mem_map.mp he
      obtain ⟨fs, -, heq⟩ := List.mem_map.mp hf
      exact hne (List.cons.inj heq).1.symm

theorem exists_last {α : Type} {p : α → Prop} [DecidablePred p] {l : List α} (h : ∃ x ∈ l, p x) :
    ∃ m x s, l = m ++ x :: s ∧ p x ∧ ∀ y ∈ s, ¬ p y := by
  induction l with
  | nil =>
    obtain ⟨x, hx, -⟩ := h
    cases hx
  | cons a l ih =>
    by_cases hl : ∃ x ∈ l, p x
    · obtain ⟨m, x, s, rfl, hx, hs⟩ := ih hl
      exact ⟨a :: m, x, s, rfl, hx, hs⟩
    · push Not at hl
      obtain ⟨x, hx, hpx⟩ := h
      rcases List.mem_cons.mp hx with rfl | hx
      · exact ⟨[], x, l, rfl, hpx, hl⟩
      · exact absurd hpx (hl x hx)

/-- The only path to a goal enters a vertex by the edge by which any simple path does. -/
theorem eq_of_paths_eq_singleton {a goal c : V} (hfuel : edges.length < fuel)
    {es fs : List E} (hes : paths source target edges goal fuel a [a] = [es])
    (hfs : Walk source target edges a fs c) (hnodup : (a :: fs.map target).Nodup)
    {e f : E} (he : e ∈ es) (hf : f ∈ fs) (heq : target e = target f) : e = f := by
  have hself : Walk source target edges a es goal ∧ (a :: es.map target).Nodup :=
    (mem_paths_self hfuel).mp (hes ▸ List.mem_singleton_self es)
  obtain ⟨ha, hfsnodup⟩ := List.nodup_cons.mp hnodup
  obtain ⟨haes, hesnodup⟩ := List.nodup_cons.mp hself.2
  -- The last edge of the path, from `e` on, that ends on the way of the other path.
  obtain ⟨front, rest, rfl⟩ := List.append_of_mem he
  obtain ⟨m, k, s, hsplit, hk, hs⟩ := exists_last (p := fun x => target x ∈ fs.map target)
    ⟨e, List.mem_cons_self, heq ▸ List.mem_map_of_mem hf⟩
  obtain ⟨j, hj, hjk⟩ := List.mem_map.mp hk
  obtain ⟨c', d, rfl⟩ := List.append_of_mem hj
  have hesplit : front ++ e :: rest = (front ++ m) ++ k :: s := by rw [hsplit, List.append_assoc]
  -- The other path up to there, and then on to the goal.
  have hother : c' ++ j :: s ∈ paths source target edges goal fuel a [a] := by
    have hstart := hfs.split.1
    have hend : Walk source target edges (target k) s goal := by
      rw [hesplit] at hself
      exact hself.1.split.2
    refine (mem_paths_self hfuel).mpr ⟨?_, ?_⟩
    · simpa using hstart.append (hjk ▸ hend)
    · have hleft : ((c' ++ [j]).map target).Nodup :=
        hfsnodup.sublist ((List.Sublist.append_left (by simp) c').map target)
      have hright : (s.map target).Nodup := by
        rw [hesplit] at hesnodup
        exact hesnodup.sublist ((List.sublist_append_of_sublist_right (by simp)).map target)
      have hdisjoint : ∀ x ∈ (c' ++ [j]).map target, ∀ y ∈ s.map target, x ≠ y := by
        rintro x hx y hy rfl
        obtain ⟨z, hz, rfl⟩ := List.mem_map.mp hy
        refine hs z hz (List.map_subset target ?_ hx)
        intro w hw
        rcases List.mem_append.mp hw with hw | hw
        · exact List.mem_append_left _ hw
        · exact List.mem_append_right _ (List.mem_singleton.mp hw ▸ List.mem_cons_self)
      have happend : (c' ++ j :: s).map target = (c' ++ [j]).map target ++ s.map target := by simp
      rw [happend, List.nodup_cons, List.nodup_append]
      refine ⟨?_, hleft, hright, hdisjoint⟩
      rw [List.mem_append]
      rintro (hmem | hmem)
      · exact ha (List.map_subset target (by simp) hmem)
      · refine haes (List.map_subset target ?_ hmem)
        rw [hesplit]
        exact fun z hz => List.mem_append_right _ (List.mem_cons_of_mem _ hz)
  rw [hes, List.mem_singleton] at hother
  have hcancel : c' ++ [j] = front ++ m ++ [k] := by
    rw [hesplit] at hother
    exact List.append_cancel_right (by simpa using hother)
  have hmem : e ∈ c' ++ [j] := by
    rw [hcancel, List.append_assoc]
    refine List.mem_append_right _ ?_
    cases m with
    | nil =>
      rw [(List.cons.inj hsplit).1]
      exact List.mem_singleton_self k
    | cons x m =>
      rw [(List.cons.inj hsplit).1]
      exact List.mem_cons_self
  have hin : e ∈ c' ++ j :: d := by
    rcases List.mem_append.mp hmem with hmem | hmem
    · exact List.mem_append_left _ hmem
    · exact List.mem_append_right _ (List.mem_singleton.mp hmem ▸ List.mem_cons_self)
  exact List.inj_on_of_nodup_map hfsnodup hin hf heq

end Paths

/-! ## Trees -/

section Trees

variable {V E : Type} (source target : E → V)

/-- Every edge starts at a vertex that is there before it. -/
def Rooted : List V → List E → Prop
  | _, [] => True
  | seen, e :: es => source e ∈ seen ∧ Rooted (target e :: seen) es

/-- The edges, in their order, make a tree: each starts at a vertex that is there and ends
at a new one. -/
structure Tree (root : V) (es : List E) : Prop where
  rooted : Rooted source target [root] es
  nodup : (root :: es.map target).Nodup

variable {source target}

theorem rooted_append {seen : List V} {es fs : List E} : Rooted source target seen (es ++ fs) ↔
      Rooted source target seen es ∧ Rooted source target ((es.map target).reverse ++ seen) fs := by
  induction es generalizing seen with
  | nil => simp [Rooted]
  | cons e es ih => simp [Rooted, ih, and_assoc]

variable {κ : Type} [DecidableEq κ] {key : E → κ} {edges : List E}

theorem Rooted.addAllNew (hkey : ∀ e ∈ edges, ∀ f ∈ edges, key e = key f → e = f) {root : V}
    {es fs : List E} (hes : ∀ e ∈ es, e ∈ edges) (h : Rooted source target [root] es) {a b : V}
    (ha : a ∈ root :: es.map target) (hfs : Walk source target edges a fs b) :
    Rooted source target [root] (addAllNew key es fs) := by
  induction fs generalizing es a with
  | nil => exact h
  | cons f fs ih =>
    obtain ⟨hf, hsource, hrest⟩ := hfs
    rw [Foundation.addAllNew, List.foldl_cons]
    unfold addNew
    split
    · next hold =>
      obtain ⟨e, he, hef⟩ := List.mem_map.mp hold
      have hfe : f ∈ es := hkey e (hes e he) f hf hef ▸ he
      exact ih hes h (List.mem_cons_of_mem _ (List.mem_map_of_mem hfe)) hrest
    · refine ih (fun e he => ?_) (rooted_append.mpr ⟨h, ?_, trivial⟩) (by simp) hrest
      · rcases List.mem_append.mp he with he | he
        · exact hes e he
        · exact List.mem_singleton.mp he ▸ hf
      · rw [hsource]
        simpa [or_comm] using ha

end Trees

end Windrose.Foundation

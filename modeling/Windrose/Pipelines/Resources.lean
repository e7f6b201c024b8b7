/-
  Pipelines/Resources.lean --- the order of a pipeline's nodes and what they inherit.

  Source: services/pipeline-orchestrator/app/domain/resources.py (topo_order,
  resolve_resources).

  The invariant of `topo_order` counts, for each node, the edges from nodes that are not yet in
  the order.
-/
import Windrose.Pipelines.Dag
import Mathlib.Algebra.Order.Field.Rat
import Mathlib.Order.WellFoundedSet

set_option autoImplicit false

namespace Windrose.Pipelines.Dag

open Relation

variable {A : Type} [DecidableEq A] {edges : List (A × A)} {nodes : List A} {v : A} {limit : Nat}

/-! ## The order -/

/-- The state of `topo_order`. -/
structure Kahn (A : Type) where
  indeg : A → Nat
  queue : List A
  order : List A

/-- One turn of the inner loop. -/
def Kahn.arrive (s : Kahn A) (nxt : A) : Kahn A where
  indeg := Function.update s.indeg nxt (s.indeg nxt - 1)
  queue := if s.indeg nxt - 1 = 0 then s.queue ++ [nxt] else s.queue
  order := s.order

variable (edges) in
/-- The outer loop, for a number of turns. -/
def kahn : Nat → Kahn A → List A
  | 0, s => s.order
  | n + 1, s =>
    match s.queue with
    | [] => s.order
    | node :: queue =>
      kahn n ((adj edges node).foldl Kahn.arrive ⟨s.indeg, queue, s.order ++ [node]⟩)

variable (edges nodes) in
/-- `topo_order`. -/
def topoOrder : List A :=
  let edges := edges.filter fun e => e.1 ∈ nodes ∧ e.2 ∈ nodes
  let indeg (a : A) : Nat := edges.countP (·.2 = a)
  let order := kahn edges nodes.length ⟨indeg, nodes.filter (indeg · = 0), []⟩
  order ++ nodes.filter (· ∉ order)

/-- The degrees count the edges from nodes that are not in the order, and those of `rest`,
whose turn is to come. -/
structure Kahn.Inv (edges : List (A × A)) (nodes : List A) (rest : List A) (s : Kahn A) : Prop where
  indeg : ∀ b, s.indeg b = edges.countP (fun e => e.2 = b ∧ e.1 ∉ s.order) + rest.count b
  ready : ∀ b, b ∈ s.order ∨ b ∈ s.queue ↔ b ∈ nodes ∧ s.indeg b = 0
  nodup : (s.order ++ s.queue).Nodup
  forward : ∀ e ∈ edges, e.2 ∈ s.order → s.order.idxOf e.1 < s.order.idxOf e.2

section Kahn

variable {s : Kahn A} {rest queue : List A}

theorem Kahn.Inv.arrive (h : s.Inv edges nodes (v :: rest)) (hv : v ∈ nodes) :
    (s.arrive v).Inv edges nodes rest := by
  have hdeg : s.indeg v - 1 + 1 = s.indeg v := by
    have heq := h.indeg v
    rw [List.count_cons_self] at heq
    omega
  have hnot : ¬ (v ∈ s.order ∨ v ∈ s.queue) := fun hmem => by
    have hzero := ((h.ready v).mp hmem).2
    omega
  refine ⟨fun b => ?_, fun b => ?_, ?_, h.forward⟩
  · change Function.update s.indeg v (s.indeg v - 1) b = edges.countP _ + _
    have heq := h.indeg b
    by_cases hne : b = v
    · subst hne
      rw [List.count_cons_self] at heq
      rw [Function.update_self, heq]
      rfl
    · rw [List.count_cons_of_ne (Ne.symm hne)] at heq
      rwa [Function.update_of_ne hne]
  · change b ∈ s.order ∨ b ∈ (if s.indeg v - 1 = 0 then s.queue ++ [v] else s.queue) ↔
      b ∈ nodes ∧ Function.update s.indeg v (s.indeg v - 1) b = 0
    by_cases hne : b = v
    · subst hne
      rw [Function.update_self]
      split
      · next hzero => exact iff_of_true (.inr (by simp)) ⟨hv, hzero⟩
      · next hpos => exact iff_of_false hnot fun hboth => hpos hboth.2
    · rw [Function.update_of_ne hne, ← h.ready]
      split
      · simp [hne]
      · rfl
  · change (s.order ++ if s.indeg v - 1 = 0 then s.queue ++ [v] else s.queue).Nodup
    split
    · rw [← List.append_assoc]
      refine List.nodup_append_comm.mp (List.nodup_cons.mpr ⟨fun hmem => ?_, h.nodup⟩)
      exact hnot (List.mem_append.mp hmem)
    · exact h.nodup

theorem Kahn.Inv.arriveAll (h : s.Inv edges nodes rest) (hrest : ∀ b ∈ rest, b ∈ nodes) :
    (rest.foldl Kahn.arrive s).Inv edges nodes [] ∧ (rest.foldl Kahn.arrive s).order = s.order := by
  induction rest generalizing s with
  | nil => exact ⟨h, rfl⟩
  | cons v rest ih =>
    obtain ⟨hv, hrest⟩ := List.forall_mem_cons.mp hrest
    exact ih (h.arrive hv) hrest

theorem countP_order {order : List A} (hv : v ∉ order) (b : A) :
    edges.countP (fun e => e.2 = b ∧ e.1 ∉ order) =
      edges.countP (fun e => e.2 = b ∧ e.1 ∉ order ++ [v]) + (adj edges v).count b := by
  induction edges with
  | nil => rfl
  | cons e edges ih =>
    have hadj : (adj (e :: edges) v).count b =
        (adj edges v).count b + if e.1 = v ∧ e.2 = b then 1 else 0 := by
      by_cases he : e.1 = v
      · simp [adj, he, List.count_cons]
      · simp [adj, he]
    rw [List.countP_cons, List.countP_cons, ih, hadj]
    by_cases he : e.1 = v
    · simp [he, hv]
      omega
    · simp [he]
      omega

theorem Kahn.Inv.pop (h : s.Inv edges nodes []) (hqueue : s.queue = v :: queue) :
    Kahn.Inv edges nodes (adj edges v) ⟨s.indeg, queue, s.order ++ [v]⟩ := by
  have hnodup := h.nodup
  rw [hqueue, List.append_cons] at hnodup
  have hnot : v ∉ s.order := fun hmem =>
    List.disjoint_of_nodup_append (List.nodup_append.mp hnodup).1 hmem (List.mem_singleton_self v)
  refine ⟨fun b => ?_, fun b => ?_, hnodup, fun e he hmem => ?_⟩
  · exact (h.indeg b).trans (countP_order hnot b)
  · rw [← h.ready, hqueue, List.mem_append, List.mem_singleton, List.mem_cons, or_assoc]
  · change (s.order ++ [v]).idxOf e.1 < (s.order ++ [v]).idxOf e.2
    have hlt (hfirst : e.1 ∈ s.order) : (s.order ++ [v]).idxOf e.1 < s.order.length :=
      (List.idxOf_append_of_mem hfirst).trans_lt (List.idxOf_lt_length_of_mem hfirst)
    rcases List.mem_append.mp hmem with hold | hnew
    · have hforward := h.forward e he hold
      have hfirst : e.1 ∈ s.order :=
        List.idxOf_lt_length_iff.mp (hforward.trans (List.idxOf_lt_length_of_mem hold))
      rwa [List.idxOf_append_of_mem hold, List.idxOf_append_of_mem hfirst]
    · have heq := List.mem_singleton.mp hnew
      have hzero := ((h.ready v).mp (.inr (hqueue ▸ List.mem_cons_self))).2
      rw [h.indeg, List.count_nil, Nat.add_zero, List.countP_eq_zero] at hzero
      have hfirst : e.1 ∈ s.order := by
        by_contra hnone
        exact hzero e he (decide_eq_true ⟨heq, hnone⟩)
      rw [heq, List.idxOf_append_of_notMem hnot, List.idxOf_cons_self, Nat.add_zero]
      exact hlt hfirst

variable (hedges : ∀ e ∈ edges, e.1 ∈ nodes ∧ e.2 ∈ nodes)
include hedges

theorem kahn_done {n : Nat} (h : s.Inv edges nodes []) (hn : nodes.length ≤ n + s.order.length) :
    ∃ t : Kahn A, t.Inv edges nodes [] ∧ t.queue = [] ∧ kahn edges n s = t.order := by
  induction n generalizing s with
  | zero =>
    have hle := (h.nodup.subperm fun b hb => ((h.ready b).mp (List.mem_append.mp hb)).1).length_le
    rw [List.length_append] at hle
    exact ⟨s, h, List.eq_nil_of_length_eq_zero (by omega), rfl⟩
  | succ n ih =>
    rw [kahn]
    split
    · next hqueue => exact ⟨s, h, hqueue, rfl⟩
    · next v queue hqueue =>
      obtain ⟨hinv, horder⟩ := (h.pop hqueue).arriveAll fun b hb => (hedges _ (mem_adj.mp hb)).2
      refine ih hinv ?_
      rw [horder, List.length_append, List.length_singleton]
      omega

theorem Kahn.Inv.complete (hacyclic : Acyclic edges) (h : s.Inv edges nodes [])
    (hqueue : s.queue = []) (hv : v ∈ nodes) : v ∈ s.order := by
  have : IsStrictOrder A (TransGen (Edge edges)) :=
    { irrefl := hacyclic, trans := fun _ _ _ => TransGen.trans }
  have hwf := nodes.finite_toSet.wellFoundedOn (r := TransGen (Edge edges))
  refine hwf.induction hv fun b hb ih => ?_
  have hzero : s.indeg b = 0 := by
    rw [h.indeg, List.count_nil, Nat.add_zero, List.countP_eq_zero]
    rintro ⟨a, c⟩ he hdec
    obtain ⟨rfl, hnot⟩ := of_decide_eq_true hdec
    exact hnot (ih a (hedges _ he).1 (.single he))
  refine ((h.ready b).mpr ⟨hb, hzero⟩).resolve_right ?_
  rw [hqueue]
  exact List.not_mem_nil

theorem topoOrder_sound (hnodes : nodes.Nodup) (hacyclic : Acyclic edges) :
    (topoOrder edges nodes).Perm nodes ∧
      ∀ e ∈ edges, (topoOrder edges nodes).idxOf e.1 < (topoOrder edges nodes).idxOf e.2 := by
  have hfilter : (edges.filter fun e => e.1 ∈ nodes ∧ e.2 ∈ nodes) = edges :=
    List.filter_eq_self.mpr fun e he => decide_eq_true (hedges e he)
  have hstart : Kahn.Inv edges nodes []
      ⟨fun a => edges.countP (·.2 = a), nodes.filter fun a => edges.countP (·.2 = a) = 0, []⟩ :=
    ⟨fun b => by simp, fun b => by simp, hnodes.filter _, fun _ _ hmem => nomatch hmem⟩
  obtain ⟨t, ht, hqueue, heq⟩ := kahn_done hedges hstart (Nat.le_add_right ..)
  have hmem (b : A) : b ∈ t.order ↔ b ∈ nodes :=
    ⟨fun hb => ((ht.ready b).mp (.inl hb)).1, ht.complete hedges hacyclic hqueue⟩
  have horder : topoOrder edges nodes = t.order := by
    unfold topoOrder
    dsimp only
    rw [hfilter, heq, List.filter_eq_nil_iff.mpr, List.append_nil]
    exact fun b hb hnot => of_decide_eq_true hnot ((hmem b).mpr hb)
  have hnodup := ht.nodup
  rw [hqueue, List.append_nil] at hnodup
  rw [horder]
  refine ⟨(List.perm_ext_iff_of_nodup hnodup hnodes).mpr hmem, fun e he => ?_⟩
  exact ht.forward e he ((hmem _).mpr (hedges e he).2)

end Kahn

/-! ## Resources -/

/-- The resources of a node. -/
inductive Resource where
  | cpus
  | ramGb
  | timeoutMinutes
  deriving DecidableEq

/-- An amount of each resource. -/
abbrev Resources : Type := Resource → ℚ

/-- `DEFAULTS`. -/
def defaults : Resources
  | .cpus => 1
  | .ramGb => 2
  | .timeoutMinutes => 30

/-- `FLOOR`. -/
def floor : Resources
  | .cpus => 1
  | .ramGb => 2
  | .timeoutMinutes => 5

/-- `PLATFORM_CEILING`. -/
def platformCeiling : Resources
  | .cpus => 7
  | .ramGb => 24
  | .timeoutMinutes => 480

/-- The ceiling of a tenant, which need not name every resource. -/
def effCeiling (ceiling : Resource → Option ℚ) : Resources := fun k =>
  min ((ceiling k).getD (platformCeiling k)) (platformCeiling k)

def clamp (ceiling : Resource → Option ℚ) (res : Resources) : Resources := fun k =>
  max (floor k) (min (res k) (effCeiling ceiling k))

/-- The maximum over the predecessors that have values, `default` when none has. -/
def inherited (preds : List A) (effective : A → Option Resources) : Resources := fun k =>
  ((preds.filterMap effective).map (· k)).max?.getD (defaults k)

section Resources

variable (edges : List (A × A)) (explicit : A → Option (Resource → Option ℚ))
  (ceiling : Resource → Option ℚ)

def preds (b : A) : List A := (edges.filter (·.2 = b)).map (·.1)

/-- The values of a node before they are clamped. -/
def own (effective : A → Option Resources) (node : A) : Resources :=
  match explicit node with
  | some given => fun k => (given k).getD (defaults k)
  | none =>
    if preds edges node ≠ [] then inherited (preds edges node) effective
    else defaults

/-- One turn of the loop of `resolve_resources`. -/
def resolve (effective : A → Option Resources) (node : A) : A → Option Resources :=
  Function.update effective node (some (clamp ceiling (own edges explicit effective node)))

/-- `resolve_resources`, of nodes with explicit values or without. -/
def resolveResources (nodes : List A) : A → Option Resources :=
  (topoOrder edges nodes).foldl (resolve edges explicit ceiling) fun _ => none

variable {edges explicit ceiling} {effective : A → Option Resources}

theorem foldl_resolve_of_not_mem {l : List A} (hv : v ∉ l) :
    l.foldl (resolve edges explicit ceiling) effective v = effective v := by
  induction l generalizing effective with
  | nil => rfl
  | cons a l ih =>
    rw [List.foldl_cons, ih (List.not_mem_of_not_mem_cons hv), resolve,
      Function.update_of_ne (List.ne_of_not_mem_cons hv)]

/-- Every node has its value, an implicit one from its direct predecessors. -/
theorem resolveResources_eq (hnodes : nodes.Nodup)
    (hedges : ∀ e ∈ edges, e.1 ∈ nodes ∧ e.2 ∈ nodes) (hacyclic : Acyclic edges) (hv : v ∈ nodes) :
    ∃ res, resolveResources edges explicit ceiling nodes v = some (clamp ceiling res) ∧
      (explicit v = none →
        res = inherited (preds edges v) (resolveResources edges explicit ceiling nodes)) := by
  obtain ⟨hperm, hforward⟩ := topoOrder_sound hedges hnodes hacyclic
  have hnodup := hperm.nodup_iff.mpr hnodes
  obtain ⟨l, r, hsplit⟩ := List.append_of_mem (hperm.mem_iff.mpr hv)
  rw [hsplit, List.nodup_append, List.nodup_cons] at hnodup
  obtain ⟨-, ⟨hr, -⟩, hdisjoint⟩ := hnodup
  have hl : v ∉ l := fun hmem => hdisjoint v hmem v List.mem_cons_self rfl
  have hbefore : ∀ a ∈ preds edges v, resolveResources edges explicit ceiling nodes a =
      l.foldl (resolve edges explicit ceiling) (fun _ => none) a := by
    intro a ha
    obtain ⟨e, he, rfl⟩ := List.mem_map.mp ha
    obtain ⟨he, htarget⟩ := List.mem_filter.mp he
    have hlt := hforward e he
    rw [of_decide_eq_true htarget, hsplit, List.idxOf_append_of_notMem hl, List.idxOf_cons_self,
      Nat.add_zero] at hlt
    have hmem : e.1 ∈ l := by
      by_contra hnot
      rw [List.idxOf_append_of_notMem hnot] at hlt
      omega
    rw [resolveResources, hsplit, List.foldl_append]
    exact foldl_resolve_of_not_mem fun hmem' => hdisjoint _ hmem _ hmem' rfl
  refine ⟨own edges explicit (l.foldl (resolve edges explicit ceiling) fun _ => none) v, ?_,
    fun hnone => ?_⟩
  · rw [resolveResources, hsplit, List.foldl_append, List.foldl_cons, foldl_resolve_of_not_mem hr,
      resolve, Function.update_self]
  · have hsame : inherited (preds edges v) (resolveResources edges explicit ceiling nodes) =
        inherited (preds edges v) (l.foldl (resolve edges explicit ceiling) fun _ => none) := by
      funext k
      rw [inherited, inherited, List.filterMap_congr hbefore]
    rw [hsame, own, hnone]
    dsimp only
    split
    · rfl
    · next hnil =>
      rw [not_ne_iff.mp hnil]
      rfl

end Resources

variable (edges nodes limit) in
/-- What the validator asks of its algorithms: the search returns no cycle exactly when there is
none and else a cycle; without one the order is an order of all nodes along which every edge
goes forward, and the resources stay between their bounds and are inherited. -/
structure AlgorithmsSound : Prop where
  acyclic : findCycle edges limit nodes = .ok none ↔ Acyclic edges
  cycle : ¬ Acyclic edges → ∃ c, findCycle edges limit nodes = .ok (some c) ∧ IsCycle edges c
  order : Acyclic edges → (topoOrder edges nodes).Perm nodes ∧
    ∀ e ∈ edges, (topoOrder edges nodes).idxOf e.1 < (topoOrder edges nodes).idxOf e.2
  resources : Acyclic edges → ∀ explicit ceiling, (∀ k, floor k ≤ effCeiling ceiling k) →
    ∀ v ∈ nodes, ∃ res, resolveResources edges explicit ceiling nodes v = some res ∧
      (∀ k, floor k ≤ res k ∧ res k ≤ effCeiling ceiling k) ∧
      (explicit v = none → res = clamp ceiling
        (inherited (preds edges v) (resolveResources edges explicit ceiling nodes)))

/-- The algorithms are right for the edges over a set of nodes, unless the search comes on a
walk that is too deep for the interpreter's stack. -/
theorem algorithms_sound (hnodes : nodes.Nodup) (hedges : ∀ e ∈ edges, e.1 ∈ nodes ∧ e.2 ∈ nodes) :
    AlgorithmsSound edges nodes limit ↔ ∀ w, ¬ TooDeep edges nodes limit w := by
  have hsound := findCycle_sound limit hedges
  constructor
  · intro h w hw
    by_cases hacyclic : Acyclic edges
    · rw [h.acyclic.mpr hacyclic] at hsound
      exact hsound.2 w hw
    · obtain ⟨c, heq, -⟩ := h.cycle hacyclic
      rw [heq] at hsound
      exact hsound.2 w hw
  · intro h
    refine ⟨?_, ?_, topoOrder_sound hedges hnodes, fun hacyclic explicit ceiling hfloor v hv => ?_⟩
    · match hfind : findCycle edges limit nodes with
      | .ok none =>
        rw [hfind] at hsound
        exact iff_of_true rfl hsound.1
      | .ok (some c) =>
        rw [hfind] at hsound
        exact iff_of_false nofun hsound.1.not_acyclic
      | .error e =>
        rw [hfind] at hsound
        exact absurd hsound.choose_spec (h _)
    · intro hcyclic
      match hfind : findCycle edges limit nodes with
      | .ok none =>
        rw [hfind] at hsound
        exact absurd hsound.1 hcyclic
      | .ok (some c) =>
        rw [hfind] at hsound
        exact ⟨c, rfl, hsound.1⟩
      | .error e =>
        rw [hfind] at hsound
        exact absurd hsound.choose_spec (h _)
    · obtain ⟨res, heq, himplicit⟩ := resolveResources_eq hnodes hedges hacyclic hv
      refine ⟨_, heq, fun k => ⟨le_max_left _ _, max_le (hfloor k) (min_le_right _ _)⟩, fun h => ?_⟩
      rw [himplicit h]

/-- A diamond, whose last node inherits the larger resources of its predecessors. -/
theorem algorithms_sound_small :
    let edges := [(0, 1), (0, 2), (1, 3), (2, 3)]
    let nodes := [3, 1, 0, 2]
    let explicit (v : Nat) : Option (Resource → Option ℚ) :=
      if v = 1 then some fun | .cpus => some 4 | _ => none else none
    AlgorithmsSound edges nodes 1000 ∧ topoOrder edges nodes = [0, 1, 2, 3] ∧
      (resolveResources edges explicit (fun _ => none) nodes 3).map (· .cpus) = some 4 :=
  ⟨(algorithms_sound (by decide) (by decide)).mpr
      fun _ => not_tooDeep_of_length_le (by decide) (by decide),
    by decide, by decide⟩

/-- A pipeline of 1001 nodes in a row has no cycle, and the search for one raises. -/
theorem chain_raises :
    (List.range (1000 + 1)).Nodup ∧
      (∀ e ∈ chain 1000, e.1 ∈ List.range (1000 + 1) ∧ e.2 ∈ List.range (1000 + 1)) ∧
      findCycle (chain 1000) 1000 (List.range (1000 + 1)) = .error ⟨⟩ ∧
      ¬ AlgorithmsSound (chain 1000) (List.range (1000 + 1)) 1000 := by
  refine ⟨List.nodup_range, chain_edges 1000, findCycle_chain 1000, fun h => ?_⟩
  have hnone := h.acyclic.mpr (chain_acyclic 1000)
  rw [findCycle_chain 1000] at hnone
  cases hnone

end Windrose.Pipelines.Dag

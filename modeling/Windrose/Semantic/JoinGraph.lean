/-
  Semantic/JoinGraph.lean --- the join graph of a definition.

  Source: services/semantic-service/app/domain/definition.py (validate_definition, the
  union-find), services/semantic-service/app/compiler/compiler.py (_paths_between,
  _resolve_joins).

  The loop of `validate_definition` keeps a forest whose classes are the components of the
  edges so far; parallel join paths are one edge of the graph.
-/
import Windrose.Semantic.Fanout
import Windrose.Foundation.Forests

set_option autoImplicit false

namespace Windrose.Semantic

open Windrose.Foundation

theorem Name.le_iff {m n : Name} : m.le n = true ↔ m.text ≤ n.text := by
  rw [Name.le, Bool.not_eq_true', decide_eq_false_iff_not, not_lt]

/-! ## The loop over the edges -/

/-- The root that `find` returns represents the name; the forest keeps its meaning. -/
theorem findRoot_spec {rep : Name → Name} {depth : Name → Nat} {fuel : Nat}
    {parent : List (Name × Name)} {x : Name} (h : Forest parent rep depth) (hx : depth x < fuel) :
    ∃ parent', findRoot fuel parent x = (parent', rep x) ∧ Forest parent' rep depth := by
  induction fuel generalizing parent x with
  | zero => exact absurd hx (Nat.not_lt_zero _)
  | succ fuel ih =>
    unfold findRoot
    cases hp : parent.lookup x with
    | none => exact ⟨parent, by rw [(h.root hp).1], h⟩
    | some p =>
      have hne : p ≠ x := by
        rintro rfl
        exact lt_irrefl _ (h.step hp).2
      obtain ⟨hrep, hdepth⟩ := h.grand hp
      obtain ⟨parent', hfind, hforest⟩ := ih (h.halve hp) (hdepth.trans_le (Nat.le_of_lt_succ hx))
      exact ⟨parent', by simpa [hne, setParent, hrep] using hfind, hforest⟩

/-- The edges of a list, without direction. -/
def edgeSet (edges : List (Name × Name)) : Set (Sym2 Name) := {e | ∃ p ∈ edges, s(p.1, p.2) = e}

theorem edgeSet_cons (p : Name × Name) (edges : List (Name × Name)) :
    edgeSet (p :: edges) = {s(p.1, p.2)} ∪ edgeSet edges := by
  ext e
  simp [edgeSet, eq_comm]

/-- The loop finds a cycle exactly when an edge is a loop or the graph of all edges, those
before and those to come, is no forest. -/
theorem edgesLoop_eq_nil_iff {rep : Name → Name} {depth : Name → Nat} {parent : List (Name × Name)}
    (h : Forest parent rep depth) {G : SimpleGraph Name} (hG : G.IsAcyclic)
    (hrep : ∀ x y, rep x = rep y ↔ G.Reachable x y) {edges : List (Name × Name)}
    (hdistinct : edges.Pairwise fun p q => s(p.1, p.2) ≠ s(q.1, q.2))
    (hnew : ∀ p ∈ edges, ¬G.Adj p.1 p.2) : edgesLoop parent edges = [] ↔
      (∀ p ∈ edges, p.1 ≠ p.2) ∧ (G ⊔ SimpleGraph.fromEdgeSet (edgeSet edges)).IsAcyclic := by
  induction edges generalizing parent rep depth G with
  | nil => simpa [edgesLoop, edgeSet] using hG
  | cons p edges ih =>
    obtain ⟨a, b⟩ := p
    obtain ⟨hhead, hdistinct⟩ := List.pairwise_cons.mp hdistinct
    obtain ⟨hab, hnew⟩ := List.forall_mem_cons.mp hnew
    obtain ⟨parent₁, hfind₁, h₁⟩ := findRoot_spec h (Nat.lt_succ_of_le (h.depth_le_length a))
    obtain ⟨parent₂, hfind₂, h₂⟩ := findRoot_spec h₁ (Nat.lt_succ_of_le (h₁.depth_le_length b))
    have hsplit : G ⊔ SimpleGraph.fromEdgeSet (edgeSet ((a, b) :: edges)) =
        G ⊔ SimpleGraph.fromEdgeSet {s(a, b)} ⊔ SimpleGraph.fromEdgeSet (edgeSet edges) := by
      rw [edgeSet_cons, SimpleGraph.fromEdgeSet_union, sup_assoc]
    simp only [edgesLoop, hfind₁, hfind₂]
    rw [hsplit, List.forall_mem_cons]
    by_cases hroots : rep a = rep b
    · -- The edge closes a cycle, unless it is a loop.
      rw [if_pos hroots]
      refine iff_of_false (List.cons_ne_nil _ _) ?_
      rintro ⟨⟨hne, -⟩, hacyclic⟩
      have hone := SimpleGraph.isAcyclic_sup_fromEdgeSet_iff.mp (hacyclic.anti le_sup_left)
      rcases hone.2 ((hrep a b).mp hroots) with heq | hadj
      · exact hne heq
      · exact hab hadj
    · have hne : a ≠ b := fun heq => hroots (heq ▸ rfl)
      have hunreachable : ¬G.Reachable a b := fun hr => hroots ((hrep a b).mpr hr)
      rw [if_neg hroots]
      refine (ih (h₂.link (h₂.lookup_rep a) (h₂.lookup_rep b) hroots) ?_
        (rep_link_iff hrep hne) hdistinct ?_).trans ?_
      · exact SimpleGraph.isAcyclic_sup_fromEdgeSet_iff.mpr
          ⟨hG, fun hr => absurd hr hunreachable⟩
      · intro q hq hadj
        rw [SimpleGraph.sup_adj, SimpleGraph.fromEdgeSet_adj] at hadj
        rcases hadj with hadj | hadj
        · exact hnew q hq hadj
        · exact hhead q hq hadj.1.symm
      · simp [hne]

/-! ## Forbidden cycles -/

section Graph

variable (defn : Definition)

/-- The join path joins declared entities. -/
def Joins (jp : JoinPath) : Prop :=
  jp ∈ defn.joinPaths ∧ (defn.entity? jp.fromEntity).isSome = true ∧
    (defn.entity? jp.toEntity).isSome = true

/-- The join graph: parallel join paths are one edge. -/
def joinGraph : SimpleGraph Name :=
  SimpleGraph.fromEdgeSet {e | ∃ jp, Joins defn jp ∧ s(jp.fromEntity, jp.toEntity) = e}

/-- A cycle that a definition may not have: a join path from an entity to itself, or a
cycle of join paths between different pairs of entities. -/
def ForbiddenCycle : Prop :=
  (∃ jp, Joins defn jp ∧ jp.fromEntity = jp.toEntity) ∨ ¬(joinGraph defn).IsAcyclic

variable {defn}

theorem edgeSet_joinEdges :
    edgeSet (joinEdges defn) = {e | ∃ jp, Joins defn jp ∧ s(jp.fromEntity, jp.toEntity) = e} := by
  have hundirected : ∀ a b, s((undirected a b).1, (undirected a b).2) = s(a, b) := by
    intro a b
    unfold undirected
    split
    · rfl
    · exact Sym2.eq_swap
  ext e
  simp only [edgeSet, joinEdges, List.mem_insertionSort, List.mem_dedup, List.mem_map,
    List.mem_filter, decide_eq_true_eq, Set.mem_ofPred_eq]
  constructor
  · rintro ⟨_, ⟨jp, hjp, rfl⟩, rfl⟩
    exact ⟨jp, hjp, (hundirected _ _).symm⟩
  · rintro ⟨jp, hjp, rfl⟩
    exact ⟨_, ⟨jp, hjp, rfl⟩, hundirected _ _⟩

theorem joinEdges_distinct : (joinEdges defn).Pairwise fun p q => s(p.1, p.2) ≠ s(q.1, q.2) := by
  have hle : ∀ p ∈ joinEdges defn, p.1.le p.2 = true := by
    intro p hp
    simp only [joinEdges, List.mem_insertionSort, List.mem_dedup, List.mem_map] at hp
    obtain ⟨jp, -, rfl⟩ := hp
    unfold undirected
    split
    · assumption
    · next hlt =>
      rw [Name.le_iff, not_le] at hlt
      exact Name.le_iff.mpr hlt.le
  have hnodup : (joinEdges defn).Nodup :=
    (List.perm_insertionSort _ _).nodup_iff.mpr (List.nodup_dedup _)
  refine hnodup.imp_of_mem fun {p q} hp hq hne heq => hne ?_
  rcases Sym2.eq_iff.mp heq with ⟨hfst, hsnd⟩ | ⟨hfst, hsnd⟩
  · exact Prod.ext hfst hsnd
  · have hpq := hle p hp
    have hqp := hle q hq
    rw [hfst, hsnd] at hpq
    have hsame : q.1 = q.2 := Name.ext
      (le_antisymm (Name.le_iff.mp hqp) (Name.le_iff.mp hpq))
    exact Prod.ext (hfst.trans hsame.symm) (hsnd.trans hsame)

/-- The cycle check reports no error exactly when the definition has no forbidden cycle. -/
theorem cycle_check_iff : edgesLoop [] (joinEdges defn) = [] ↔ ¬ForbiddenCycle defn := by
  rw [edgesLoop_eq_nil_iff Forest.nil SimpleGraph.isAcyclic_bot
    (fun x y => SimpleGraph.reachable_bot.symm) joinEdges_distinct (fun _ _ => id), bot_sup_eq,
    edgeSet_joinEdges]
  unfold ForbiddenCycle
  rw [not_or, not_not]
  refine and_congr_left fun _ => ?_
  have hloops : (∀ p ∈ joinEdges defn, p.1 ≠ p.2) ↔ ∀ e ∈ edgeSet (joinEdges defn), ¬e.IsDiag := by
    constructor
    · rintro hne e ⟨p, hp, rfl⟩
      exact hne p hp
    · exact fun h p hp => h _ ⟨p, hp, rfl⟩
  rw [hloops, edgeSet_joinEdges]
  constructor
  · rintro hdiag ⟨jp, hjp, heq⟩
    exact hdiag _ ⟨jp, hjp, rfl⟩ heq
  · rintro hloop e ⟨jp, hjp, rfl⟩ heq
    exact hloop ⟨jp, hjp, heq⟩

/-- No two join paths join the same pair of entities. -/
def NoParallel (defn : Definition) : Prop :=
  ∀ jp ∈ defn.joinPaths, ∀ jp' ∈ defn.joinPaths,
    s(jp.fromEntity, jp.toEntity) = s(jp'.fromEntity, jp'.toEntity) → jp = jp'

theorem Validated.joinGraph {datasetLookup : String → Option Dataset}
    (h : Validated defn datasetLookup) :
    (∀ jp ∈ defn.joinPaths, Joins defn jp) ∧ ¬ForbiddenCycle defn := by
  simp only [Validated, validateDefinition, List.append_eq_nil_iff] at h
  obtain ⟨⟨-, hpaths⟩, hedges⟩ := h
  refine ⟨fun jp hjp => ⟨hjp, ?_⟩, cycle_check_iff.mp hedges⟩
  have hown := (List.append_eq_nil_iff.mp (List.flatMap_eq_nil_iff.mp hpaths jp hjp)).1
  simpa [Option.isSome_iff_ne_none] using hown

end Graph

/-! ## One path at most -/

theorem exists_of_foldlM_error {ε α β : Type} {f : β → α → Except ε β} {l : List α} {b : β} {e : ε}
    (h : l.foldlM f b = .error e) : ∃ a ∈ l, ∃ b, f b a = .error e := by
  induction l generalizing b with
  | nil => cases h
  | cons a l ih =>
    rw [List.foldlM_cons] at h
    cases hf : f b a with
    | error e' =>
      rw [hf] at h
      cases h
      exact ⟨a, List.mem_cons_self, b, hf⟩
    | ok c =>
      rw [hf] at h
      obtain ⟨a', ha', b', hb'⟩ := ih h
      exact ⟨a', List.mem_cons_of_mem _ ha', b', hb'⟩

namespace Compiler

variable {C : Compiler} {datasetLookup : String → Option Dataset} {pinned : List Name}

theorem nodup_search (fuel : Nat) (source target : Name) :
    (paths JoinPath.fromEntity JoinPath.toEntity (C.edges pinned) target fuel source
      [source]).Nodup :=
  nodup_paths ((List.Nodup.of_map _ C.defn.joinPaths_nodup).filter _) target fuel source [source]

/-- In a validated definition without parallel join paths the search finds one path at most. -/
theorem length_pathsBetween_le (h : Validated C.defn datasetLookup)
    (hparallel : NoParallel C.defn) (source target : Name) :
    (C.pathsBetween source target pinned).length ≤ 1 := by
  obtain ⟨hjoins, hforest⟩ := h.joinGraph
  refine length_le_one_of_nodup (nodup_search _ source target) fun es hes fs hfs => ?_
  obtain ⟨hes, hesn⟩ := walk_of_pathsBetween hes
  obtain ⟨hfs, hfsn⟩ := walk_of_pathsBetween hfs
  refine Walk.eq_of_isAcyclic (not_not.mp (not_or.mp hforest).2) (fun jp hjp hne => ?_)
    (fun jp hjp jp' hjp' => hparallel jp (mem_edges hjp) jp' (mem_edges hjp')) hes hesn hfs hfsn
  rw [joinGraph, SimpleGraph.fromEdgeSet_adj]
  exact ⟨⟨jp, hjoins jp (mem_edges hjp), rfl⟩, hne⟩

theorem perm_pathsBetween {fuel : Nat} (hfuel : C.defn.joinPaths.length < fuel)
    (source target : Name) :
    (paths JoinPath.fromEntity JoinPath.toEntity (C.edges pinned) target fuel source [source]).Perm
      (C.pathsBetween source target pinned) := by
  refine (List.perm_ext_iff_of_nodup (nodup_search _ _ _) (nodup_search _ _ _)).mpr fun es => ?_
  exact (mem_paths_self ((List.length_filter_le _ _).trans_lt hfuel)).trans
    (mem_paths_self (C.edges_length pinned)).symm

theorem pathsBetween_ne_nil_iff (source target : Name) : C.pathsBetween source target pinned ≠ [] ↔
      Relation.ReflTransGen (fun a b => ∃ jp ∈ C.edges pinned, jp.fromEntity = a ∧ jp.toEntity = b)
        source target := by
  rw [← @exists_walk_iff Name JoinPath JoinPath.fromEntity JoinPath.toEntity]
  constructor
  · intro hne
    obtain ⟨es, hes⟩ := List.exists_mem_of_ne_nil _ hne
    exact ⟨es, (walk_of_pathsBetween hes).1⟩
  · rintro ⟨es, hes⟩
    obtain ⟨fs, hfs⟩ := hes.exists_simple
    exact List.ne_nil_of_mem ((mem_paths_self (C.edges_length pinned)).mpr hfs)

/-- Where no target has two paths the loop of `_resolve_joins` finds no ambiguity. -/
theorem resolveJoins_ne_ambiguous {base : Name} {targets : List Name}
    (hone : ∀ target, (C.pathsBetween base target pinned).length ≤ 1) (a b : Name)
    (candidates : List (List Name)) :
    C.resolveJoins base targets pinned ≠ .error (.ambiguousJoinPath a b candidates) := by
  intro h
  obtain ⟨target, -, hops, hstep⟩ := exists_of_foldlM_error h
  split at hstep
  · cases hstep
  · split at hstep
    · cases hstep
    · cases hstep
    · next hnil hsingle =>
      have hle := hone target
      rcases hpaths : C.pathsBetween base target pinned with _ | ⟨path, _ | ⟨_, _⟩⟩
      · exact hnil hpaths
      · exact hsingle path hpaths
      · simp [hpaths] at hle

end Compiler

/-- The cycle check of `validate_definition` reports an error exactly when the join graph
has a cycle that is not a pair of parallel join paths.  In a definition that passes and has
no parallel join paths the search for paths is done after as many steps as there are join
paths, finds one path at most, finds one exactly when the target can be reached, and no
join is ambiguous. -/
theorem join_graph_decides (defn : Definition) :
    (edgesLoop [] (joinEdges defn) ≠ [] ↔ ForbiddenCycle defn) ∧
    ∀ (C : Compiler) (datasetLookup : String → Option Dataset), C.defn = defn →
      Validated defn datasetLookup → NoParallel defn → ∀ (source target : Name)
        (pinned : List Name), (C.pathsBetween source target pinned).length ≤ 1 ∧
      (∀ fuel, defn.joinPaths.length < fuel →
        (paths JoinPath.fromEntity JoinPath.toEntity (C.edges pinned) target fuel source
          [source]).Perm (C.pathsBetween source target pinned)) ∧
      (C.pathsBetween source target pinned ≠ [] ↔ Relation.ReflTransGen
        (fun a b => ∃ jp ∈ C.edges pinned, jp.fromEntity = a ∧ jp.toEntity = b) source target) ∧
      ∀ (targets : List Name) (a b : Name) (candidates : List (List Name)),
        C.resolveJoins source targets pinned ≠ .error (.ambiguousJoinPath a b candidates) := by
  refine ⟨by rw [Ne, cycle_check_iff, not_not], ?_⟩
  rintro C datasetLookup rfl h hparallel source target pinned
  exact ⟨Compiler.length_pathsBetween_le h hparallel source target,
    fun fuel hfuel => Compiler.perm_pathsBetween hfuel source target,
    Compiler.pathsBetween_ne_nil_iff source target, fun targets =>
      Compiler.resolveJoins_ne_ambiguous (Compiler.length_pathsBetween_le h hparallel source)⟩

/-- In the shop the region of an order is the region of its customer. -/
theorem join_graph_decides_shop :
    (Shop.compiler.pathsBetween Shop.orders Shop.customers []).length ≤ 1 ∧
      Shop.compiler.pathsBetween Shop.orders Shop.customers [] ≠ [] :=
  ⟨((join_graph_decides Shop.defn).2 Shop.compiler Shop.datasets rfl Shop.validated
    (by unfold NoParallel; decide) Shop.orders Shop.customers []).1, by decide⟩

end Windrose.Semantic

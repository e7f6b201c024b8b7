/-
  Semantic/Joins.lean --- the scopes of compiled SQL.

  Source: services/semantic-service/app/compiler/compiler.py (_paths_between,
  _resolve_joins, _aliases, _from_sql, _col).

  The hops of a FROM clause are the union of the only paths to several targets, so they
  make a tree (`resolveJoins_tree`): each entity is joined once, from one that is joined
  before.  Aliases are distinct because the loop that makes them looks for an unused one.
-/
import Windrose.Semantic.Compiler

set_option autoImplicit false

namespace Windrose.Semantic

open Windrose.Foundation

/-! ## Hops -/

namespace Compiler

variable {C : Compiler}

theorem mem_edges {pinned : List Name} {jp : JoinPath} (h : jp ∈ C.edges pinned) :
    jp ∈ C.defn.joinPaths := (List.mem_filter.mp h).1

theorem edges_length (pinned : List Name) : (C.edges pinned).length < C.defn.joinPaths.length + 1 :=
  Nat.lt_succ_of_le (List.length_filter_le _ _)

theorem name_inj_edges {pinned : List Name} {jp jp' : JoinPath} (h : jp ∈ C.edges pinned)
    (h' : jp' ∈ C.edges pinned) (heq : jp.name = jp'.name) : jp = jp' :=
  List.inj_on_of_nodup_map C.defn.joinPaths_nodup (mem_edges h) (mem_edges h') heq

/-- What `resolveJoins` keeps while it collects hops: they are on the only paths to some
targets. -/
structure Collected (C : Compiler) (base : Name) (pinned : List Name) (hops : List JoinPath) :
    Prop where
  rooted : Rooted JoinPath.fromEntity JoinPath.toEntity [base] hops
  names_nodup : (hops.map JoinPath.name).Nodup
  on_path : ∀ jp ∈ hops, ∃ target path, C.pathsBetween base target pinned = [path] ∧ jp ∈ path

variable {base : Name} {pinned : List Name} {hops : List JoinPath}

variable {target : Name}

theorem walk_of_pathsBetween {path : List JoinPath} (h : path ∈ C.pathsBetween base target pinned) :
    Walk JoinPath.fromEntity JoinPath.toEntity (C.edges pinned) base path target ∧
      (base :: path.map JoinPath.toEntity).Nodup :=
  (mem_paths_self (C.edges_length pinned)).mp h

theorem Collected.mem_edges (h : Collected C base pinned hops) :
    ∀ jp ∈ hops, jp ∈ C.edges pinned := by
  intro jp hjp
  obtain ⟨target, path, hpath, hmem⟩ := h.on_path jp hjp
  exact (walk_of_pathsBetween (hpath ▸ List.mem_singleton_self path)).1.mem_edges jp hmem

theorem Collected.add (h : Collected C base pinned hops) {path : List JoinPath}
    (hpath : C.pathsBetween base target pinned = [path]) :
    Collected C base pinned (addAllNew JoinPath.name hops path) where
  rooted :=
    h.rooted.addAllNew (fun _ he _ hf => name_inj_edges he hf) h.mem_edges List.mem_cons_self
      (walk_of_pathsBetween (hpath ▸ List.mem_singleton_self path)).1
  names_nodup := nodup_addAllNew h.names_nodup path
  on_path := by
    intro jp hjp
    rcases mem_addAllNew hjp with hjp | hjp
    · exact h.on_path jp hjp
    · exact ⟨target, path, hpath, hjp⟩

theorem Collected.tree (h : Collected C base pinned hops) :
    Tree JoinPath.fromEntity JoinPath.toEntity base hops where
  rooted := h.rooted
  nodup := by
    rw [List.nodup_cons]
    constructor
    · intro hbase
      obtain ⟨jp, hjp, heq⟩ := List.mem_map.mp hbase
      obtain ⟨target, path, hpath, hmem⟩ := h.on_path jp hjp
      have hsimple := (walk_of_pathsBetween (hpath ▸ List.mem_singleton_self path)).2
      exact (List.nodup_cons.mp hsimple).1 (heq ▸ List.mem_map_of_mem hmem)
    · refine (List.Nodup.of_map _ h.names_nodup).map_on fun jp hjp jp' hjp' heq => ?_
      obtain ⟨target, path, hpath, hmem⟩ := h.on_path jp hjp
      obtain ⟨target', path', hpath', hmem'⟩ := h.on_path jp' hjp'
      obtain ⟨hwalk, hnodup⟩ := walk_of_pathsBetween (hpath' ▸ List.mem_singleton_self path')
      exact eq_of_paths_eq_singleton (C.edges_length pinned) hpath hwalk hnodup hmem hmem' heq

/-- One step of the loop of `_resolve_joins`. -/
def resolveStep (C : Compiler) (base : Name) (pinned : List Name) (hops : List JoinPath)
    (target : Name) : Except Exn (List JoinPath) :=
  if target = base then .ok hops
  else
    match C.pathsBetween base target pinned with
    | [] => .error (.noJoinPath base target)
    | [path] => .ok (addAllNew JoinPath.name hops path)
    | candidates => .error (.ambiguousJoinPath base target (candidates.map (·.map JoinPath.name)))

theorem resolveStep_ok {hops' : List JoinPath}
    (h : C.resolveStep base pinned hops target = .ok hops') : hops' = hops ∨
      ∃ path, C.pathsBetween base target pinned = [path] ∧
        hops' = addAllNew JoinPath.name hops path := by
  unfold resolveStep at h
  split at h
  · cases h
    exact .inl rfl
  · split at h
    · cases h
    · next path hpath =>
      cases h
      exact .inr ⟨path, hpath, rfl⟩
    · cases h

theorem resolveJoins_collected {targets : List Name}
    (h : C.resolveJoins base targets pinned = .ok hops) : Collected C base pinned hops := by
  have hloop : ∀ (targets : List Name) (start : List JoinPath), Collected C base pinned start →
      ∀ hops, targets.foldlM (C.resolveStep base pinned) start = .ok hops →
        Collected C base pinned hops := by
    intro targets
    induction targets with
    | nil =>
      intro start hstart hops h
      cases h
      exact hstart
    | cons target targets ih =>
      intro start hstart hops h
      rw [List.foldlM_cons] at h
      obtain ⟨next, hnext, h⟩ := bind_eq_ok.mp h
      refine ih next ?_ hops h
      rcases resolveStep_ok hnext with rfl | ⟨path, hpath, rfl⟩
      · exact hstart
      · exact hstart.add hpath
  exact hloop targets [] ⟨trivial, List.nodup_nil, nofun⟩ hops h

theorem resolveJoins_tree {targets : List Name}
    (h : C.resolveJoins base targets pinned = .ok hops) :
    Tree JoinPath.fromEntity JoinPath.toEntity base hops ∧ ∀ jp ∈ hops, jp ∈ C.defn.joinPaths :=
  have hcollected := resolveJoins_collected h
  ⟨hcollected.tree, fun jp hjp => mem_edges (hcollected.mem_edges jp hjp)⟩

end Compiler

/-! ## Aliases -/

theorem aliasCandidate_injective (name : Name) : Function.Injective (aliasCandidate name) := by
  intro m n h
  cases m with
  | zero =>
    cases n with
    | zero => rfl
    | succ n => exact absurd (by simpa [aliasCandidate] using h) (itoa_ne_nil (n + 2))
  | succ m =>
    cases n with
    | zero => exact absurd (by simpa [aliasCandidate] using h) (itoa_ne_nil (m + 2))
    | succ n =>
      have := itoa_injective (List.append_cancel_left h)
      omega

theorem aliasLoop_names (aliases : List (Name × Bytes)) (names : List Name) :
    (aliasLoop aliases names).map Prod.fst = aliases.map Prod.fst ++ names := by
  induction names generalizing aliases with
  | nil => simp [aliasLoop]
  | cons name names ih => simp [aliasLoop, ih]

theorem aliasLoop_nodup {aliases : List (Name × Bytes)} (h : (aliases.map Prod.snd).Nodup)
    (names : List Name) : ((aliasLoop aliases names).map Prod.snd).Nodup := by
  induction names generalizing aliases with
  | nil => exact h
  | cons name names ih =>
    refine ih ?_
    rw [List.map_append, List.nodup_append]
    refine ⟨h, by simp, ?_⟩
    rintro a ha b hb rfl
    rw [List.map_singleton, List.mem_singleton] at hb
    exact fresh_not_mem (aliasCandidate_injective name) 0 (hb ▸ ha)

/-- The entities that the hops join, in the order of the FROM clause. -/
def joinedEntities (base : Name) (hops : List JoinPath) : List Name :=
  base :: hops.map JoinPath.toEntity

/-- The loop over the ends of the hops meets each entity when it is joined. -/
theorem addAllNew_ends {seen : List Name} {hops : List JoinPath}
    (h : Rooted JoinPath.fromEntity JoinPath.toEntity seen.reverse hops)
    (hnodup : (seen ++ hops.map JoinPath.toEntity).Nodup) :
    addAllNew id seen (hops.flatMap fun jp => [jp.fromEntity, jp.toEntity]) =
      seen ++ hops.map JoinPath.toEntity := by
  induction hops generalizing seen with
  | nil => simp [addAllNew]
  | cons jp hops ih =>
    obtain ⟨hfrom, hrest⟩ := h
    have hfrom : addNew id seen jp.fromEntity = seen := if_pos (by simpa using hfrom)
    have hnew : jp.toEntity ∉ seen := by
      intro hmem
      exact (List.nodup_append.mp hnodup).2.2 _ hmem _ (by simp) rfl
    have hto : addNew id seen jp.toEntity = seen ++ [jp.toEntity] := if_neg (by simpa using hnew)
    have hstep := @ih (seen ++ [jp.toEntity]) (by simpa using hrest) (by simpa using hnodup)
    rw [List.flatMap_cons, addAllNew, List.foldl_append, List.foldl_cons, List.foldl_cons,
      List.foldl_nil, hfrom, hto]
    simpa [addAllNew] using hstep

section Aliases

variable {base : Name} {hops : List JoinPath}
  (htree : Tree JoinPath.fromEntity JoinPath.toEntity base hops)
include htree

theorem aliasesOf_names : (aliasesOf base hops).map Prod.fst = joinedEntities base hops := by
  rw [aliasesOf, aliasLoop_names,
    addAllNew_ends (by simpa using htree.rooted) (by simpa using htree.nodup)]
  rfl

variable {name : Name}

theorem aliasesOf_lookup {a : Bytes} :
    (aliasesOf base hops).lookup name = some a ↔ (name, a) ∈ aliasesOf base hops := by
  constructor
  · intro h
    obtain ⟨l, r, heq, -⟩ := List.lookup_eq_some_iff.mp h
    rw [heq]
    simp
  · intro h
    have hnodup : ((aliasesOf base hops).map Prod.fst).Nodup := by
      rw [aliasesOf_names htree]
      exact htree.nodup
    generalize aliasesOf base hops = l at h hnodup
    induction l with
    | nil => cases h
    | cons p l ih =>
      rcases List.mem_cons.mp h with rfl | h
      · simp
      · have hne : name ≠ p.1 := by
          rintro rfl
          exact (List.nodup_cons.mp hnodup).1 (List.mem_map.mpr ⟨_, h, rfl⟩)
        rw [List.lookup_cons, beq_false_of_ne hne]
        exact ih h (List.nodup_cons.mp hnodup).2

theorem aliasesOf_isSome :
    (∃ a, (aliasesOf base hops).lookup name = some a) ↔ name ∈ joinedEntities base hops := by
  simp [aliasesOf_lookup htree, ← aliasesOf_names htree]

theorem aliasesOf_injective {name' : Name} {a : Bytes}
    (h : (aliasesOf base hops).lookup name = some a)
    (h' : (aliasesOf base hops).lookup name' = some a) : name = name' := by
  rw [aliasesOf_lookup htree] at h h'
  have hnodup : ((aliasesOf base hops).map Prod.snd).Nodup := aliasLoop_nodup (by simp) _
  exact congrArg Prod.fst (List.inj_on_of_nodup_map hnodup h h' rfl)

end Aliases

end Windrose.Semantic

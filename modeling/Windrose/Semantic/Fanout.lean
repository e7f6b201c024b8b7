/-
  Semantic/Fanout.lean --- joins are well scoped and keep the rows of the base entity.

  Source: services/semantic-service/app/compiler/compiler.py (_resolve_joins, _aliases,
  _from_sql), app/domain/definition.py (CARDINALITIES).

  The hops of a FROM clause make a tree.  So each entity has one alias, each ON clause
  refers to what is joined before it, and where every declared path has one partner at most,
  each left join keeps the rows of its left side one for one.
-/
import Windrose.Semantic.Clauses
import Windrose.Semantic.Meaning

set_option autoImplicit false

namespace Windrose.Semantic

open Windrose.Foundation
open Windrose.Foundation.Relation

/-! ## Well scoped queries -/

/-- Its aliases, the base first. -/
def From.aliases (f : From) : List Bytes := f.alias :: f.hops.map Hop.alias

def From.entities (f : From) : List Name := f.base.name :: f.hops.map fun h => h.entity.name

/-- Every ON clause refers to its own alias on the right and to one before it on the left. -/
def HopsScoped : List Bytes → List Hop → Prop
  | _, [] => True
  | seen, h :: hs =>
    (∀ p ∈ h.on, p.1.alias ∈ seen ∧ p.2.alias = h.alias) ∧ HopsScoped (h.alias :: seen) hs

/-- Entities and aliases are distinct, and each ON clause is in scope. -/
structure From.WellScoped (f : From) : Prop where
  entities_nodup : f.entities.Nodup
  aliases_nodup : f.aliases.Nodup
  hops : HopsScoped [f.alias] f.hops

/-- What is selected from `n` common table expressions refers to these, and a join to those
before it. -/
structure Outer.WellScoped (o : Outer) (n : Nat) : Prop where
  dims : ∀ d ∈ o.dims, ∀ c ∈ d.1, c.cte < n
  measures : ∀ i ∈ o.measures, ∀ c ∈ i.expr.columns, c.cte < n
  filters : ∀ h ∈ o.filters, ∀ c ∈ h.target.columns, c.cte < n
  joins : ∀ k on, o.joins[k]? = some (.full on) →
    k + 1 < n ∧ ∀ p ∈ on, p.1.cte = k + 1 ∧ ∀ c ∈ p.2, c.cte ≤ k

/-- Every scope is. -/
def Query.WellScoped (q : Query) : Prop :=
  (∀ scope ∈ q.scopes, scope.1.WellScoped ∧ ∀ c ∈ scope.2, c.alias ∈ scope.1.aliases) ∧
    match q with
    | .single .. => True
    | .multi ctes o _ => o.WellScoped ctes.length

/-! ## Instances -/

section Instances

variable {α : Type} [DecidableEq α] (W : Warehouse α) (tables : Tables α)

/-- The ON clause of a join path for two rows. -/
def pathHolds (jp : JoinPath) (r t : Row α) : Bool :=
  jp.on.all fun p => W.cmp .eq (r p.1) (t p.2) = some true

/-- Each declared path has at most one matching target row for a row of its source. -/
def ToOne (defn : Definition) : Prop :=
  ∀ jp ∈ defn.joinPaths, ∀ e e', defn.entity? jp.fromEntity = some e →
    defn.entity? jp.toEntity = some e' → ∀ r ∈ tables (datasetRef e),
      ((tables (datasetRef e')).filter (pathHolds W jp r)).length ≤ 1

variable {W tables}

theorem pathHolds_nullRow (jp : JoinPath) (t : Row α) : pathHolds W jp nullRow t = false := by
  obtain ⟨p, hp⟩ := List.exists_mem_of_ne_nil _ jp.on_ne_nil
  rw [pathHolds, List.all_eq_false]
  exact ⟨p, hp, by simp [nullRow, Engine.cmp]⟩

end Instances

variable {req : CompileRequest} {a : Bytes} {ordered : List FilterSpec} {dialect : Dialect}
  {name : Name}

namespace Compiler

variable {C : Compiler} {base : Name} {hops : List JoinPath} {f : From}

/-! ## The aliases of a FROM clause -/

/-- The alias of an entity. -/
def aliasOf (base : Name) (hops : List JoinPath) (name : Name) : Bytes :=
  ((aliasesOf base hops).lookup name).getD []

theorem aliasOf_eq (h : (aliasesOf base hops).lookup name = some a) :
    aliasOf base hops name = a := by rw [aliasOf, h, Option.getD_some]

theorem FromOf.aliases_eq (h : FromOf C base hops f) :
    f.aliases = (joinedEntities base hops).map (aliasOf base hops) := by
  rw [From.aliases, joinedEntities, List.map_cons, List.map_map, aliasOf_eq h.base_alias,
    forall₂_map_eq h.joined fun jp hop hhop => (aliasOf_eq hhop.alias).symm]
  rfl

theorem FromOf.entities_eq (h : FromOf C base hops f) : f.entities = joinedEntities base hops := by
  rw [From.entities, joinedEntities, (Definition.of_entity? h.base_entity).2,
    forall₂_map_eq h.joined fun jp hop hhop => (Definition.of_entity? hhop.entity).2]

theorem FromOf.mem_aliases (h : FromOf C base hops f)
    (htree : Tree JoinPath.fromEntity JoinPath.toEntity base hops)
    (ha : (aliasesOf base hops).lookup name = some a) : a ∈ f.aliases := by
  rw [h.aliases_eq, ← aliasOf_eq ha]
  exact List.mem_map_of_mem ((aliasesOf_isSome htree).mp ⟨a, ha⟩)

theorem aliases_nodup (htree : Tree JoinPath.fromEntity JoinPath.toEntity base hops) :
    ((joinedEntities base hops).map (aliasOf base hops)).Nodup := by
  refine List.Nodup.map_on (fun n hn n' hn' heq => ?_) htree.nodup
  obtain ⟨a, ha⟩ := (aliasesOf_isSome htree).mpr hn
  obtain ⟨a', ha'⟩ := (aliasesOf_isSome htree).mpr hn'
  rw [aliasOf_eq ha, aliasOf_eq ha'] at heq
  exact aliasesOf_injective htree ha (heq ▸ ha')

theorem hopsScoped {seen : List Name} {js : List JoinPath} {hs : List Hop}
    (h : List.Forall₂ (HopOf C (aliasesOf base hops)) js hs)
    (hrooted : Rooted JoinPath.fromEntity JoinPath.toEntity seen js) :
    HopsScoped (seen.map (aliasOf base hops)) hs := by
  induction h generalizing seen with
  | nil => trivial
  | cons hhop _ ih =>
    obtain ⟨hfrom, hrest⟩ := hrooted
    obtain ⟨a, ha, hon⟩ := hhop.on
    refine ⟨fun p hp => ?_, ?_⟩
    · rw [hon] at hp
      obtain ⟨q, -, rfl⟩ := List.mem_map.mp hp
      exact ⟨List.mem_map.mpr ⟨_, hfrom, aliasOf_eq ha⟩, rfl⟩
    · have := ih hrest
      rwa [List.map_cons, aliasOf_eq hhop.alias] at this

theorem FromOf.wellScoped (h : FromOf C base hops f)
    (htree : Tree JoinPath.fromEntity JoinPath.toEntity base hops) : f.WellScoped where
  entities_nodup := by
    rw [h.entities_eq]
    exact htree.nodup
  aliases_nodup := by
    rw [h.aliases_eq]
    exact aliases_nodup htree
  hops := by
    have := hopsScoped h.joined htree.rooted
    rwa [List.map_singleton, aliasOf_eq h.base_alias] at this

theorem FromOf.named (h : FromOf C base hops f) (hops_mem : ∀ jp ∈ hops, jp ∈ C.defn.joinPaths) :
    ∀ c ∈ f.columns, Named C (aliasesOf base hops) c := by
  intro c hc
  obtain ⟨hop, hhop, hc⟩ := List.mem_flatMap.mp hc
  obtain ⟨jp, hjp, hhop⟩ := forall₂_right h.joined hhop
  obtain ⟨a, ha, hon⟩ := hhop.on
  obtain ⟨q, hq, hc⟩ := List.mem_flatMap.mp hc
  rw [hon] at hq
  obtain ⟨p, hp, rfl⟩ := List.mem_map.mp hq
  rcases List.mem_pair.mp hc with rfl | rfl
  · exact ⟨_, ha, .joinFrom jp (hops_mem jp hjp) rfl (List.mem_map_of_mem hp)⟩
  · exact ⟨_, hhop.alias, .joinTo jp (hops_mem jp hjp) rfl (List.mem_map_of_mem hp)⟩

/-! ## The columns of a scope -/

theorem Scope.named {before after : List Param} {range : Option ResolvedRange} {s : Select}
    (h : Scope C ordered req dialect base hops before after range s) :
    ∀ c ∈ s.columns, Named C (aliasesOf base hops) c ∨
      c ∈ s.measures.flatMap fun i => aggColumns i.expr := by
  have hfrom := (fromSql_ok h.source).named h.tree.2
  have hwhere := (whereSql_ok h.filters).named
  intro c hc
  simp only [Select.columns, List.mem_append] at hc
  rcases hc with (((hc | hc) | hc) | hc) | hc
  · exact .inl (named_dimItems h.dims c hc)
  · exact .inr hc
  · exact .inl (hfrom c hc)
  · exact .inl (hwhere c hc)
  · exact .inl (named_groupBySql h.groupBy c hc)

theorem SelectOf.mem_aliases {s : Select} (h : SelectOf C ordered req dialect base hops s) :
    ∀ c ∈ s.columns, c.alias ∈ s.source.aliases := by
  obtain ⟨before, after, range, hscope⟩ := h.scope
  have hfrom := fromSql_ok hscope.source
  intro c hc
  rcases hscope.named c hc with ⟨entity, halias, -⟩ | hc
  · exact hfrom.mem_aliases hscope.tree.1 halias
  · obtain ⟨i, hi, hc⟩ := List.mem_flatMap.mp hc
    obtain ⟨metric, -, m, b, hcol, -⟩ := h.measures i hi c hc
    exact hfrom.mem_aliases hscope.tree.1 hcol.alias

theorem SelectOf.over_base {s : Select} (h : SelectOf C ordered req dialect base hops s) :
    ∀ i ∈ s.measures, ∀ c ∈ aggColumns i.expr, c.alias = s.source.alias := by
  obtain ⟨before, after, range, hscope⟩ := h.scope
  intro i hi c hc
  obtain ⟨metric, -, m, b, hcol, hbase⟩ := h.measures i hi c hc
  have halias := hcol.alias
  rw [hbase, (fromSql_ok hscope.source).base_alias] at halias
  exact (Option.some.inj halias).symm

/-! ## The joined rows -/

section Rows

variable {α : Type} [DecidableEq α] {W : Warehouse α} {tables : Tables α}

/-- Under the alias of an entity that is joined stands one of its rows, or none. -/
def Holds (C : Compiler) (aliases : List (Name × Bytes)) (tables : Tables α) (seen : List Name)
    (w : Joined α) : Prop :=
  ∀ n ∈ seen, ∀ e a, C.defn.entity? n = some e → aliases.lookup n = some a →
    w a = nullRow ∨ w a ∈ tables (datasetRef e)

variable {jp : JoinPath} {h : Hop} {seen : List Name} {aliases : List (Name × Bytes)}

theorem length_met (hone : ToOne W tables C.defn) (hjp : jp ∈ C.defn.joinPaths)
    (hhop : HopOf C aliases jp h) (ha : aliases.lookup jp.fromEntity = some a)
    (hne : a ≠ h.alias) {e : Entity} (he : C.defn.entity? jp.fromEntity = some e) {w : Joined α}
    (hw : w a = nullRow ∨ w a ∈ tables (datasetRef e)) :
    ((tables (datasetRef h.entity)).filter fun t =>
      onHolds W h.on (w.place h.alias (some t))).length ≤ 1 := by
  obtain ⟨b, hb, hon⟩ := hhop.on
  cases Option.some.inj (ha.symm.trans hb)
  have hpath : (fun t => onHolds W h.on (w.place h.alias (some t))) = pathHolds W jp (w a) := by
    funext t
    rw [onHolds, hon, List.all_map, pathHolds]
    simp only [Function.comp_def, Joined.col, w.place_self, w.place_ne (some t) hne,
      Option.getD_some]
  rw [hpath]
  rcases hw with hw | hw
  · rw [hw, List.filter_eq_nil_iff.mpr fun t _ => by simp [pathHolds_nullRow]]
    exact Nat.zero_le 1
  · exact hone jp hjp e h.entity he hhop.entity _ hw

omit [DecidableEq α] in
theorem holds_place (hhop : HopOf C aliases jp h)
    (hinj : ∀ n ∈ seen, aliases.lookup n ≠ some h.alias) {w : Joined α}
    (hw : Holds C aliases tables seen w) {o : Option (Row α)}
    (ho : ∀ t ∈ o, t ∈ tables (datasetRef h.entity)) :
    Holds C aliases tables (jp.toEntity :: seen) (w.place h.alias o) := by
  intro n hn e a he ha
  rcases List.mem_cons.mp hn with rfl | hn
  · rw [hhop.entity] at he
    cases he
    rw [hhop.alias] at ha
    cases ha
    rw [w.place_self]
    cases o with
    | none => exact .inl rfl
    | some t => exact .inr (ho t rfl)
  · have hne : a ≠ h.alias := by
      rintro rfl
      exact hinj n hn ha
    rw [w.place_ne o hne]
    exact hw n hn e a he ha

theorem map_foldl_join (hone : ToOne W tables C.defn) {base_alias : Bytes}
    (htree : Tree JoinPath.fromEntity JoinPath.toEntity base hops)
    (hmem : ∀ jp ∈ hops, jp ∈ C.defn.joinPaths) (hbase : base ∈ seen)
    (hbase_alias : (aliasesOf base hops).lookup base = some base_alias)
    (hknown : ∀ n ∈ seen, ∃ e, C.defn.entity? n = some e) {js : List JoinPath} {hs : List Hop}
    (hsub : js ⊆ hops) (hjs : List.Forall₂ (HopOf C (aliasesOf base hops)) js hs)
    (hrooted : Rooted JoinPath.fromEntity JoinPath.toEntity seen js)
    (hnew : (seen.reverse ++ js.map JoinPath.toEntity).Nodup) (hleft : ∀ h ∈ hs, h.joinType = .left)
    {left : List (Joined α)} (hrows : ∀ w ∈ left, Holds C (aliasesOf base hops) tables seen w) :
    (hs.foldl (Hop.join W tables) left).map (· base_alias) = left.map (· base_alias) := by
  induction hjs generalizing seen left with
  | nil => rfl
  | cons hhop _ ih =>
    rename_i jp h js hs _
    obtain ⟨hfrom, hrest⟩ := hrooted
    obtain ⟨hleft, hlefts⟩ := List.forall_mem_cons.mp hleft
    have hjp := hsub List.mem_cons_self
    have hfresh : jp.toEntity ∉ seen := by
      intro hold
      exact (List.nodup_append.mp hnew).2.2 _ (List.mem_reverse.mpr hold) _ (by simp) rfl
    have hinj : ∀ n ∈ seen, (aliasesOf base hops).lookup n ≠ some h.alias := by
      intro n hn heq
      exact hfresh (aliasesOf_injective htree heq hhop.alias ▸ hn)
    have hjoin : Hop.join W tables left h =
        leftJoin (fun w t => onHolds W h.on (Joined.place w h.alias (some t)))
          (fun w o => Joined.place w h.alias o) left (tables (datasetRef h.entity)) := by
      rw [Hop.join, hleft]
    obtain ⟨a, ha, -⟩ := hhop.on
    obtain ⟨e, he⟩ := hknown _ hfrom
    rw [List.foldl_cons]
    refine (ih (List.mem_cons_of_mem _ hbase) ?_
      (List.subset_of_cons_subset hsub) hrest (by simpa using hnew) hlefts ?_).trans ?_
    · exact List.forall_mem_cons.mpr ⟨⟨_, hhop.entity⟩, hknown⟩
    · intro w hw
      rw [hjoin] at hw
      obtain ⟨v, hv, o, ho, rfl⟩ := mem_leftJoin hw
      exact holds_place hhop hinj (hrows v hv) ho
    · rw [hjoin]
      refine leftJoin_map (fun w o => ?_) fun w hw => ?_
      · exact w.place_ne o fun heq => hinj base hbase (heq ▸ hbase_alias)
      · exact length_met hone (hmem jp hjp) hhop ha (fun heq => hinj _ hfrom (heq ▸ ha)) he
          (hrows w hw _ hfrom e a he ha)

theorem FromOf.rows_base (hone : ToOne W tables C.defn) (h : FromOf C base hops f)
    (htree : Tree JoinPath.fromEntity JoinPath.toEntity base hops)
    (hmem : ∀ jp ∈ hops, jp ∈ C.defn.joinPaths) (hleft : ∀ hop ∈ f.hops, hop.joinType = .left) :
    (f.rows W tables).map (· f.alias) = tables (datasetRef f.base) := by
  have hbase : (f.baseRows tables).map (· f.alias) = tables (datasetRef f.base) := by
    simp [From.baseRows, Function.comp_def, Joined.place]
  rw [← hbase]
  refine map_foldl_join hone htree hmem (List.mem_singleton_self base) h.base_alias ?_
    (List.Subset.refl hops) h.joined htree.rooted (by simpa using htree.nodup) hleft ?_
  · simpa using ⟨_, h.base_entity⟩
  · intro w hw n hn e a he ha
    obtain ⟨r, hr, rfl⟩ := List.mem_map.mp hw
    cases List.mem_singleton.mp hn
    cases Option.some.inj (h.base_entity.symm.trans he)
    cases Option.some.inj (h.base_alias.symm.trans ha)
    rw [Joined.place_self]
    exact .inr hr

end Rows

end Compiler

/-! ## Measures -/

theorem aggValue_congr {α : Type} [DecidableEq α] {W : Warehouse α}
    {rows rows' : List (Joined α)} (hrows : rows.map (· a) = rows'.map (· a)) {e : Expr AggCall}
    (he : ∀ c ∈ aggColumns e, c.alias = a) : aggValue W rows e = aggValue W rows' e := by
  refine Expr.eval_congr fun call hcall => AggCall.eval_congr ?_
  have hagree : List.Forall₂ Eq (rows.map (· a)) (rows'.map (· a)) := by
    rw [hrows]
    exact List.forall₂_refl _
  rw [List.forall₂_map_left_iff, List.forall₂_map_right_iff] at hagree
  refine hagree.imp fun w w' hw c hc => ?_
  rw [Joined.col, Joined.col, he c (List.mem_flatMap.mpr ⟨call, hcall, hc⟩), hw]

/-! ## Compiled queries -/

namespace Compiler

variable {C : Compiler}

theorem cte_lt_of_metricExpr {groups : List (Name × List Name)} {fuel : Nat}
    {e : Expr CteRef} (h : C.metricExpr (cteLeaf groups) fuel name = .ok e) :
    ∀ c ∈ e.columns, c.cte < groups.length := by
  intro c hc
  obtain ⟨g, hg, -⟩ := exists_of_metricExpr h c hc
  exact (List.getElem?_eq_some_iff.mp hg).1

theorem wellScoped_outer {groups : List (Name × List Name)}
    {measures : List (Item CteRef)} (hmeasures : C.metricItems (cteLeaf groups) req.metrics =
      .ok measures)
    {having : List (HavingClause CteRef)} {before after : List Param}
    (hhaving : HavingOf C (fun m => C.metricExpr (cteLeaf groups) C.depth m.name) req.having before
      having after) : (Outer.mk (outerDims req groups.length) measures (cteJoins req groups.length)
      having).WellScoped groups.length where
  dims := by
    intro d hd c hc
    obtain ⟨r, -, rfl⟩ := List.mem_map.mp hd
    obtain ⟨i, hi, rfl⟩ := List.mem_map.mp hc
    exact List.mem_range.mp hi
  measures := by
    intro i hi
    obtain ⟨name, -, hi⟩ := forall₂_right (mapM_eq_ok.mp hmeasures) hi
    obtain ⟨e, he, rfl⟩ := map_eq_ok.mp hi
    exact cte_lt_of_metricExpr he
  filters := by
    intro h hh
    obtain ⟨spec, -, m, -, he⟩ := forall₂_right hhaving.targets hh
    exact cte_lt_of_metricExpr he
  joins := by
    intro k on hk
    rw [cteJoins, List.getElem?_map, Option.map_eq_some_iff] at hk
    obtain ⟨j, hj, hon⟩ := hk
    rw [List.getElem?_eq_some_iff] at hj
    obtain ⟨hlt, rfl⟩ := hj
    rw [List.length_range'] at hlt
    rw [List.getElem_range'] at hon
    split at hon
    · cases hon
    · cases hon
      refine ⟨by omega, fun p hp => ?_⟩
      obtain ⟨d, -, rfl⟩ := List.mem_map.mp hp
      refine ⟨show 1 + 1 * k = k + 1 by omega, fun c hc => ?_⟩
      obtain ⟨i, hi, rfl⟩ := List.mem_map.mp hc
      have := List.mem_range.mp hi
      show i ≤ k
      omega

theorem wellScoped_of_compileWith {c : Compiled} (h : C.compileWith ordered req dialect = .ok c) :
    c.query.WellScoped := by
  obtain ⟨bases, out, -, hplan, hquery, -⟩ := compileWith_ok h
  have hselects := selects_ok h
  rw [hquery] at hselects ⊢
  rcases plan_cases hplan with ⟨group, -, hsingle⟩ | ⟨-, hmulti⟩
  · obtain ⟨s, having, tail, mid, hout, hscope, -, hhaving, -⟩ := compileSingle_ok hsingle
    rw [hout] at hselects ⊢
    obtain ⟨base, hops, hs⟩ := hselects s (List.mem_singleton_self s)
    have hfrom := fromSql_ok hscope.source
    refine ⟨fun scope hmem => ?_, trivial⟩
    cases List.mem_singleton.mp hmem
    refine ⟨hfrom.wellScoped hscope.tree.1, List.forall_mem_append.mpr ⟨hs.mem_aliases, ?_⟩⟩
    intro c hc
    obtain ⟨clause, hclause, hc⟩ := List.mem_flatMap.mp hc
    obtain ⟨spec, -, m, hm, he⟩ := forall₂_right (havingClauses_ok hhaving).targets hclause
    obtain ⟨leaf, b, hcol⟩ := (mem_aggColumns_havingTarget hm he).mp hc
    exact hfrom.mem_aliases hscope.tree.1 hcol.alias
  · obtain ⟨ctes, measures, having, tail, mid, hout, hgroups, hmeasures, hhaving, -⟩ :=
      compileMulti_ok hmulti
    rw [hout] at hselects ⊢
    refine ⟨fun scope hmem => ?_, ?_⟩
    · obtain ⟨s, hs, rfl⟩ := List.mem_map.mp hmem
      obtain ⟨base, hops, hof⟩ := hselects s hs
      obtain ⟨before, after, range, hscope⟩ := hof.scope
      exact ⟨(fromSql_ok hscope.source).wellScoped hscope.tree.1, hof.mem_aliases⟩
    · show Outer.WellScoped _ ctes.length
      rw [hgroups.length]
      exact wellScoped_outer hmeasures (havingClauses_ok hhaving)

/-- Compiled joins are well scoped.  Where each declared path has one partner at most, and
all joins of a SELECT are left joins, its joined relation has every row of the base entity
once, and each of its measures the value over the base entity alone. -/
theorem compile_joins_keep_base {req : CompileRequest} {dialect : Dialect} {c : Compiled}
    (h : C.compile req dialect = .ok c) : c.query.WellScoped ∧
      ∀ {α : Type} [DecidableEq α] (W : Warehouse α) (tables : Tables α), ToOne W tables C.defn →
        ∀ s ∈ c.query.selects, (∀ hop ∈ s.source.hops, hop.joinType = .left) →
          (s.source.rows W tables).map (· s.source.alias) = tables (datasetRef s.source.base) ∧
          ∀ i ∈ s.measures, aggValue W (s.source.rows W tables) i.expr =
            aggValue W (s.source.baseRows tables) i.expr := by
  refine ⟨wellScoped_of_compileWith h, fun W tables hone s hs hleft => ?_⟩
  obtain ⟨base, hops, hof⟩ := selects_ok h s hs
  obtain ⟨before, after, range, hscope⟩ := hof.scope
  have hrows := (fromSql_ok hscope.source).rows_base hone hscope.tree.1 hscope.tree.2 hleft
  refine ⟨hrows, fun i hi => aggValue_congr ?_ (hof.over_base i hi)⟩
  rw [hrows]
  simp [From.baseRows, Function.comp_def, Joined.place]

end Compiler

/-! ### In the shop -/

namespace Shop

/-- The sample's compiler. -/
def compiler : Compiler where
  py := ⟨fun _ => none, fun _ => 0⟩
  defn := defn
  broken := []
  today := some 0
  timezone := "UTC"

/-- Measures by region. -/
def byRegion (metrics : List Name) (h : metrics.Nodup) : CompileRequest where
  metrics := metrics
  metrics_nodup := h
  dimensions := [⟨region, none⟩]
  dimensions_nodup := List.nodup_singleton _
  filters := []
  timeRange := none
  orderBy := []
  limit := none
  having := []
  joinPaths := []
  orderWithinGroup := none

/-- An engine over integers. -/
def warehouse : Warehouse Int where
  number text := text.foldl (fun n b => 10 * n + (b.toNat - 48)) 0
  string text := text.length
  bool b := if b then 1 else 0
  bin op a b :=
    match a, b with
    | some m, some n =>
      match op with
      | .add => some (m + n)
      | .sub => some (m - n)
      | .mul => some (m * n)
      | .div => if n = 0 then none else some (m.tdiv n)
      | .mod => if n = 0 then none else some (m.tmod n)
    | _, _ => none
  call _ args := args.head?.join
  cast _ a := a
  extract _ a := a
  dateTrunc _ a := a
  compare op m n :=
    match op with
    | .lt => m < n
    | .le => m ≤ n
    | .gt => n < m
    | .ge => n ≤ m
    | .eq => m = n
    | .ne => m ≠ n
  aggregate agg values :=
    let known := values.reduceOption
    match agg with
    | .count => some known.length
    | .countDistinct => some known.dedup.length
    | .sum => if known = [] then none else some known.sum
    | .avg => if known = [] then none else some (known.sum / known.length)
    | .min => known.min?
    | .max => known.max?
    | .first => known.head?
  countAll n := some n
  first pairs := (pairs.head?.map Prod.fst).join
  like m n := m = n
  param _ := none

def row (cells : List (Name × Int)) : Row Int := fun column => cells.lookup column

/-- Two customers: the first, in a region that may be missing, has an order and a refund,
the second two orders. -/
def tablesWith (home : Option Int) (ref : Bytes) : List (Row Int) :=
  if ref = bytes "\x7b\x7bdataset('orders')\x7d\x7d" then
    [row [(id, 1), (customerId, 1), (amount, 10)], row [(id, 2), (customerId, 2), (amount, 20)],
      row [(id, 3), (customerId, 2), (amount, 5)]]
  else if ref = bytes "\x7b\x7bdataset('refunds')\x7d\x7d" then
    [row [(id, 1), (customerId, 1), (amount, 3)]]
  else if ref = bytes "\x7b\x7bdataset('customers')\x7d\x7d" then
    [row ((id, 1) :: home.toList.map (region, ·)), row [(id, 2), (region, 7)]]
  else []

/-- The region is missing. -/
def tables : Tables Int := tablesWith none

end Shop

end Windrose.Semantic

/-
  Semantic/Having.lean --- the measures of HAVING over joined rows.

  Source: services/semantic-service/app/compiler/compiler.py (_compile_single, _having_sql,
  _scope_targets, _resolve_joins).

  A single SELECT is over the entity of the measures that it selects, and its left joins
  keep the rows of that entity.  A measure that HAVING compares may be of another entity:
  `compile` groups the selected measures by entity, not those of HAVING, so that its rows
  come as often as they are joined.
-/
import Windrose.Semantic.Fanout

set_option autoImplicit false

namespace Windrose.Semantic

open Windrose.Foundation

/-! ## Measures over their entity alone -/

/-- The aliases of a FROM clause, by entity. -/
def From.aliasTable (f : From) : List (Name × Bytes) :=
  (f.base.name, f.alias) :: f.hops.map fun h => (h.entity.name, h.alias)

/-- All joins are left joins. -/
def From.AllLeft (f : From) : Prop := ∀ hop ∈ f.hops, hop.joinType = .left

/-- The rows of an entity alone, under an alias. -/
def aloneRows {α : Type} (tables : Tables α) (e : Entity) (a : Bytes) : List (Joined α) :=
  (tables (datasetRef e)).map fun r => Joined.place (fun _ => nullRow) a (some r)

namespace Compiler

section Alone

variable {α : Type} [DecidableEq α] (C : Compiler) (W : Warehouse α) (tables : Tables α) (f : From)
  (dialect : Dialect) (owg : Option Name)

/-- The value of a base measure over the rows of its entity alone. -/
def baseAlone (m : Measure) : Option α :=
  match m.kind with
  | .derived _ => none
  | .base b =>
    match C.defn.entity? b.entity, C.measureSql m dialect f.aliasTable owg with
    | some e, .ok call => call.eval W (aloneRows tables e ((f.aliasTable.lookup b.entity).getD []))
    | _, _ => none

/-- The value of a measure, each base measure over its entity alone. -/
def measureAlone (m : Measure) : Option α :=
  match m.kind with
  | .base _ => C.baseAlone W tables f dialect owg m
  | .derived d =>
    d.exprMetric.eval W.toEngine fun ref =>
      (C.defn.measure? ref).bind (C.baseAlone W tables f dialect owg)

/-- The joined rows have each row of the entities of a HAVING condition once, and its target
has the value over these entities alone. -/
structure HavingKept (h : HavingSpec) (c : HavingClause AggCall) : Prop where
  rows : ∀ m b, Leaf C h.metric m → m.kind = .base b → ∃ e a, C.defn.entity? b.entity = some e ∧
    f.aliasTable.lookup b.entity = some a ∧ (f.rows W tables).map (· a) = tables (datasetRef e)
  value : ∀ m, C.defn.measure? h.metric = some m →
    aggValue W (f.rows W tables) c.target = C.measureAlone W tables f dialect owg m

end Alone

/-- Compiled joins are well scoped.  Where each declared path has one partner at most, and
all joins of a SELECT are left joins, its joined relation has every row of the base entity
once, and each measure, selected or in HAVING, the value over its entity alone. -/
def KeepsBase (C : Compiler) (req : CompileRequest) (dialect : Dialect) (q : Query) : Prop :=
  q.WellScoped ∧ ∀ {α : Type} [DecidableEq α] (W : Warehouse α) (tables : Tables α),
    ToOne W tables C.defn →
      (∀ s ∈ q.selects, s.source.AllLeft →
        (s.source.rows W tables).map (· s.source.alias) = tables (datasetRef s.source.base) ∧
        ∀ i ∈ s.measures, aggValue W (s.source.rows W tables) i.expr =
          aggValue W (s.source.baseRows tables) i.expr) ∧
      ∀ s having tail, q = .single s having tail → s.source.AllLeft →
        List.Forall₂ (HavingKept C W tables s.source dialect req.orderWithinGroup) req.having having

/-! ## Requests -/

section Requests

variable (C : Compiler) (req : CompileRequest)

/-- The measures of a metric are all of one entity. -/
def Over (base metric : Name) : Prop := ∀ m b, Leaf C metric m → m.kind = .base b → b.entity = base

/-- What is selected is over one entity. -/
def SelectsFrom (base : Name) : Prop :=
  (∀ metric ∈ req.metrics, Over C base metric) ∧
    ∃ metric ∈ req.metrics, ∃ m b, Leaf C metric m ∧ m.kind = .base b

/-- A dimension that the request groups by or filters on is of this entity. -/
def Needs (target : Name) : Prop :=
  ∃ name, ((∃ d ∈ req.dimensions, d.name = name) ∨ (∃ f ∈ req.filters, f.dimension = name) ∨
    ∃ tr ∈ req.timeRange, tr.dimension = name) ∧
    ∃ d, C.defn.dimension? name = some d ∧ d.entity = target

/-- A way from the base entity to one that the request needs has an inner join. -/
def InnerJoined (base : Name) : Prop :=
  ∃ target path, Needs C req target ∧
    Walk JoinPath.fromEntity JoinPath.toEntity (C.edges req.joinPaths) base path target ∧
    (base :: path.map JoinPath.toEntity).Nodup ∧ ∃ jp ∈ path, jp.joinType ≠ .left

/-- HAVING compares measures of the entity that the request selects from. -/
def HavingOverBase : Prop :=
  ∀ base, SelectsFrom C req base → ¬ InnerJoined C req base → ∀ h ∈ req.having, Over C base h.metric

end Requests

/-! ## Hops and targets -/

variable {C : Compiler} {req : CompileRequest} {dialect : Dialect} {base : Name}
  {hops : List JoinPath} {pinned : List Name} {ordered : List FilterSpec}

/-- What the loop has collected: for each target done, its only path. -/
structure Reached (C : Compiler) (base : Name) (pinned done : List Name) (hops : List JoinPath) :
    Prop where
  path : ∀ target ∈ done, target ≠ base → ∃ path, C.pathsBetween base target pinned = [path] ∧
    path ⊆ hops
  target : ∀ jp ∈ hops, ∃ target ∈ done, ∃ path, C.pathsBetween base target pinned = [path] ∧
    jp ∈ path

theorem resolveStep_ok_iff {hops' : List JoinPath} {target : Name}
    (h : C.resolveStep base pinned hops target = .ok hops') : (target = base ∧ hops' = hops) ∨
      target ≠ base ∧ ∃ path, C.pathsBetween base target pinned = [path] ∧
        hops' = addAllNew JoinPath.name hops path := by
  unfold resolveStep at h
  split at h
  · next htarget =>
    cases h
    exact .inl ⟨htarget, rfl⟩
  · next htarget =>
    split at h
    · cases h
    · next path hpath =>
      cases h
      exact .inr ⟨htarget, path, hpath, rfl⟩
    · cases h

theorem subset_addAllNew {path : List JoinPath} (hhops : ∀ jp ∈ hops, jp ∈ C.edges pinned)
    (hpath : ∀ jp ∈ path, jp ∈ C.edges pinned) : path ⊆ addAllNew JoinPath.name hops path := by
  intro jp hjp
  obtain ⟨jp', hjp', heq⟩ := List.mem_map.mp
    (key_mem_addAllNew.mpr (.inr (List.mem_map_of_mem (f := JoinPath.name) hjp)) :
      jp.name ∈ (addAllNew JoinPath.name hops path).map JoinPath.name)
  have hedge : jp' ∈ C.edges pinned := (mem_addAllNew hjp').elim (hhops jp') (hpath jp')
  exact name_inj_edges hedge (hpath jp hjp) heq ▸ hjp'

theorem Reached.mem_edges {done : List Name} (h : Reached C base pinned done hops) :
    ∀ jp ∈ hops, jp ∈ C.edges pinned := by
  intro jp hjp
  obtain ⟨target, -, path, hpath, hmem⟩ := h.target jp hjp
  exact (walk_of_pathsBetween (hpath ▸ List.mem_singleton_self path)).1.mem_edges jp hmem

theorem Reached.step {done : List Name} {target : Name} {hops' : List JoinPath}
    (h : Reached C base pinned done hops)
    (hstep : C.resolveStep base pinned hops target = .ok hops') :
    Reached C base pinned (done ++ [target]) hops' := by
  rcases resolveStep_ok_iff hstep with ⟨rfl, rfl⟩ | ⟨hne, path, hpath, rfl⟩
  · refine ⟨fun t ht hbase => ?_, fun jp hjp => ?_⟩
    · rcases List.mem_append.mp ht with ht | ht
      · exact h.path t ht hbase
      · exact absurd (List.mem_singleton.mp ht) hbase
    · obtain ⟨t, ht, hpath⟩ := h.target jp hjp
      exact ⟨t, List.mem_append_left _ ht, hpath⟩
  · have hedges := (walk_of_pathsBetween (hpath ▸ List.mem_singleton_self path)).1.mem_edges
    refine ⟨fun t ht hbase => ?_, fun jp hjp => ?_⟩
    · rcases List.mem_append.mp ht with ht | ht
      · obtain ⟨p, hp, hsub⟩ := h.path t ht hbase
        exact ⟨p, hp, fun jp hjp => (isPrefix_addAllNew hops path).subset (hsub hjp)⟩
      · cases List.mem_singleton.mp ht
        exact ⟨path, hpath, subset_addAllNew h.mem_edges hedges⟩
    · rcases mem_addAllNew hjp with hjp | hjp
      · obtain ⟨t, ht, hpath⟩ := h.target jp hjp
        exact ⟨t, List.mem_append_left _ ht, hpath⟩
      · exact ⟨target, List.mem_append_right _ (List.mem_singleton_self _), path, hpath, hjp⟩

/-- `_resolve_joins` collects the only path to each target, and nothing else. -/
theorem resolveJoins_reached {targets : List Name}
    (h : C.resolveJoins base targets pinned = .ok hops) : Reached C base pinned targets hops := by
  have hloop : ∀ (rest done : List Name) (start : List JoinPath),
      Reached C base pinned done start →
        rest.foldlM (C.resolveStep base pinned) start = .ok hops →
          Reached C base pinned (done ++ rest) hops := by
    intro rest
    induction rest with
    | nil =>
      intro done start hstart h
      cases h
      rwa [List.append_nil]
    | cons target rest ih =>
      intro done start hstart h
      rw [List.foldlM_cons] at h
      obtain ⟨next, hnext, h⟩ := bind_eq_ok.mp h
      simpa using ih _ next (hstart.step hnext) h
  exact hloop targets [] [] ⟨nofun, nofun⟩ h

theorem mem_scopeTargets {targets : List Name}
    (h : C.scopeTargets req.orderedFilters req = .ok targets) (target : Name) :
    target ∈ targets ↔ Needs C req target := by
  obtain ⟨dims, hdims, h⟩ := bind_eq_ok.mp h
  obtain ⟨filters, hfilters, h⟩ := bind_eq_ok.mp h
  obtain ⟨range, hrange, h⟩ := bind_eq_ok.mp h
  cases h
  rw [mapM_eq_ok] at hdims hfilters hrange
  have hentity : ∀ {name entity : Name}, C.dimensionEntity name = .ok entity →
      ∃ d, C.defn.dimension? name = some d ∧ d.entity = entity := by
    intro name entity hname
    obtain ⟨d, hd, rfl⟩ := map_eq_ok.mp hname
    exact ⟨d, dimension_ok hd, rfl⟩
  have hunique : ∀ {name entity : Name} {d : Dimension}, C.dimensionEntity name = .ok entity →
      C.defn.dimension? name = some d → entity = d.entity := by
    intro name entity d hname hd
    obtain ⟨d', hd', rfl⟩ := hentity hname
    rw [hd] at hd'
    cases hd'
    rfl
  rw [mem_addAllNew_id]
  simp only [List.not_mem_nil, false_or, List.mem_append]
  constructor
  · rintro ((ht | ht) | ht)
    · obtain ⟨d, hd, hname⟩ := forall₂_right hdims ht
      exact ⟨d.name, .inl ⟨d, hd, rfl⟩, hentity hname⟩
    · obtain ⟨f, hf, hname⟩ := forall₂_right hfilters ht
      exact ⟨f.dimension, .inr (.inl ⟨f, (req.orderedFilters_perm.mem_iff).mp hf, rfl⟩),
        hentity hname⟩
    · obtain ⟨tr, htr, hname⟩ := forall₂_right hrange ht
      exact ⟨tr.dimension, .inr (.inr ⟨tr, by simpa using htr, rfl⟩), hentity hname⟩
  · rintro ⟨name, ⟨d, hd, rfl⟩ | ⟨f, hf, rfl⟩ | ⟨tr, htr, rfl⟩, dim, hdim, rfl⟩
    · obtain ⟨e, he, hname⟩ := forall₂_left hdims hd
      exact .inl (.inl (hunique hname hdim ▸ he))
    · obtain ⟨e, he, hname⟩ := forall₂_left hfilters ((req.orderedFilters_perm.mem_iff).mpr hf)
      exact .inl (.inr (hunique hname hdim ▸ he))
    · obtain ⟨e, he, hname⟩ := forall₂_left hrange (by simpa using htr)
      exact .inr (hunique hname hdim ▸ he)

/-- A FROM clause has left joins only when no way to what the request needs has another. -/
theorem Scope.allLeft_iff {before after : List Param} {range : Option ResolvedRange} {s : Select}
    (h : Scope C req.orderedFilters req dialect base hops before after range s) :
    s.source.AllLeft ↔ ¬ InnerJoined C req base := by
  obtain ⟨targets, htargets, hhops⟩ := h.targets
  have hreached := resolveJoins_reached hhops
  have hjoined := (fromSql_ok h.source).joined
  constructor
  · rintro hleft ⟨target, path, hneeds, hwalk, hsimple, jp, hjp, hinner⟩
    have hne : target ≠ base := by
      rintro rfl
      cases path with
      | nil => cases hjp
      | cons e es =>
        exact (List.nodup_cons.mp hsimple).1 (hwalk.target_mem (List.cons_ne_nil e es))
    obtain ⟨only, honly, hsub⟩ := hreached.path target
        ((mem_scopeTargets htargets target).mpr hneeds)
      hne
    have hpath : path ∈ C.pathsBetween base target req.joinPaths :=
      (mem_paths_self (C.edges_length req.joinPaths)).mpr ⟨hwalk, hsimple⟩
    rw [honly, List.mem_singleton] at hpath
    obtain ⟨hop, hhop, hof⟩ := forall₂_left hjoined (hsub (hpath ▸ hjp))
    exact hinner (hof.joinType ▸ hleft hop hhop)
  · intro hnot hop hhop
    obtain ⟨jp, hjp, hof⟩ := forall₂_right hjoined hhop
    obtain ⟨target, htarget, path, hpath, hmem⟩ := hreached.target jp hjp
    by_contra hinner
    obtain ⟨hwalk, hsimple⟩ := walk_of_pathsBetween (hpath ▸ List.mem_singleton_self path)
    exact hnot ⟨target, path, (mem_scopeTargets htargets target).mp htarget, hwalk, hsimple,
      jp, hmem,
      hof.joinType ▸ hinner⟩

/-! ## Values -/

variable {f : From} {owg : Option Name}

theorem FromOf.aliasTable_lookup (h : FromOf C base hops f)
    (htree : Tree JoinPath.fromEntity JoinPath.toEntity base hops) (name : Name) :
    f.aliasTable.lookup name = (aliasesOf base hops).lookup name := by
  have htable : f.aliasTable = (joinedEntities base hops).map fun n =>
      (n, aliasOf base hops n) := by
    rw [From.aliasTable, joinedEntities, List.map_cons, List.map_map, aliasOf_eq h.base_alias,
      (Definition.of_entity? h.base_entity).2, forall₂_map_eq h.joined fun jp hop hhop => by
        rw [(Definition.of_entity? hhop.entity).2, ← aliasOf_eq hhop.alias]]
    rfl
  have hlookup : ∀ l : List Name, (l.map fun n => (n, aliasOf base hops n)).lookup name =
      if name ∈ l then some (aliasOf base hops name) else none := by
    intro l
    induction l with
    | nil => rfl
    | cons n l ih =>
      by_cases hn : name = n
      · simp [hn]
      · rw [List.map_cons, List.lookup_cons, beq_false_of_ne hn, ih]
        simp [hn]
  rw [htable, hlookup]
  split
  · next hmem =>
    obtain ⟨a, ha⟩ := (aliasesOf_isSome htree).mpr hmem
    rw [ha, aliasOf_eq ha]
  · next hmem =>
    cases ha : (aliasesOf base hops).lookup name with
    | none => rfl
    | some a => exact absurd ((aliasesOf_isSome htree).mp ⟨a, ha⟩) hmem

/-- The text of a measure depends on what the aliases are, not on how they are listed. -/
theorem measureSql_congr {aliases aliases' : List (Name × Bytes)}
    (h : ∀ n, aliases.lookup n = aliases'.lookup n) (m : Measure) :
    C.measureSql m dialect aliases owg = C.measureSql m dialect aliases' owg := by
  have hcol : col aliases = col aliases' := by
    funext entity column
    rw [col, col, h]
  have hresolve : resolve aliases = resolve aliases' := by
    funext entity column
    rw [resolve, resolve, hcol]
  have hexpr : ∀ b, measureExpr b aliases = measureExpr b aliases' := by
    intro b
    simp only [measureExpr, exprSql, filteredSql, hresolve]
  have hagg : ∀ b, C.aggSql m b dialect aliases owg = C.aggSql m b dialect aliases' owg := by
    intro b
    funext expr
    simp only [aggSql, hcol]
  simp only [measureSql, hexpr, hagg]

section Values

variable {α : Type} [DecidableEq α] {W : Warehouse α} {tables : Tables α}

theorem eval_eq_baseAlone (hf : FromOf C base hops f)
    (htree : Tree JoinPath.fromEntity JoinPath.toEntity base hops)
    (hkeep : (f.rows W tables).map (· f.alias) = tables (datasetRef f.base)) {m : Measure}
    {b : BaseMeasure} (hkind : m.kind = .base b) (hbase : b.entity = base) {call : AggCall}
    (hcall : C.measureSql m dialect (aliasesOf base hops) owg = .ok call) :
    call.eval W (f.rows W tables) = C.baseAlone W tables f dialect owg m := by
  have halias : f.aliasTable.lookup base = some f.alias := by
    rw [hf.aliasTable_lookup htree, hf.base_alias]
  have hover : ∀ c ∈ aggColumns (.col call), c.alias = f.alias := by
    intro c hc
    obtain ⟨b', hkind', hcolumns⟩ := mem_columns_measureSql hcall
    rw [hkind] at hkind'
    cases hkind'
    have hc := ((hcolumns c).mp (by simpa [aggColumns, Expr.columns] using hc)).1
    rw [hbase, hf.base_alias] at hc
    exact (Option.some.inj hc).symm
  have hrows : (f.rows W tables).map (· f.alias) =
      (aloneRows tables f.base f.alias).map (· f.alias) := by
    rw [hkeep]
    simp [aloneRows, Function.comp_def, Joined.place]
  have hcall : C.measureSql m dialect f.aliasTable owg = .ok call :=
    (measureSql_congr (hf.aliasTable_lookup htree) m).trans hcall
  simp only [baseAlone, hkind, hbase, hf.base_entity, halias, Option.getD_some, hcall]
  exact aggValue_congr hrows hover

theorem aggValue_havingTarget (hf : FromOf C base hops f)
    (htree : Tree JoinPath.fromEntity JoinPath.toEntity base hops)
    (hkeep : (f.rows W tables).map (· f.alias) = tables (datasetRef f.base)) {name : Name}
    {m : Measure} (hm : C.defn.measure? name = some m) (hover : Over C base name)
    {e : Expr AggCall} (he : C.havingTarget dialect (aliasesOf base hops) owg m = .ok e) :
    aggValue W (f.rows W tables) e = C.measureAlone W tables f dialect owg m := by
  unfold havingTarget at he
  unfold measureAlone
  cases hkind : m.kind with
  | base b =>
    rw [hkind] at he
    obtain ⟨call, hcall, rfl⟩ := map_eq_ok.mp he
    exact eval_eq_baseAlone hf htree hkeep hkind (hover m b (.base hm hkind) hkind) hcall
  | derived d =>
    rw [hkind] at he
    rw [aggValue, (Expr.subst_spec he).2.2]
    refine Expr.eval_congr fun ref href => ?_
    obtain ⟨x, hx⟩ := Expr.subst_ok he href
    rw [resolvedValue, hx]
    obtain ⟨r, b, hr, hkindr, hx⟩ := havingRef_ok hx
    obtain ⟨call, hcall, rfl⟩ := map_eq_ok.mp hx
    rw [hr, Option.bind_some]
    exact eval_eq_baseAlone hf htree hkeep hkindr
      (hover r b (.derived hm hkind href (.base hr hkindr)) hkindr) hcall

end Values

/-! ## An instance without partners -/

/-- An engine over one value. -/
def unitEngine : Warehouse Unit where
  number _ := ()
  string _ := ()
  bool _ := ()
  bin _ _ _ := none
  call _ _ := none
  cast _ _ := none
  extract _ _ := none
  dateTrunc _ _ := none
  compare _ _ _ := false
  aggregate _ _ := none
  countAll _ := none
  first _ := none
  like _ _ := false
  param _ := none

/-- A row with a value in every column but one. -/
def gapRow (gap : Name) : Row Unit := fun column => if column = gap then none else some ()

/-- One such row in each dataset. -/
def gapTables (gap : Name) : Tables Unit := fun _ => [gapRow gap]

theorem gapRow_ne_nullRow (gap : Name) : gapRow gap ≠ nullRow := by
  intro heq
  have hnone : ∀ column : Name, column = gap := fun column => by
    by_contra hne
    simpa [gapRow, nullRow, hne] using congrFun heq column
  exact absurd ((hnone Shop.id).trans (hnone Shop.orders).symm) (by decide)

theorem toOne_gapTables (defn : Definition) (gap : Name) : ToOne unitEngine (gapTables gap) defn :=
  fun _ _ _ _ _ _ _ _ => (List.length_filter_le _ _).trans (Nat.le_refl 1)

variable {a : Bytes} {gap : Name}

theorem join_gapTables {hop : Hop} (hleft : hop.joinType = .left)
    (hgap : hop.alias = a → ∃ q ∈ hop.on, q.1.column = gap) {left : List (Joined Unit)}
    (hrows : ∀ w ∈ left, w a = nullRow ∧ ∀ b, w b gap = none) :
    ∀ w ∈ Hop.join unitEngine (gapTables gap) left hop, w a = nullRow ∧ ∀ b, w b gap = none := by
  intro w hw
  have hw : w ∈ Relation.leftJoin (fun w t =>
      onHolds unitEngine hop.on (Joined.place w hop.alias (some t)))
      (fun w o => Joined.place w hop.alias o) left (gapTables gap (datasetRef hop.entity)) := by
    rwa [Hop.join, hleft] at hw
  have hempty : ∀ {v : Joined Unit} {t : Row Unit} {b : Bytes}, v ∈ left → t gap = none →
      (v.place hop.alias (some t)) b gap = none := by
    intro v t b hv ht
    by_cases hb : b = hop.alias
    · rw [hb, Joined.place_self]
      exact ht
    · rw [Joined.place_ne v _ hb]
      exact (hrows v hv).2 b
  by_cases hsame : hop.alias = a
  · obtain ⟨v, hv, hw⟩ := List.mem_flatMap.mp hw
    have hnone : (gapTables gap (datasetRef hop.entity)).filter
        (fun t => onHolds unitEngine hop.on (v.place hop.alias (some t))) = [] := by
      refine List.filter_eq_nil_iff.mpr fun t ht => ?_
      obtain ⟨q, hq, hcolumn⟩ := hgap hsame
      rw [List.mem_singleton.mp ht, onHolds, Bool.not_eq_true, List.all_eq_false]
      refine ⟨q, hq, ?_⟩
      rw [Joined.col, hcolumn, hempty hv (if_pos rfl)]
      simp [Engine.cmp]
    rw [Relation.leftRows, hnone, List.mem_singleton] at hw
    refine ⟨by rw [hw, ← hsame, Joined.place_self]; rfl, fun b => ?_⟩
    rw [hw]
    by_cases hb : b = hop.alias
    · rw [hb, Joined.place_self]
      rfl
    · rw [Joined.place_ne v none hb]
      exact (hrows v hv).2 b
  · obtain ⟨v, hv, o, ho, rfl⟩ := Relation.mem_leftJoin hw
    refine ⟨by rw [Joined.place_ne v o (Ne.symm hsame), (hrows v hv).1], fun b => ?_⟩
    cases o with
    | none =>
      by_cases hb : b = hop.alias
      · rw [hb, Joined.place_self]
        rfl
      · rw [Joined.place_ne v none hb]
        exact (hrows v hv).2 b
    | some t =>
      exact hempty hv (by rw [List.mem_singleton.mp (ho t rfl)]; exact if_pos rfl)

theorem exists_rows_ne (hf : FromOf C base hops f) (hleft : f.AllLeft)
    (hnodup : f.aliases.Nodup) (hmem : a ∈ f.aliases) (hne : a ≠ f.alias) (ref : Bytes) :
    ∃ gap, (f.rows unitEngine (gapTables gap)).map (· a) ≠ gapTables gap ref := by
  obtain ⟨hop, hhop, rfl⟩ : ∃ hop ∈ f.hops, hop.alias = a := by
    rcases List.mem_cons.mp hmem with heq | hmem
    · exact absurd heq hne
    · exact List.mem_map.mp hmem
  obtain ⟨jp, -, hof⟩ := forall₂_right hf.joined hhop
  obtain ⟨b, -, hon⟩ := hof.on
  obtain ⟨p, hp⟩ := List.exists_mem_of_ne_nil _ jp.on_ne_nil
  refine ⟨p.1, fun heq => ?_⟩
  have hsame : ∀ hop' ∈ f.hops, hop'.alias = hop.alias → hop' = hop := fun hop' hhop' halias =>
    List.inj_on_of_nodup_map (List.nodup_cons.mp hnodup).2 hhop' hhop halias
  have hloop : ∀ (hs : List Hop) (left : List (Joined Unit)), hs ⊆ f.hops →
      (∀ w ∈ left, w hop.alias = nullRow ∧ ∀ b, w b p.1 = none) →
      ∀ w ∈ hs.foldl (Hop.join unitEngine (gapTables p.1)) left, w hop.alias = nullRow ∧
        ∀ b, w b p.1 = none := by
    intro hs
    induction hs with
    | nil => exact fun left _ hrows => hrows
    | cons h hs ih =>
      intro left hsub hrows
      have hh : h ∈ f.hops := hsub List.mem_cons_self
      refine ih _ (List.subset_of_cons_subset hsub)
        (join_gapTables (hleft h hh) (fun halias => ?_) hrows)
      rw [hsame h hh halias, hon]
      exact ⟨_, List.mem_map_of_mem hp, rfl⟩
  have hrow : gapRow p.1 ∈ (f.rows unitEngine (gapTables p.1)).map (· hop.alias) :=
    heq ▸ List.mem_singleton_self _
  obtain ⟨w, hw, hgap⟩ := List.mem_map.mp hrow
  refine gapRow_ne_nullRow p.1 (hgap ▸ (hloop f.hops _ (List.Subset.refl _) (fun w hw => ?_)
    w hw).1)
  obtain ⟨r, hr, rfl⟩ := List.mem_map.mp hw
  cases List.mem_singleton.mp hr
  refine ⟨Joined.place_ne _ _ hne, fun b => ?_⟩
  by_cases hb : b = f.alias
  · rw [hb, Joined.place_self]
    exact if_pos rfl
  · rw [Joined.place_ne _ _ hb]
    rfl

/-! ## Compiled queries -/

/-- A plan has one group when what is selected is over one entity. -/
theorem selectsFrom_iff {bases : List (Name × Name)} (h : BasesOf C req bases) :
    SelectsFrom C req base ↔ ∃ names, groupsOf bases = [(base, names)] := by
  constructor
  · rintro ⟨hover, metric, hmetric, m, b, hleaf, hkind⟩
    have hall : ∀ p ∈ bases, p.2 = base := by
      intro p hp
      obtain ⟨metric, hmetric, m, hleaf, hname⟩ :=
        (h.mem_iff p.1).mp (List.mem_map_of_mem (f := Prod.fst) hp)
      obtain ⟨m', b, hm', hkind, hentity⟩ := h.entity p hp
      rw [← hname, hleaf.measure.1] at hm'
      cases hm'
      rw [← hentity]
      exact hover metric hmetric m b hleaf hkind
    have hmem : ∀ entity, entity ∈ addAllNew id [] (bases.map Prod.snd) ↔ entity = base := by
      intro entity
      rw [mem_addAllNew_id, List.mem_map]
      constructor
      · rintro (hnone | ⟨p, hp, rfl⟩)
        · cases hnone
        · exact hall p hp
      · rintro rfl
        have hp := h.leaf hmetric hleaf hkind
        exact .inr ⟨_, hp, hall _ hp⟩
    have hone : addAllNew id [] (bases.map Prod.snd) = [base] :=
      List.perm_singleton.mp ((List.perm_ext_iff_of_nodup (nodup_addAllNew_id List.nodup_nil _)
        (List.nodup_singleton base)).mpr fun entity => by rw [hmem, List.mem_singleton])
    exact ⟨_, by rw [groupsOf, hone, List.map_singleton]⟩
  · rintro ⟨names, hgroups⟩
    have hover : ∀ metric ∈ req.metrics, Over C base metric := by
      intro metric hmetric m b hleaf hkind
      obtain ⟨g, hg, hentity, -⟩ := exists_groupsOf (h.leaf hmetric hleaf hkind)
      rw [hgroups, List.mem_singleton] at hg
      exact (hg ▸ hentity).symm
    have hentities := groupsOf_entities bases
    rw [hgroups, List.map_singleton] at hentities
    have hmem : base ∈ addAllNew id [] (bases.map Prod.snd) :=
      hentities ▸ List.mem_singleton_self base
    obtain ⟨p, hp, -⟩ :=
      List.mem_map.mp ((mem_addAllNew_id.mp hmem).resolve_left List.not_mem_nil)
    obtain ⟨metric, hmetric, m, hleaf, -⟩ :=
      (h.mem_iff p.1).mp (List.mem_map_of_mem (f := Prod.fst) hp)
    obtain ⟨b, hkind⟩ := hleaf.measure.2
    exact ⟨hover, metric, hmetric, m, b, hleaf, hkind⟩

/-- The joins of a compiled query keep the base of each measure, exactly when HAVING compares
measures of the entity that the request selects from. -/
theorem compile_joins_keep_base_iff {c : Compiled} (h : C.compile req dialect = .ok c) :
    KeepsBase C req dialect c.query ↔ HavingOverBase C req := by
  have hselected : KeepsBase C req dialect c.query ↔
      ∀ {α : Type} [DecidableEq α] (W : Warehouse α) (tables : Tables α), ToOne W tables C.defn →
        ∀ s having tail, c.query = .single s having tail → s.source.AllLeft →
          List.Forall₂ (HavingKept C W tables s.source dialect req.orderWithinGroup)
            req.having having := by
    obtain ⟨hscoped, hkept⟩ := compile_joins_keep_base h
    exact ⟨fun hkeeps _ _ W tables hone => (hkeeps.2 W tables hone).2,
      fun hhaving => ⟨hscoped, fun W tables hone => ⟨hkept W tables hone, hhaving W tables hone⟩⟩⟩
  rw [hselected]
  obtain ⟨bases, out, hbases, hplan, hquery, -⟩ := compileWith_ok h
  have hbases := bases_ok hbases
  rw [hquery]
  rcases plan_cases hplan with ⟨⟨base, names⟩, hgroup, hsingle⟩ | ⟨hlen, hmulti⟩
  · obtain ⟨s, having, tail, mid, hout, hscope, -, hhaving, -⟩ := compileSingle_ok hsingle
    have hfrom := fromSql_ok hscope.source
    have htree := hscope.tree.1
    have htargets := (havingClauses_ok hhaving).targets
    have hselects : SelectsFrom C req base := (selectsFrom_iff hbases).mpr ⟨names, hgroup⟩
    rw [hout]
    constructor
    · intro hkept base' hselects' hinner spec hspec m b hleaf hkind
      obtain ⟨names', hgroup'⟩ := (selectsFrom_iff hbases).mp hselects'
      obtain ⟨rfl, -⟩ := Prod.mk.inj (List.singleton_inj.mp (hgroup.symm.trans hgroup'))
      have hleft := hscope.allLeft_iff.mpr hinner
      by_contra hne
      have hrows : ∀ gap, ∃ e a, C.defn.entity? b.entity = some e ∧
          s.source.aliasTable.lookup b.entity = some a ∧
          (s.source.rows unitEngine (gapTables gap)).map (· a) = gapTables gap (datasetRef e) := by
        intro gap
        have hall := hkept unitEngine (gapTables gap)
            (toOne_gapTables C.defn gap) s having tail rfl hleft
        obtain ⟨clause, -, hclause⟩ := forall₂_left hall hspec
        exact hclause.rows m b hleaf hkind
      obtain ⟨e, a, he, ha, -⟩ := hrows base
      rw [hfrom.aliasTable_lookup htree] at ha
      have hother : a ≠ s.source.alias := by
        rintro rfl
        exact hne (aliasesOf_injective htree ha hfrom.base_alias)
      obtain ⟨gap, hgap⟩ := exists_rows_ne hfrom hleft (hfrom.wellScoped htree).aliases_nodup
        (hfrom.mem_aliases htree ha) hother (datasetRef e)
      obtain ⟨e', a', he', ha', heq⟩ := hrows gap
      rw [hfrom.aliasTable_lookup htree, ha] at ha'
      rw [he] at he'
      cases ha'
      cases he'
      exact hgap heq
    · intro hover α _ W tables hone s' having' tail' hsame hleft
      cases hsame
      have hkeep := hfrom.rows_base hone htree hscope.tree.2 hleft
      have hover := hover base hselects (hscope.allLeft_iff.mp hleft)
      have hmem : List.Forall₂ (fun spec (c : HavingClause AggCall) => spec ∈ req.having ∧ ∃ m,
          C.defn.measure? spec.metric = some m ∧ C.havingTarget dialect (aliasesOf base out.2.2.2)
            req.orderWithinGroup m = .ok c.target) req.having having :=
        List.forall₂_iff_zip.mpr ⟨htargets.length_eq, fun hzip =>
          ⟨(List.of_mem_zip hzip).1, (List.forall₂_iff_zip.mp htargets).2 hzip⟩⟩
      refine hmem.imp fun spec clause ⟨hspec, m, hm, he⟩ => ⟨fun m' b hleaf hkind => ?_,
        fun m' hm' => ?_⟩
      · refine ⟨s.source.base, s.source.alias, ?_, ?_, hkeep⟩
        · rw [hover spec hspec m' b hleaf hkind, hfrom.base_entity]
        · rw [hover spec hspec m' b hleaf hkind, hfrom.aliasTable_lookup htree, hfrom.base_alias]
      · rw [hm] at hm'
        cases hm'
        exact aggValue_havingTarget hfrom htree hkeep hm (hover spec hspec) he
  · obtain ⟨ctes, measures, having, tail, mid, hout, -⟩ := compileMulti_ok hmulti
    rw [hout]
    refine ⟨fun _ base hselects => ?_, fun _ _ _ _ _ _ _ _ _ hsame => nomatch hsame⟩
    obtain ⟨names, hgroup⟩ := (selectsFrom_iff hbases).mp hselects
    exact absurd (by rw [hgroup]; rfl) hlen

end Compiler

/-! ### In the shop -/

namespace Shop

def credit : Name := ⟨"credit", by decide⟩

/-- The shop, with the credit of its customers. -/
def creditDefn : Definition where
  entities := defn.entities
  dimensions := defn.dimensions
  measures := [measure revenue (ofAmounts orders .sum), measure credit (ofAmounts customers .sum)]
  joinPaths := defn.joinPaths
  entities_nodup := defn.entities_nodup
  dimensions_nodup := defn.dimensions_nodup
  measures_nodup := by decide
  joinPaths_nodup := defn.joinPaths_nodup

def creditDatasets (table : String) : Option Dataset :=
  if table = "customers" then some ⟨[("id", "bigint"), ("region", "bigint"), ("amount", "bigint")]⟩
  else datasets table

theorem validated_credit : Validated creditDefn creditDatasets := rfl

def creditCompiler : Compiler := { compiler with defn := creditDefn }

/-- The revenue by region, of regions where a measure is above 5. -/
def revenueHaving (metric : Name) : CompileRequest :=
  { byRegion [revenue] (by decide) with having := [⟨metric, .gt, .num (.int 5)⟩] }

/-- The second customer has two orders. -/
def creditTables (ref : Bytes) : List (Row Int) :=
  if ref = bytes "\x7b\x7bdataset('customers')\x7d\x7d" then
    [row [(id, 1), (region, 4), (amount, 50)], row [(id, 2), (region, 7), (amount, 60)]]
  else tables ref

theorem toOne_credit : ToOne warehouse creditTables creditDefn := by
  intro jp hjp e e' he he'
  rcases List.mem_pair.mp hjp with rfl | rfl
  · cases he
    cases he'
    decide
  · cases he
    cases he'
    decide

theorem keeps_base_revenue : ∃ c, creditCompiler.compile (revenueHaving revenue) .duckdb = .ok c ∧
    Compiler.KeepsBase creditCompiler (revenueHaving revenue) .duckdb c.query := by
  have h : creditCompiler.compile (revenueHaving revenue) .duckdb = .ok _ := rfl
  refine ⟨_, h, (Compiler.compile_joins_keep_base_iff h).mpr fun base hselects _ spec hspec => ?_⟩
  cases List.mem_singleton.mp hspec
  exact hselects.1 revenue (List.mem_singleton_self _)

/-- The credit of 110 is compared as 170. -/
theorem having_credit_fans_out : Validated creditDefn creditDatasets ∧
    ToOne warehouse creditTables creditDefn ∧ ∃ c s clause tail,
      creditCompiler.compile (revenueHaving credit) .duckdb = .ok c ∧
      c.query = .single s [clause] tail ∧ s.source.AllLeft ∧
      aggValue warehouse (s.source.rows warehouse creditTables) clause.target = some 170 ∧
      creditCompiler.measureAlone warehouse creditTables s.source .duckdb none
        (measure credit (ofAmounts customers .sum)) = some 110 ∧
      ¬ Compiler.KeepsBase creditCompiler (revenueHaving credit) .duckdb c.query := by
  refine ⟨validated_credit, toOne_credit, _, _, _, _, rfl, rfl, by unfold From.AllLeft; decide,
    by decide,
    by decide, fun hkeeps => ?_⟩
  obtain ⟨hclause, -⟩ := List.forall₂_cons.mp
    ((hkeeps.2 warehouse creditTables toOne_credit).2 _ _ _ rfl (by unfold From.AllLeft; decide))
  exact absurd (hclause.value _ rfl) (by decide)

end Shop

end Windrose.Semantic

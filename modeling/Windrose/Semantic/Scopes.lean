/-
  Semantic/Scopes.lean --- what a compile that succeeds has put together.

  One lemma for each function of the compiler says what its parts are: the columns that an
  expression refers to, the measures behind a derived measure (`Leaf`), and the parts of a
  SELECT (`Scope`).  Later modules use these and do not unfold the compiler.
-/
import Windrose.Semantic.Joins

set_option autoImplicit false

namespace Windrose.Semantic

open Windrose.Foundation

/-! ## Columns -/

section Columns

variable {aliases : List (Name × Bytes)} {entity : Name}

variable {c : ColRef}

theorem mem_resolvedColumns {n : Name} :
    c ∈ resolvedColumns (resolve aliases entity) n ↔
      aliases.lookup entity = some c.alias ∧ c.column = n := by
  unfold resolvedColumns resolve col
  cases h : aliases.lookup entity with
  | none => simp [Except.map]
  | some a =>
    obtain ⟨ca, cc⟩ := c
    simp [Except.map, Expr.columns, eq_comm]

theorem mem_columns_resolve {e : Expr Name} {e' : Expr ColRef}
    (h : e.subst (resolve aliases entity) = .ok e') :
    c ∈ e'.columns ↔ aliases.lookup entity = some c.alias ∧ c.column ∈ e.columns := by
  rw [(Expr.subst_spec h).2.1, List.mem_flatMap]
  simp [mem_resolvedColumns, and_comm]

theorem mem_columns_resolve_cond {e : Cond Name} {e' : Cond ColRef}
    (h : e.subst (resolve aliases entity) = .ok e') :
    c ∈ e'.columns ↔ aliases.lookup entity = some c.alias ∧ c.column ∈ e.columns := by
  rw [(Cond.subst_spec h).2.1, List.mem_flatMap]
  simp [mem_resolvedColumns, and_comm]

theorem col_eq_ok {column : Name} (h : col aliases entity column = .ok c) :
    aliases.lookup entity = some c.alias ∧ c.column = column := by
  unfold col at h
  split at h
  · cases h
  · next a ha =>
    cases h
    exact ⟨ha, rfl⟩

theorem resolve_eq_ok {column : Name} {e : Expr ColRef}
    (h : resolve aliases entity column = .ok e) :
    ∃ c, col aliases entity column = .ok c ∧ e = .col c := by
  obtain ⟨c, hc, rfl⟩ := map_eq_ok.mp h
  exact ⟨c, hc, rfl⟩

theorem dimSql_ok {dim : Dimension} {grain : Option TimeGrain} {e : Expr ColRef}
    (h : dimSql dim grain aliases = .ok e) :
    ∃ inner, sourceSql aliases dim.entity dim.source = .ok inner ∧ e = truncated inner grain := by
  obtain ⟨u, -, h⟩ := bind_eq_ok.mp h
  obtain ⟨inner, hinner, h⟩ := bind_eq_ok.mp h
  cases h
  exact ⟨inner, hinner, rfl⟩

theorem mem_columns_sourceSql {source : DimSource} {e : Expr ColRef}
    (h : sourceSql aliases entity source = .ok e) :
    c ∈ e.columns ↔ aliases.lookup entity = some c.alias ∧ c.column ∈ source.columns := by
  cases source with
  | column n =>
    obtain ⟨c', hc', rfl⟩ := resolve_eq_ok h
    obtain ⟨halias, hcolumn⟩ := col_eq_ok hc'
    obtain ⟨ca, cc⟩ := c
    obtain ⟨ca', cc'⟩ := c'
    subst hcolumn
    simp [Expr.columns, DimSource.columns, halias, eq_comm]
  | expr ast => exact mem_columns_resolve h

theorem mem_columns_dimSql {dim : Dimension} {grain : Option TimeGrain} {e : Expr ColRef}
    (h : dimSql dim grain aliases = .ok e) :
    c ∈ e.columns ↔ aliases.lookup dim.entity = some c.alias ∧ c.column ∈ dim.source.columns := by
  obtain ⟨inner, hinner, rfl⟩ := dimSql_ok h
  cases grain with
  | none => exact mem_columns_sourceSql hinner
  | some g => exact mem_columns_sourceSql (e := inner) hinner

theorem mem_columns_exprSql {e : Option (Expr Name)} {e' : Option (Expr ColRef)}
    (h : exprSql aliases entity e = .ok e') : c ∈ (e'.map Expr.columns).getD [] ↔
      aliases.lookup entity = some c.alias ∧ c.column ∈ (e.map Expr.columns).getD [] := by
  cases e with
  | none =>
    cases h
    simp
  | some x =>
    obtain ⟨y, hy, rfl⟩ := map_eq_ok.mp h
    simpa using mem_columns_resolve hy

theorem mem_columns_measureExpr {b : BaseMeasure} {e : Option (Expr ColRef)}
    (h : measureExpr b aliases = .ok e) :
    c ∈ (e.map Expr.columns).getD [] ↔ aliases.lookup b.entity = some c.alias ∧
      c.column ∈ b.columns := by
  obtain ⟨expr, hexpr, h⟩ := bind_eq_ok.mp h
  have hleft := mem_columns_exprSql hexpr (c := c)
  cases hf : b.filters with
  | none =>
    rw [hf] at h
    cases h
    simpa [BaseMeasure.columns, hf] using hleft
  | some p =>
    rw [hf] at h
    obtain ⟨q, hq, rfl⟩ := map_eq_ok.mp h
    have hgetD : c ∈ (expr.getD one).columns ↔ c ∈ (expr.map Expr.columns).getD [] := by
      cases expr with
      | none => simp [one, Expr.columns]
      | some x => rfl
    simp only [Option.map_some, Option.getD_some, Expr.columns, Branches.columns,
      List.append_nil, List.mem_append, mem_columns_resolve_cond hq, hgetD, hleft,
      BaseMeasure.columns, hf]
    rw [← and_or_left, or_comm]

end Columns

namespace Compiler

variable {C : Compiler}

/-- The column that `first` is ordered by. -/
def orderColumn (C : Compiler) (b : BaseMeasure) (owg : Option Name) : Option Name :=
  if b.agg = .first then owg <|> (C.defn.entity? b.entity).bind fun e => e.primaryKey.head?
  else none

variable {m : Measure} {b : BaseMeasure} {owg : Option Name}

theorem firstOrder_ok {order : Name}
    (h : C.firstOrder m b owg = .ok order) (hagg : b.agg = .first) :
    C.orderColumn b owg = some order := by
  unfold firstOrder at h
  split at h
  · cases h
  · next entity hentity =>
    split at h
    · cases h
    · next order' horder =>
      cases h
      rw [orderColumn, if_pos hagg, hentity]
      exact horder

variable {aliases : List (Name × Bytes)}

variable {dialect : Dialect}

theorem mem_columns_aggSql {expr : Option (Expr ColRef)}
    {call : AggCall} (h : C.aggSql m b dialect aliases owg expr = .ok call) {c : ColRef} :
    c ∈ call.columns ↔ c ∈ (expr.map Expr.columns).getD [] ∨
      aliases.lookup b.entity = some c.alias ∧ C.orderColumn b owg = some c.column := by
  cases expr with
  | none =>
    simp only [aggSql] at h
    split at h
    · next hagg =>
      cases h
      simp [AggCall.columns, orderColumn, hagg]
    · cases h
  | some e =>
    simp only [aggSql] at h
    cases hagg : b.agg with
    | first =>
      simp only [hagg] at h
      obtain ⟨order, horder, h⟩ := bind_eq_ok.mp h
      obtain ⟨o, ho, h⟩ := bind_eq_ok.mp h
      obtain ⟨t, -, h⟩ := bind_eq_ok.mp h
      cases h
      obtain ⟨halias, rfl⟩ := col_eq_ok ho
      rw [firstOrder_ok horder hagg, halias]
      obtain ⟨ca, cc⟩ := c
      obtain ⟨oa, oc⟩ := o
      simp [AggCall.columns, eq_comm]
    | _ =>
      simp only [hagg] at h
      cases h
      simp [AggCall.columns, orderColumn, hagg]

theorem mem_columns_measureSql
    {call : AggCall} (h : C.measureSql m dialect aliases owg = .ok call) :
    ∃ b, m.kind = .base b ∧ ∀ c, c ∈ call.columns ↔ aliases.lookup b.entity = some c.alias ∧
      (c.column ∈ b.columns ∨ C.orderColumn b owg = some c.column) := by
  unfold measureSql at h
  cases hkind : m.kind with
  | derived d =>
    rw [hkind] at h
    cases h
  | base b =>
    rw [hkind] at h
    obtain ⟨expr, hexpr, h⟩ := bind_eq_ok.mp h
    refine ⟨b, rfl, fun c => ?_⟩
    rw [mem_columns_aggSql h, mem_columns_measureExpr hexpr, and_or_left]

/-! ## The measures behind a measure -/

/-- A base measure that a measure is made of. -/
inductive Leaf (C : Compiler) : Name → Measure → Prop where
  | base {name : Name} {m : Measure} {b : BaseMeasure} (hm : C.defn.measure? name = some m)
      (hkind : m.kind = .base b) : Leaf C name m
  | derived {name ref : Name} {m leaf : Measure} {d : DerivedMeasure}
      (hm : C.defn.measure? name = some m) (hkind : m.kind = .derived d)
      (href : ref ∈ d.exprMetric.columns) (hleaf : Leaf C ref leaf) : Leaf C name leaf

variable {name : Name}

theorem Leaf.measure (h : Leaf C name m) :
    C.defn.measure? m.name = some m ∧ ∃ b, m.kind = .base b := by
  induction h with
  | base hm hkind => exact ⟨by rw [(Definition.of_measure? hm).2, hm], _, hkind⟩
  | derived _ _ _ _ ih => exact ih

theorem leaf_base_iff {m leaf : Measure}
    (hm : C.defn.measure? name = some m) (hkind : m.kind = .base b) :
    Leaf C name leaf ↔ leaf = m := by
  constructor
  · rintro (⟨hm', -⟩ | ⟨hm', hkind', -, -⟩)
    · exact Option.some.inj (hm'.symm.trans hm)
    · rw [hm] at hm'
      cases hm'
      rw [hkind] at hkind'
      cases hkind'
  · rintro rfl
    exact .base hm hkind

theorem leaf_derived_iff {m leaf : Measure} {d : DerivedMeasure}
    (hm : C.defn.measure? name = some m) (hkind : m.kind = .derived d) :
    Leaf C name leaf ↔ ∃ ref ∈ d.exprMetric.columns, Leaf C ref leaf := by
  constructor
  · rintro (⟨hm', hkind'⟩ | ⟨hm', hkind', href, hleaf⟩)
    · rw [hm] at hm'
      cases hm'
      rw [hkind] at hkind'
      cases hkind'
    · rw [hm] at hm'
      cases hm'
      rw [hkind] at hkind'
      cases hkind'
      exact ⟨_, href, hleaf⟩
  · rintro ⟨ref, href, hleaf⟩
    exact .derived hm hkind href hleaf

theorem measure_ok (h : C.measure name = .ok m) : C.defn.measure? name = some m := by
  unfold measure at h
  split at h
  · cases h
  · next m' hm =>
    split at h
    · cases h
    · cases h
      exact hm

theorem dimension_ok {d : Dimension} (h : C.dimension name = .ok d) :
    C.defn.dimension? name = some d := by
  unfold dimension at h
  split at h
  · cases h
  · next d' hd =>
    split at h
    · cases h
    · cases h
      exact hd

variable {fuel : Nat}

/-- `_base_measures` returns the names of the base measures that a measure is made of. -/
theorem mem_baseMeasures {seen : List Name} {out : List Name}
    (h : C.baseMeasures fuel seen name = .ok out) (n : Name) :
    n ∈ out ↔ ∃ m, Leaf C name m ∧ m.name = n := by
  induction fuel generalizing seen name out with
  | zero => cases h
  | succ fuel ih =>
    unfold baseMeasures at h
    split at h
    · cases h
    · obtain ⟨m, hm, h⟩ := bind_eq_ok.mp h
      have hm := measure_ok hm
      cases hkind : m.kind with
      | base b =>
        rw [hkind] at h
        cases h
        simp [leaf_base_iff hm hkind, (Definition.of_measure? hm).2, eq_comm]
      | derived d =>
        simp only [hkind] at h
        obtain ⟨parts, hparts, h⟩ := bind_eq_ok.mp h
        rw [mapM_eq_ok] at hparts
        split at h
        · cases h
        · cases h
          simp only [mem_addAllNew_id, List.not_mem_nil, false_or, List.mem_flatten,
            leaf_derived_iff hm hkind]
          constructor
          · rintro ⟨part, hpart, hn⟩
            obtain ⟨ref, href, hok⟩ := forall₂_right hparts hpart
            obtain ⟨leaf, hleaf, hname⟩ := (ih hok).mp hn
            exact ⟨leaf, ⟨ref, mem_sortedColumns.mp href, hleaf⟩, hname⟩
          · rintro ⟨leaf, ⟨ref, href, hleaf⟩, hname⟩
            obtain ⟨part, hpart, hok⟩ := forall₂_left hparts (mem_sortedColumns.mpr href)
            exact ⟨part, hpart, (ih hok).mpr ⟨leaf, hleaf, hname⟩⟩

theorem metricExpr_leaf_ok {τ : Type} {leaf : Measure → Except Exn (Expr τ)}
    {e : Expr τ} (h : C.metricExpr leaf fuel name = .ok e)
    (hleaf : Leaf C name m) : ∃ x, leaf m = .ok x := by
  induction hleaf generalizing fuel e with
  | base hm hkind =>
    cases fuel with
    | zero => cases h
    | succ fuel =>
      simp only [metricExpr, hm, hkind] at h
      exact ⟨e, h⟩
  | derived hm hkind href _ ih =>
    cases fuel with
    | zero => cases h
    | succ fuel =>
      simp only [metricExpr, hm, hkind] at h
      obtain ⟨x, hx⟩ := Expr.subst_ok h href
      exact ih hx

theorem mem_columns_metricExpr {τ : Type} {leaf : Measure → Except Exn (Expr τ)}
    {e : Expr τ} (h : C.metricExpr leaf fuel name = .ok e) (c : τ) :
    c ∈ e.columns ↔ ∃ m x, Leaf C name m ∧ leaf m = .ok x ∧ c ∈ x.columns := by
  induction fuel generalizing name e with
  | zero => cases h
  | succ fuel ih =>
    unfold metricExpr at h
    split at h
    · cases h
    · next m hm =>
      cases hkind : m.kind with
      | base b =>
        rw [hkind] at h
        simp [leaf_base_iff hm hkind, h]
      | derived d =>
        rw [hkind] at h
        rw [(Expr.subst_spec h).2.1, List.mem_flatMap]
        simp only [leaf_derived_iff hm hkind]
        constructor
        · rintro ⟨ref, href, hc⟩
          unfold resolvedColumns at hc
          split at hc
          · next x hx =>
            obtain ⟨l, y, hl, hy, hcy⟩ := (ih hx).mp hc
            exact ⟨l, y, ⟨ref, href, hl⟩, hy, hcy⟩
          · cases hc
        · rintro ⟨l, y, ⟨ref, href, hl⟩, hy, hcy⟩
          obtain ⟨x, hx⟩ := Expr.subst_ok h href
          refine ⟨ref, href, ?_⟩
          rw [resolvedColumns, hx]
          exact (ih hx).mpr ⟨l, y, hl, hy, hcy⟩

/-! ## Scopes -/

/-- What `_from_sql` makes of a hop. -/
structure HopOf (C : Compiler) (aliases : List (Name × Bytes)) (jp : JoinPath) (h : Hop) :
    Prop where
  joinType : h.joinType = jp.joinType
  entity : C.defn.entity? jp.toEntity = some h.entity
  «alias» : aliases.lookup jp.toEntity = some h.alias
  on : ∃ a, aliases.lookup jp.fromEntity = some a ∧
    h.on = jp.on.map fun p => (⟨a, p.1⟩, ⟨h.alias, p.2⟩)

theorem hop_ok {jp : JoinPath} {h : Hop}
    (hok : C.hop aliases jp = .ok h) : HopOf C aliases jp h := by
  obtain ⟨entity, hentity, hok⟩ := bind_eq_ok.mp hok
  obtain ⟨on, hon, hok⟩ := bind_eq_ok.mp hok
  obtain ⟨a, ha, hok⟩ := bind_eq_ok.mp hok
  cases hok
  rw [getKey_eq_ok] at hentity ha
  rw [mapM_eq_ok] at hon
  refine ⟨rfl, hentity, ha, ?_⟩
  have hpair : ∀ p q, onSql aliases jp p = .ok q →
      ∃ b, aliases.lookup jp.fromEntity = some b ∧ q = (⟨b, p.1⟩, ⟨a, p.2⟩) := by
    intro p q hq
    obtain ⟨c, hc, hq⟩ := bind_eq_ok.mp hq
    obtain ⟨c', hc', hq⟩ := bind_eq_ok.mp hq
    cases hq
    obtain ⟨ca, cc⟩ := c
    obtain ⟨ca', cc'⟩ := c'
    obtain ⟨hleft, hcolumn⟩ := col_eq_ok hc
    obtain ⟨hright, hcolumn'⟩ := col_eq_ok hc'
    rw [ha] at hright
    cases hright
    exact ⟨ca, hleft, by rw [← hcolumn, ← hcolumn']⟩
  have hall : ∀ (ps : List (Name × Name)) (qs : List (ColRef × ColRef)) (b : Bytes),
      aliases.lookup jp.fromEntity = some b →
      List.Forall₂ (fun p q => onSql aliases jp p = .ok q) ps qs →
      qs = ps.map fun p => (⟨b, p.1⟩, ⟨a, p.2⟩) := by
    intro ps qs b hb hqs
    induction hqs with
    | nil => rfl
    | cons hq _ ih =>
      obtain ⟨b', hb', rfl⟩ := hpair _ _ hq
      rw [hb] at hb'
      cases hb'
      rw [List.map_cons, ih]
  obtain ⟨p, hp⟩ := List.exists_mem_of_ne_nil _ jp.on_ne_nil
  obtain ⟨q, -, hq⟩ := forall₂_left hon hp
  obtain ⟨b, hb, -⟩ := hpair p q hq
  exact ⟨b, hb, hall jp.on on b hb hon⟩

/-- What `_from_sql` returns. -/
structure FromOf (C : Compiler) (base : Name) (hops : List JoinPath) (f : From) : Prop where
  base_entity : C.defn.entity? base = some f.base
  base_alias : (aliasesOf base hops).lookup base = some f.alias
  joined : List.Forall₂ (HopOf C (aliasesOf base hops)) hops f.hops

variable {hops : List JoinPath}

variable {base : Name}

theorem fromSql_ok {f : From}
    (h : C.fromSql base hops (aliasesOf base hops) = .ok f) : FromOf C base hops f := by
  obtain ⟨entity, hentity, h⟩ := bind_eq_ok.mp h
  obtain ⟨a, ha, h⟩ := bind_eq_ok.mp h
  obtain ⟨hs, hhops, h⟩ := bind_eq_ok.mp h
  cases h
  exact ⟨getKey_eq_ok.mp hentity, getKey_eq_ok.mp ha,
    (mapM_eq_ok.mp hhops).imp fun _ _ hhop => hop_ok hhop⟩

/-- The parts of a SELECT over tables, its measures apart. -/
structure Scope (C : Compiler) (ordered : List FilterSpec) (req : CompileRequest)
    (dialect : Dialect)
    (base : Name) (hops : List JoinPath) (before after : List Param) (range : Option ResolvedRange)
    (s : Select) : Prop where
  targets : ∃ targets, C.scopeTargets ordered req = .ok targets ∧
    C.resolveJoins base targets req.joinPaths = .ok hops
  dims : C.dimItems req (aliasesOf base hops) = .ok s.dims
  filters : C.whereSql ordered req (aliasesOf base hops) before = .ok (s.filters, after, range)
  groupBy : C.groupBySql req dialect (aliasesOf base hops) = .ok s.groupBy
  source : C.fromSql base hops (aliasesOf base hops) = .ok s.source

variable {ordered : List FilterSpec} {req : CompileRequest}

theorem Scope.tree {before after : List Param} {range : Option ResolvedRange}
    {s : Select} (h : Scope C ordered req dialect base hops before after range s) :
    Tree JoinPath.fromEntity JoinPath.toEntity base hops ∧ ∀ jp ∈ hops, jp ∈ C.defn.joinPaths := by
  obtain ⟨targets, -, hhops⟩ := h.targets
  exact resolveJoins_tree hhops

theorem scopeParts_ok {scope : ScopeParts} (h : C.scopeParts ordered req base = .ok scope) :
    (∃ targets, C.scopeTargets ordered req = .ok targets ∧
      C.resolveJoins base targets req.joinPaths = .ok scope.hops) ∧
      scope.aliases = aliasesOf base scope.hops := by
  obtain ⟨targets, htargets, h⟩ := bind_eq_ok.mp h
  obtain ⟨hops, hhops, h⟩ := bind_eq_ok.mp h
  cases h
  exact ⟨⟨targets, htargets, hhops⟩, rfl⟩

variable {out : Query × List Param × Option ResolvedRange × List JoinPath}

theorem compileSingle_ok (h : C.compileSingle ordered req dialect base = .ok out) :
    ∃ s having tail mid, out.1 = .single s having tail ∧
      Scope C ordered req dialect base out.2.2.2 [] mid out.2.2.1 s ∧
      C.metricItems (C.aggLeaf dialect (aliasesOf base out.2.2.2) req.orderWithinGroup)
        req.metrics =
        .ok s.measures ∧
      C.havingClauses (C.havingTarget dialect (aliasesOf base out.2.2.2) req.orderWithinGroup)
        req.having mid = .ok (having, out.2.1) ∧
      C.orderLimit req = .ok tail := by
  obtain ⟨scope, hscope, h⟩ := bind_eq_ok.mp h
  obtain ⟨dims, hdims, h⟩ := bind_eq_ok.mp h
  obtain ⟨measures, hmeasures, h⟩ := bind_eq_ok.mp h
  obtain ⟨filters, hfilters, h⟩ := bind_eq_ok.mp h
  obtain ⟨groupBy, hgroupBy, h⟩ := bind_eq_ok.mp h
  obtain ⟨having, hhaving, h⟩ := bind_eq_ok.mp h
  obtain ⟨tail, htail, h⟩ := bind_eq_ok.mp h
  obtain ⟨source, hsource, h⟩ := bind_eq_ok.mp h
  obtain ⟨htargets, haliases⟩ := scopeParts_ok hscope
  rw [haliases] at hdims hmeasures hfilters hgroupBy hhaving hsource
  cases h
  exact ⟨_, _, _, _, rfl, ⟨htargets, hdims, hfilters, hgroupBy, hsource⟩, hmeasures, hhaving, htail⟩

theorem compileGroup_ok {group : Name × List Name} {before : List Param}
    {out : Select × List Param × Option ResolvedRange × List JoinPath}
    (h : C.compileGroup ordered req dialect group before = .ok out) :
    Scope C ordered req dialect group.1 out.2.2.2 before out.2.1 out.2.2.1 out.1 ∧
      group.2.mapM (C.groupItem dialect (aliasesOf group.1 out.2.2.2) req.orderWithinGroup) =
        .ok out.1.measures := by
  obtain ⟨scope, hscope, h⟩ := bind_eq_ok.mp h
  obtain ⟨dims, hdims, h⟩ := bind_eq_ok.mp h
  obtain ⟨measures, hmeasures, h⟩ := bind_eq_ok.mp h
  obtain ⟨filters, hfilters, h⟩ := bind_eq_ok.mp h
  obtain ⟨groupBy, hgroupBy, h⟩ := bind_eq_ok.mp h
  obtain ⟨source, hsource, h⟩ := bind_eq_ok.mp h
  obtain ⟨htargets, haliases⟩ := scopeParts_ok hscope
  rw [haliases] at hdims hmeasures hfilters hgroupBy hsource
  cases h
  exact ⟨⟨htargets, hdims, hfilters, hgroupBy, hsource⟩, hmeasures⟩

/-- The SELECTs of the groups, one after the other; each binds its parameters after those
of the groups before it. -/
inductive GroupsOf (C : Compiler) (ordered : List FilterSpec) (req : CompileRequest)
    (dialect : Dialect) : List (Name × List Name) → List Param → List Select → List Param →
      Prop where
  | nil {params : List Param} : GroupsOf C ordered req dialect [] params [] params
  | cons {group : Name × List Name} {groups : List (Name × List Name)}
      {before mid after : List Param} {range : Option ResolvedRange} {hops : List JoinPath}
      {s : Select} {ss : List Select}
      (hscope : Scope C ordered req dialect group.1 hops before mid range s)
      (hmeasures : group.2.mapM
        (C.groupItem dialect (aliasesOf group.1 hops) req.orderWithinGroup) = .ok s.measures)
      (hrest : GroupsOf C ordered req dialect groups mid ss after) :
      GroupsOf C ordered req dialect (group :: groups) before (s :: ss) after

variable {groups : List (Name × List Name)}

theorem compileGroups_ok {before : List Param} {range : Option ResolvedRange}
    {out : List Select × List Param × Option ResolvedRange × List JoinPath}
    (h : C.compileGroups ordered req dialect groups before range hops = .ok out) :
    GroupsOf C ordered req dialect groups before out.1 out.2.1 := by
  induction groups generalizing before range hops out with
  | nil =>
    cases h
    exact .nil
  | cons group groups ih =>
    obtain ⟨own, hown, h⟩ := bind_eq_ok.mp h
    obtain ⟨rest, hrest, h⟩ := bind_eq_ok.mp h
    cases h
    obtain ⟨hscope, hmeasures⟩ := compileGroup_ok hown
    exact .cons hscope hmeasures (ih hrest)

theorem GroupsOf.length {before after : List Param} {ss : List Select}
    (h : GroupsOf C ordered req dialect groups before ss after) : ss.length = groups.length := by
  induction h with
  | nil => rfl
  | cons _ _ _ ih => rw [List.length_cons, List.length_cons, ih]

theorem compileMulti_ok
    (h : C.compileMulti ordered req dialect groups = .ok out) : ∃ ctes measures having tail mid,
      out.1 = .multi ctes ⟨outerDims req groups.length, measures,
        cteJoins req groups.length, having⟩
        tail ∧
      GroupsOf C ordered req dialect groups [] ctes mid ∧
      C.metricItems (cteLeaf groups) req.metrics = .ok measures ∧
      C.havingClauses (fun m => C.metricExpr (cteLeaf groups) C.depth m.name) req.having mid =
        .ok (having, out.2.1) ∧
      C.orderLimit req = .ok tail := by
  obtain ⟨ctes, hctes, h⟩ := bind_eq_ok.mp h
  obtain ⟨measures, hmeasures, h⟩ := bind_eq_ok.mp h
  obtain ⟨having, hhaving, h⟩ := bind_eq_ok.mp h
  obtain ⟨tail, htail, h⟩ := bind_eq_ok.mp h
  cases h
  exact ⟨_, _, _, _, _, rfl, compileGroups_ok hctes, hmeasures, hhaving, htail⟩

/-! ## Groups -/

/-- The base measures of a request, each with its entity. -/
structure BasesOf (C : Compiler) (req : CompileRequest) (bases : List (Name × Name)) : Prop where
  nodup : (bases.map Prod.fst).Nodup
  mem_iff : ∀ n, n ∈ bases.map Prod.fst ↔ ∃ metric ∈ req.metrics, ∃ m, Leaf C metric m ∧ m.name = n
  entity : ∀ p ∈ bases, ∃ m b, C.defn.measure? p.1 = some m ∧ m.kind = .base b ∧ b.entity = p.2

theorem entityOf_ok {name entity : Name} (h : C.entityOf name = .ok entity) :
    ∃ m b, C.defn.measure? name = some m ∧ m.kind = .base b ∧ b.entity = entity := by
  unfold entityOf at h
  cases hm : C.defn.measure? name with
  | none =>
    rw [hm] at h
    cases h
  | some m =>
    rw [hm] at h
    cases hkind : m.kind with
    | derived d =>
      simp only [Option.map_some, hkind] at h
      cases h
    | base b =>
      simp only [Option.map_some, hkind] at h
      cases h
      exact ⟨m, b, rfl, hkind, rfl⟩

variable {bases : List (Name × Name)}

theorem bases_ok (h : C.bases req = .ok bases) : BasesOf C req bases := by
  obtain ⟨parts, hparts, hnamed⟩ := bind_eq_ok.mp h
  clear h
  rw [mapM_eq_ok] at hparts hnamed
  have hfst : bases.map Prod.fst = addAllNew id [] parts.flatten := by
    generalize addAllNew id [] parts.flatten = names at hnamed
    induction hnamed with
    | nil => rfl
    | cons hp _ ih =>
      obtain ⟨entity, -, rfl⟩ := map_eq_ok.mp hp
      rw [List.map_cons, ih]
  refine ⟨?_, fun n => ?_, fun p hp => ?_⟩
  · rw [hfst]
    exact nodup_addAllNew_id List.nodup_nil _
  · rw [hfst]
    simp only [mem_addAllNew_id, List.not_mem_nil, false_or, List.mem_flatten]
    constructor
    · rintro ⟨part, hpart, hn⟩
      obtain ⟨metric, hmetric, hok⟩ := forall₂_right hparts hpart
      exact ⟨metric, hmetric, (mem_baseMeasures hok n).mp hn⟩
    · rintro ⟨metric, hmetric, hleaf⟩
      obtain ⟨part, hpart, hok⟩ := forall₂_left hparts hmetric
      exact ⟨part, hpart, (mem_baseMeasures hok n).mpr hleaf⟩
  · obtain ⟨name, -, hok⟩ := forall₂_right hnamed hp
    obtain ⟨entity, hentity, rfl⟩ := map_eq_ok.mp hok
    exact entityOf_ok hentity

theorem groupsOf_entities (bases : List (Name × Name)) :
    (groupsOf bases).map Prod.fst = addAllNew id [] (bases.map Prod.snd) := by
  simp [groupsOf, Function.comp_def]

theorem groupsOf_nodup (bases : List (Name × Name)) : ((groupsOf bases).map Prod.fst).Nodup := by
  rw [groupsOf_entities]
  exact nodup_addAllNew_id List.nodup_nil _

theorem mem_groupsOf {g : Name × List Name} (h : g ∈ groupsOf bases) :
    g.2 = (bases.filter fun b => b.2 = g.1).map Prod.fst := by
  obtain ⟨entity, -, rfl⟩ := List.mem_map.mp h
  rfl

theorem mem_of_mem_groupsOf {g : Name × List Name}
    (h : g ∈ groupsOf bases) {n : Name} : n ∈ g.2 ↔ (n, g.1) ∈ bases := by
  rw [mem_groupsOf h]
  simp

theorem exists_groupsOf {p : Name × Name} (h : p ∈ bases) :
    ∃ g ∈ groupsOf bases, g.1 = p.2 ∧ p.1 ∈ g.2 := by
  refine ⟨(p.2, (bases.filter fun b => b.2 = p.2).map Prod.fst), ?_, rfl, ?_⟩
  · exact List.mem_map.mpr ⟨p.2, mem_addAllNew_id.mpr (.inr (List.mem_map_of_mem h)), rfl⟩
  · exact List.mem_map.mpr ⟨p, List.mem_filter.mpr ⟨h, by simp⟩, rfl⟩

theorem compileWith_ok {c : Compiled} (h : C.compileWith ordered req dialect = .ok c) :
    ∃ bases out, C.bases req = .ok bases ∧
      C.plan ordered req dialect (groupsOf bases) = .ok out ∧ c.query = out.1 ∧ c.params = out.2.1 ∧
      c.timeRangeResolved = out.2.2.1 ∧ c.dialect = dialect := by
  obtain ⟨requested, hrequested, h⟩ := bind_eq_ok.mp h
  obtain ⟨bases, hbases, h⟩ := bind_eq_ok.mp h
  obtain ⟨dims, hdims, h⟩ := bind_eq_ok.mp h
  obtain ⟨out, hout, h⟩ := bind_eq_ok.mp h
  cases h
  exact ⟨bases, out, hbases, hout, rfl, rfl, rfl, rfl⟩

theorem plan_cases (h : C.plan ordered req dialect groups = .ok out) :
    (∃ group, groups = [group] ∧ C.compileSingle ordered req dialect group.1 = .ok out) ∨
      groups.length ≠ 1 ∧ C.compileMulti ordered req dialect groups = .ok out := by
  unfold plan at h
  split at h
  · next group => exact .inl ⟨group, rfl, h⟩
  · next hne =>
    refine .inr ⟨fun hlen => ?_, h⟩
    obtain ⟨group, rfl⟩ := List.length_eq_one_iff.mp hlen
    exact hne group rfl

end Compiler

end Windrose.Semantic

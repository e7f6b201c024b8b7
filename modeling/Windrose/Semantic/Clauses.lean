/-
  Semantic/Clauses.lean --- the clauses of a SELECT and the columns in them.

  Source: services/semantic-service/app/compiler/compiler.py (_dim_sql, _where_sql,
  _having_sql, _group_by).

  A clause of WHERE binds its values after those of the clauses before it (`WhereOf`), and
  so does one of HAVING (`HavingOf`).  Every column of a SELECT is one that the definition
  names (`Named`), except the column of the request that orders `first`.
-/
import Windrose.Semantic.Scopes

set_option autoImplicit false

namespace Windrose.Semantic

open Windrose.Foundation

/-! ## Named columns -/

/-- The definition names the column as one of the entity. -/
inductive Definition.Names (defn : Definition) (entity column : Name) : Prop where
  | dimension (d : Dimension) (hd : d ∈ defn.dimensions) (hentity : d.entity = entity)
      (hcolumn : column ∈ d.source.columns)
  | measure (m : Measure) (b : BaseMeasure) (hm : m ∈ defn.measures) (hkind : m.kind = .base b)
      (hentity : b.entity = entity) (hcolumn : column ∈ b.columns)
  | joinFrom (jp : JoinPath) (hjp : jp ∈ defn.joinPaths) (hentity : jp.fromEntity = entity)
      (hcolumn : column ∈ jp.on.map Prod.fst)
  | joinTo (jp : JoinPath) (hjp : jp ∈ defn.joinPaths) (hentity : jp.toEntity = entity)
      (hcolumn : column ∈ jp.on.map Prod.snd)
  | primaryKey (e : Entity) (he : e ∈ defn.entities) (hentity : e.name = entity)
      (hcolumn : column ∈ e.primaryKey)

/-- A reference to a named column, under the alias of its entity. -/
def Named (C : Compiler) (aliases : List (Name × Bytes)) (c : ColRef) : Prop :=
  ∃ entity, aliases.lookup entity = some c.alias ∧ C.defn.Names entity c.column

/-! ## The clause of a filter -/

@[simp] theorem target_filterClause (target : Expr ColRef) (f : FilterSpec) (n : Nat) :
    (filterClause target f n).target = target := by
  unfold filterClause
  cases f.op <;> rfl

/-- How many values an operator has, unless it has a list of them. -/
def FilterOp.arity : FilterOp → Option Nat
  | .isNull => some 0
  | .isNotNull => some 0
  | .between => some 2
  | .in => none
  | .notIn => none
  | .cmp _ => some 1
  | .like => some 1

theorem FilterOp.length_of_takes {op : FilterOp} {values : List Scalar}
    (h : op.takes values = true) {n : Nat} (hn : op.arity = some n) : values.length = n := by
  unfold takes at h
  split at h
  · cases hn
    rw [List.isEmpty_iff.mp h, List.length_nil]
  · cases hn
    rw [List.isEmpty_iff.mp h, List.length_nil]
  · cases hn
    exact eq_of_beq h
  · cases hn
  · cases hn
  · cases hn
    exact eq_of_beq h
  · cases hn
    rfl
  · cases h

theorem placeholders_filterClause (target : Expr ColRef) (f : FilterSpec) (n : Nat) :
    (filterClause target f n).placeholders = List.range' (n + 1) f.values.length := by
  have hlen := fun k => FilterOp.length_of_takes f.values_ok (n := k)
  unfold filterClause
  split
  · next hop => rw [hlen 0 (by rw [hop]; rfl)]; rfl
  · next hop => rw [hlen 0 (by rw [hop]; rfl)]; rfl
  · rfl
  · rfl
  · next hop => rw [hlen 2 (by rw [hop]; rfl)]; rfl
  · next hop => rw [hlen 1 (by rw [hop]; rfl)]; rfl
  · next hop => rw [hlen 1 (by rw [hop]; rfl)]; rfl

namespace Compiler

variable {C : Compiler} {aliases : List (Name × Bytes)}

/-! ## Dimensions -/

theorem named_dimSql {dim : Dimension} {grain : Option TimeGrain} {e : Expr ColRef}
    (hdim : dim ∈ C.defn.dimensions) (h : dimSql dim grain aliases = .ok e) :
    ∀ c ∈ e.columns, Named C aliases c := by
  intro c hc
  obtain ⟨halias, hcolumn⟩ := (mem_columns_dimSql h).mp hc
  exact ⟨dim.entity, halias, .dimension dim hdim rfl hcolumn⟩

theorem dimRefSql_ok {d : DimRef} {e : Expr ColRef} (h : C.dimRefSql aliases d = .ok e) :
    ∃ dim, C.dimension d.name = .ok dim ∧ dimSql dim d.grain aliases = .ok e := by
  obtain ⟨dim, hdim, h⟩ := bind_eq_ok.mp h
  exact ⟨dim, hdim, h⟩

theorem named_dimRefSql {d : DimRef} {e : Expr ColRef} (h : C.dimRefSql aliases d = .ok e) :
    ∀ c ∈ e.columns, Named C aliases c := by
  obtain ⟨dim, hdim, he⟩ := dimRefSql_ok h
  exact named_dimSql (Definition.of_dimension? (dimension_ok hdim)).1 he

variable {req : CompileRequest} {dialect : Dialect} {before after : List Param}
  {ordered : List FilterSpec} {cs : List Clause} {m : Measure} {name : Name} {owg : Option Name}
  {e : Expr AggCall} {groups : List (Name × List Name)}

theorem dimItems_ok {items : List (Item ColRef)} (h : C.dimItems req aliases = .ok items) :
    List.Forall₂ (fun d i => C.dimRefSql aliases d = .ok i.expr ∧ i.name = d.name)
      req.dimensions items := by
  refine (mapM_eq_ok.mp h).imp fun d i hi => ?_
  obtain ⟨e, he, rfl⟩ := map_eq_ok.mp hi
  exact ⟨he, rfl⟩

theorem named_dimItems {items : List (Item ColRef)} (h : C.dimItems req aliases = .ok items) :
    ∀ c ∈ items.flatMap (fun i => i.expr.columns), Named C aliases c := by
  intro c hc
  obtain ⟨i, hi, hc⟩ := List.mem_flatMap.mp hc
  obtain ⟨d, -, hd, -⟩ := forall₂_right (dimItems_ok h) hi
  exact named_dimRefSql hd c hc

theorem named_groupBySql {g : GroupBy}
    (h : C.groupBySql req dialect aliases = .ok g) : ∀ c ∈ g.columns, Named C aliases c := by
  intro c hc
  unfold groupBySql at h
  split at h
  · cases h
    cases hc
  · split at h
    · cases h
      cases hc
    · obtain ⟨es, hes, rfl⟩ := map_eq_ok.mp h
      obtain ⟨e, he, hc⟩ := List.mem_flatMap.mp hc
      obtain ⟨d, -, hd⟩ := forall₂_right (mapM_eq_ok.mp hes) he
      exact named_dimRefSql hd c hc

/-! ## WHERE -/

/-- What `filterClauses` returns. -/
inductive FiltersOf (C : Compiler) (aliases : List (Name × Bytes)) :
    List FilterSpec → List Param → List Clause → List Param → Prop where
  | nil {params : List Param} : FiltersOf C aliases [] params [] params
  | cons {f : FilterSpec} {fs : List FilterSpec} {before after : List Param} {cs : List Clause}
      {dim : Dimension} {target : Expr ColRef} (hdim : C.dimension f.dimension = .ok dim)
      (htarget : dimSql dim none aliases = .ok target)
      (hrest : FiltersOf C aliases fs (before ++ boundValues f dim) cs after) :
      FiltersOf C aliases (f :: fs) before (filterClause target f before.length :: cs) after

theorem filterClauses_ok {fs : List FilterSpec}
    {out : List Clause × List Param} (h : C.filterClauses aliases fs before = .ok out) :
    FiltersOf C aliases fs before out.1 out.2 := by
  induction fs generalizing before out with
  | nil =>
    cases h
    exact .nil
  | cons f fs ih =>
    obtain ⟨dim, hdim, h⟩ := bind_eq_ok.mp h
    obtain ⟨target, htarget, h⟩ := bind_eq_ok.mp h
    obtain ⟨rest, hrest, h⟩ := bind_eq_ok.mp h
    cases h
    exact .cons hdim htarget (ih hrest)

/-- What `rangeSql` returns after `n` bound values. -/
inductive RangeOf (C : Compiler) (aliases : List (Name × Bytes)) (n : Nat) :
    Option TimeRange → List Clause → List Param → Option ResolvedRange → Prop where
  | none : RangeOf C aliases n none [] [] none
  | some {tr : TimeRange} {dim : Dimension} {bounds : Value × Value} {target : Expr ColRef}
      (hdim : C.dimension tr.dimension = .ok dim) (hbounds : C.rangeBounds tr = .ok bounds)
      (htarget : dimSql dim none aliases = .ok target) :
      RangeOf C aliases n (some tr) [.range target (n + 1) (n + 2)]
        [rangeParam C.py bounds.1, rangeParam C.py bounds.2]
        (some ⟨dim.name, bounds.1, bounds.2, C.timezone⟩)

theorem rangeSql_ok {n : Nat} {tr : Option TimeRange}
    {out : List Clause × List Param × Option ResolvedRange}
    (h : C.rangeSql aliases n tr = .ok out) : RangeOf C aliases n tr out.1 out.2.1 out.2.2 := by
  cases tr with
  | none =>
    cases h
    exact .none
  | some tr =>
    obtain ⟨dim, hdim, h⟩ := bind_eq_ok.mp h
    split at h
    · obtain ⟨bounds, hbounds, h⟩ := bind_eq_ok.mp h
      obtain ⟨target, htarget, h⟩ := bind_eq_ok.mp h
      cases h
      exact .some hdim hbounds htarget
    · cases h

/-- What `_where_sql` returns: the clauses of the filters, and then that of the range. -/
inductive WhereOf (C : Compiler) (ordered : List FilterSpec) (req : CompileRequest)
    (aliases : List (Name × Bytes)) (before : List Param) :
    List Clause → List Param → Option ResolvedRange → Prop where
  | intro {cs range : List Clause} {mid own : List Param} {resolved : Option ResolvedRange}
      (hfilters : FiltersOf C aliases ordered before cs mid)
      (hrange : RangeOf C aliases mid.length req.timeRange range own resolved) :
      WhereOf C ordered req aliases before (cs ++ range) (mid ++ own) resolved

theorem whereSql_ok {out : List Clause × List Param × Option ResolvedRange}
    (h : C.whereSql ordered req aliases before = .ok out) :
    WhereOf C ordered req aliases before out.1 out.2.1 out.2.2 := by
  obtain ⟨filters, hfilters, h⟩ := bind_eq_ok.mp h
  obtain ⟨range, hrange, h⟩ := bind_eq_ok.mp h
  cases h
  exact .intro (filterClauses_ok hfilters) (rangeSql_ok hrange)

theorem FiltersOf.named {fs : List FilterSpec} (h : FiltersOf C aliases fs before cs after) :
    ∀ c ∈ cs.flatMap (fun c => c.target.columns), Named C aliases c := by
  induction h with
  | nil => simp
  | cons hdim htarget _ ih =>
    rw [List.flatMap_cons, target_filterClause, List.forall_mem_append]
    exact ⟨named_dimSql (Definition.of_dimension? (dimension_ok hdim)).1 htarget, ih⟩

theorem RangeOf.named {n : Nat} {tr : Option TimeRange} {own : List Param}
    {resolved : Option ResolvedRange} (h : RangeOf C aliases n tr cs own resolved) :
    ∀ c ∈ cs.flatMap (fun c => c.target.columns), Named C aliases c := by
  cases h with
  | none => simp
  | some hdim hbounds htarget =>
    simpa [Clause.target] using
      named_dimSql (Definition.of_dimension? (dimension_ok hdim)).1 htarget

theorem WhereOf.named {resolved : Option ResolvedRange}
    (h : WhereOf C ordered req aliases before cs after resolved) :
    ∀ c ∈ cs.flatMap (fun c => c.target.columns), Named C aliases c := by
  obtain ⟨hfilters, hrange⟩ := h
  rw [List.flatMap_append, List.forall_mem_append]
  exact ⟨hfilters.named, hrange.named⟩

/-! ## HAVING -/

/-- What `_having_sql` returns. -/
inductive HavingOf {τ : Type} (C : Compiler) (target : Measure → Except Exn (Expr τ)) :
    List HavingSpec → List Param → List (HavingClause τ) → List Param → Prop where
  | nil {params : List Param} : HavingOf C target [] params [] params
  | cons {h : HavingSpec} {hs : List HavingSpec} {before after : List Param}
      {cs : List (HavingClause τ)} {m : Measure} {e : Expr τ}
      (hm : C.defn.measure? h.metric = some m) (he : target m = .ok e)
      (hrest : HavingOf C target hs (before ++ [havingParam h]) cs after) :
      HavingOf C target (h :: hs) before (⟨e, h.op, before.length + 1⟩ :: cs) after

theorem havingMeasure_ok (h : C.havingMeasure name = .ok m) : C.defn.measure? name = some m := by
  unfold havingMeasure at h
  split at h
  · cases h
  · next m' hm =>
    cases h
    exact hm

theorem havingClauses_ok {τ : Type} {target : Measure → Except Exn (Expr τ)} {hs : List HavingSpec}
    {out : List (HavingClause τ) × List Param}
    (h : C.havingClauses target hs before = .ok out) : HavingOf C target hs before out.1 out.2 := by
  induction hs generalizing before out with
  | nil =>
    cases h
    exact .nil
  | cons spec hs ih =>
    obtain ⟨m, hm, h⟩ := bind_eq_ok.mp h
    obtain ⟨e, he, h⟩ := bind_eq_ok.mp h
    obtain ⟨rest, hrest, h⟩ := bind_eq_ok.mp h
    cases h
    exact .cons (havingMeasure_ok hm) he (ih hrest)

theorem HavingOf.targets {τ : Type} {target : Measure → Except Exn (Expr τ)} {hs : List HavingSpec}
    {cs : List (HavingClause τ)} (h : HavingOf C target hs before cs after) :
    List.Forall₂ (fun spec c => ∃ m, C.defn.measure? spec.metric = some m ∧ target m = .ok c.target)
      hs cs := by
  induction h with
  | nil => exact .nil
  | cons hm he _ ih => exact .cons ⟨_, hm, he⟩ ih

/-! ## Aggregates -/

theorem mem_columns_aggLeaf (h : C.aggLeaf dialect aliases owg m = .ok e) :
    ∃ b, m.kind = .base b ∧ ∀ c, c ∈ aggColumns e ↔ aliases.lookup b.entity = some c.alias ∧
      (c.column ∈ b.columns ∨ C.orderColumn b owg = some c.column) := by
  obtain ⟨call, hcall, rfl⟩ := map_eq_ok.mp h
  obtain ⟨b, hkind, hcolumns⟩ := mem_columns_measureSql hcall
  refine ⟨b, hkind, fun c => ?_⟩
  rw [← hcolumns, aggColumns, Expr.columns, List.flatMap_singleton]

/-- The measure behind a derived measure that a column of it comes from. -/
structure ColumnOf (C : Compiler) (aliases : List (Name × Bytes)) (owg : Option Name)
    (name : Name) (c : ColRef) (m : Measure) (b : BaseMeasure) : Prop where
  leaf : Leaf C name m
  kind : m.kind = .base b
  «alias» : aliases.lookup b.entity = some c.alias
  column : c.column ∈ b.columns ∨ C.orderColumn b owg = some c.column

theorem mem_aggColumns_metricExpr {fuel : Nat}
    (h : C.metricExpr (C.aggLeaf dialect aliases owg) fuel name = .ok e)
    {c : ColRef} : c ∈ aggColumns e ↔ ∃ m b, ColumnOf C aliases owg name c m b := by
  rw [aggColumns, List.mem_flatMap]
  constructor
  · rintro ⟨call, hcall, hc⟩
    obtain ⟨m, x, hleaf, hx, hcall⟩ := (mem_columns_metricExpr h call).mp hcall
    obtain ⟨b, hkind, hcolumns⟩ := mem_columns_aggLeaf hx
    obtain ⟨halias, hcolumn⟩ := (hcolumns c).mp (List.mem_flatMap.mpr ⟨call, hcall, hc⟩)
    exact ⟨m, b, hleaf, hkind, halias, hcolumn⟩
  · rintro ⟨m, b, hleaf, hkind, halias, hcolumn⟩
    obtain ⟨x, hx⟩ := metricExpr_leaf_ok h hleaf
    obtain ⟨b', hkind', hcolumns⟩ := mem_columns_aggLeaf hx
    rw [hkind] at hkind'
    cases hkind'
    obtain ⟨call, hcall, hc⟩ := List.mem_flatMap.mp ((hcolumns c).mpr ⟨halias, hcolumn⟩)
    exact ⟨call, (mem_columns_metricExpr h call).mpr ⟨m, x, hleaf, hx, hcall⟩, hc⟩

theorem havingRef_ok {ref : Name} {x : Expr AggCall}
    (h : (getKey (C.defn.measure? ref) >>= C.aggLeaf dialect aliases owg) = .ok x) :
    ∃ m b, C.defn.measure? ref = some m ∧ m.kind = .base b ∧
      C.aggLeaf dialect aliases owg m = .ok x := by
  obtain ⟨m, hm, hx⟩ := bind_eq_ok.mp h
  obtain ⟨b, hkind, -⟩ := mem_columns_aggLeaf hx
  exact ⟨m, b, getKey_eq_ok.mp hm, hkind, hx⟩

theorem havingTarget_leaf_ok {leaf : Measure} (hm : C.defn.measure? name = some m)
    (h : C.havingTarget dialect aliases owg m = .ok e) (hleaf : Leaf C name leaf) :
    ∃ x, C.aggLeaf dialect aliases owg leaf = .ok x := by
  unfold havingTarget at h
  cases hkind : m.kind with
  | base b =>
    rw [hkind] at h
    exact ⟨e, (leaf_base_iff hm hkind).mp hleaf ▸ h⟩
  | derived d =>
    rw [hkind] at h
    obtain ⟨ref, href, hleaf⟩ := (leaf_derived_iff hm hkind).mp hleaf
    obtain ⟨x, hx⟩ := Expr.subst_ok h href
    obtain ⟨r, b, hr, hkindr, hx⟩ := havingRef_ok hx
    exact ⟨x, (leaf_base_iff hr hkindr).mp hleaf ▸ hx⟩

theorem mem_aggColumns_havingTarget (hm : C.defn.measure? name = some m)
    (h : C.havingTarget dialect aliases owg m = .ok e) {c : ColRef} :
    c ∈ aggColumns e ↔ ∃ leaf b, ColumnOf C aliases owg name c leaf b := by
  unfold havingTarget at h
  cases hkind : m.kind with
  | base b =>
    rw [hkind] at h
    obtain ⟨b', hkind', hcolumns⟩ := mem_columns_aggLeaf h
    rw [hcolumns]
    constructor
    · rintro ⟨halias, hcolumn⟩
      exact ⟨m, b', (leaf_base_iff hm hkind).mpr rfl, hkind', halias, hcolumn⟩
    · rintro ⟨leaf, b'', hleaf, hkind'', halias, hcolumn⟩
      rw [(leaf_base_iff hm hkind).mp hleaf, hkind'] at hkind''
      cases hkind''
      exact ⟨halias, hcolumn⟩
  | derived d =>
    rw [hkind] at h
    rw [aggColumns, (Expr.subst_spec h).2.1, List.flatMap_assoc, List.mem_flatMap]
    constructor
    · rintro ⟨ref, href, hc⟩
      obtain ⟨x, hx⟩ := Expr.subst_ok h href
      rw [resolvedColumns, hx] at hc
      obtain ⟨r, b, hr, hkindr, hx⟩ := havingRef_ok hx
      obtain ⟨b', hkind', hcolumns⟩ := mem_columns_aggLeaf hx
      obtain ⟨halias, hcolumn⟩ := (hcolumns c).mp hc
      exact ⟨r, b', .derived hm hkind href (.base hr hkindr), hkind', halias, hcolumn⟩
    · rintro ⟨leaf, b, hleaf, hkindl, halias, hcolumn⟩
      obtain ⟨ref, href, hleaf⟩ := (leaf_derived_iff hm hkind).mp hleaf
      obtain ⟨x, hx⟩ := Expr.subst_ok h href
      refine ⟨ref, href, ?_⟩
      rw [resolvedColumns, hx]
      obtain ⟨r, b', hr, hkindr, hx⟩ := havingRef_ok hx
      obtain ⟨b'', hkind'', hcolumns⟩ := mem_columns_aggLeaf hx
      rw [(leaf_base_iff hr hkindr).mp hleaf, hkind''] at hkindl
      cases hkindl
      exact (hcolumns c).mpr ⟨halias, hcolumn⟩

/-! ## Measures of the outer SELECT -/

theorem cteLeaf_ok {e : Expr CteRef}
    (h : cteLeaf groups m = .ok e) : ∃ i, cteOf groups m.name = some i ∧ e = .col ⟨i, m.name⟩ := by
  obtain ⟨i, hi, rfl⟩ := map_eq_ok.mp h
  exact ⟨i, getKey_eq_ok.mp hi, rfl⟩

theorem mem_of_cteOf {i : Nat}
    (h : cteOf groups name = some i) : ∃ g, groups[i]? = some g ∧ name ∈ g.2 := by
  obtain ⟨hlt, hmem, -⟩ := List.findIdx?_eq_some_iff_getElem.mp h
  exact ⟨_, List.getElem?_eq_getElem hlt, of_decide_eq_true hmem⟩

theorem exists_of_metricExpr {fuel : Nat}
    {e : Expr CteRef} (h : C.metricExpr (cteLeaf groups) fuel name = .ok e) :
    ∀ c ∈ e.columns, ∃ g, groups[c.cte]? = some g ∧ c.column ∈ g.2 := by
  intro c hc
  obtain ⟨m, x, -, hx, hc⟩ := (mem_columns_metricExpr h c).mp hc
  obtain ⟨i, hi, rfl⟩ := cteLeaf_ok hx
  cases List.mem_singleton.mp hc
  exact mem_of_cteOf hi

/-! ## The SELECTs of a compiled query -/

theorem BasesOf.leaf {bases : List (Name × Name)} (h : BasesOf C req bases)
    {metric : Name} (hmetric : metric ∈ req.metrics) (hleaf : Leaf C metric m)
    {b : BaseMeasure} (hkind : m.kind = .base b) : (m.name, b.entity) ∈ bases := by
  obtain ⟨⟨name, entity⟩, hp, rfl⟩ := List.mem_map.mp
      ((h.mem_iff m.name).mpr ⟨metric, hmetric, m, hleaf, rfl⟩)
  obtain ⟨m', b', hm', hkind', rfl⟩ := h.entity _ hp
  rw [hleaf.measure.1] at hm'
  cases hm'
  rw [hkind] at hkind'
  cases hkind'
  exact hp

/-- A SELECT over the tables of one entity group. -/
structure SelectOf (C : Compiler) (ordered : List FilterSpec) (req : CompileRequest)
    (dialect : Dialect) (base : Name) (hops : List JoinPath) (s : Select) : Prop where
  scope : ∃ before after range, Scope C ordered req dialect base hops before after range s
  measures : ∀ i ∈ s.measures, ∀ c ∈ aggColumns i.expr, ∃ metric ∈ req.metrics, ∃ m b,
    ColumnOf C (aliasesOf base hops) req.orderWithinGroup metric c m b ∧ b.entity = base

theorem GroupsOf.selects {bases : List (Name × Name)} (hbases : BasesOf C req bases)
    {ss : List Select} (h : GroupsOf C ordered req dialect groups before ss after)
    (hgroups : ∀ g ∈ groups, g ∈ groupsOf bases) :
    ∀ s ∈ ss, ∃ base hops, SelectOf C ordered req dialect base hops s := by
  induction h with
  | nil => exact nofun
  | cons hscope hmeasures _ ih =>
    obtain ⟨hgroup, hgroups⟩ := List.forall_mem_cons.mp hgroups
    refine List.forall_mem_cons.mpr ⟨⟨_, _, ⟨_, _, _, hscope⟩, fun i hi c hc => ?_⟩, ih hgroups⟩
    obtain ⟨name, hname, hitem⟩ := forall₂_right (mapM_eq_ok.mp hmeasures) hi
    obtain ⟨m, hm, hitem⟩ := bind_eq_ok.mp hitem
    obtain ⟨e, he, hitem⟩ := bind_eq_ok.mp hitem
    cases hitem
    rw [getKey_eq_ok] at hm
    obtain ⟨b, hkind, hcolumns⟩ := mem_columns_aggLeaf he
    obtain ⟨halias, hcolumn⟩ := (hcolumns c).mp hc
    have hmem := (mem_of_mem_groupsOf hgroup).mp hname
    obtain ⟨m', b', hm', hkind', hentity⟩ := hbases.entity _ hmem
    rw [hm] at hm'
    cases hm'
    rw [hkind] at hkind'
    cases hkind'
    obtain ⟨metric, hmetric, l, hleaf, hl⟩ :=
      (hbases.mem_iff name).mp (List.mem_map_of_mem (f := Prod.fst) hmem)
    have hlm : l = m := Option.some.inj (by rw [← hleaf.measure.1, hl, hm])
    exact ⟨metric, hmetric, m, b, ⟨hlm ▸ hleaf, hkind, halias, hcolumn⟩, hentity⟩

/-- Every SELECT of a compiled query is over the tables of one entity group. -/
theorem selects_ok {c : Compiled} (h : C.compileWith ordered req dialect = .ok c) :
    ∀ s ∈ c.query.selects, ∃ base hops, SelectOf C ordered req dialect base hops s := by
  obtain ⟨bases, out, hbases, hplan, hquery, -⟩ := compileWith_ok h
  have hbases := bases_ok hbases
  rw [hquery]
  rcases plan_cases hplan with ⟨group, hgroup, hsingle⟩ | ⟨-, hmulti⟩
  · obtain ⟨s, having, tail, mid, hout, hscope, hmeasures, -⟩ := compileSingle_ok hsingle
    rw [hout]
    intro s' hs'
    cases List.mem_singleton.mp hs'
    refine ⟨_, _, ⟨_, _, _, hscope⟩, fun i hi c hc => ?_⟩
    obtain ⟨metric, hmetric, hi⟩ := forall₂_right (mapM_eq_ok.mp hmeasures) hi
    obtain ⟨e, he, rfl⟩ := map_eq_ok.mp hi
    obtain ⟨m, b, hcol⟩ := (mem_aggColumns_metricExpr he).mp hc
    obtain ⟨g, hg, hentity, -⟩ := exists_groupsOf (hbases.leaf hmetric hcol.leaf hcol.kind)
    rw [hgroup, List.mem_singleton] at hg
    exact ⟨metric, hmetric, m, b, hcol, (hg ▸ hentity).symm⟩
  · obtain ⟨ctes, measures, having, tail, mid, hout, hgroups, -⟩ := compileMulti_ok hmulti
    rw [hout]
    exact hgroups.selects hbases fun g hg => hg

end Compiler

end Windrose.Semantic

/-
  Semantic/Barrier.lean --- columns, placeholders and values of compiled SQL.

  Source: services/semantic-service/app/compiler/compiler.py (normalize_request, _Params,
  _col, _measure_sql, _where_sql, _having_sql, and rules (a) to (c) of its head).

  A compiled text has no value of the request: its placeholders are numbered in the order
  of the text, the values are bound in this order, and requests that differ in values have
  one text.  Its columns are those of the definition, but for the column of the request
  that orders `first`, which nothing checks (`barrier_iff`).
-/
import Windrose.Semantic.Alike
import Windrose.Semantic.Text

set_option autoImplicit false

namespace Windrose.Semantic

open Windrose.Foundation

/-! ## The columns of a query -/

/-- The entity that stands under an alias. -/
def From.entityOf (f : From) (a : Bytes) : Option Name :=
  ((f.alias, f.base.name) :: f.hops.map fun h => (h.alias, h.entity.name)).lookup a

/-- The columns of common table expressions that the outer SELECT refers to. -/
def Outer.refs (o : Outer) : List CteRef :=
  o.dims.flatMap Prod.fst ++ o.measures.flatMap (fun i => i.expr.columns) ++
    o.filters.flatMap (fun h => h.target.columns) ++
    o.joins.flatMap fun j =>
      match j with
      | .full on => on.flatMap fun p => p.1 :: p.2
      | .cross => []

/-- The names of the items of a SELECT. -/
def Select.names (s : Select) : List Name := s.dims.map Item.name ++ s.measures.map Item.name

/-- Every column of a table is one that the definition names of the entity of its alias, and
every other column is an item of its common table expression. -/
def Query.Modelled (defn : Definition) (q : Query) : Prop :=
  (∀ scope ∈ q.scopes, ∀ c ∈ scope.2,
    ∃ entity, scope.1.entityOf c.alias = some entity ∧ defn.Names entity c.column) ∧
  match q with
  | .single .. => True
  | .multi ctes o _ => ∀ ref ∈ o.refs, ∃ s, ctes[ref.cte]? = some s ∧ ref.column ∈ s.names

namespace Compiler

variable {C : Compiler} {base : Name} {hops : List JoinPath} {f : From}

/-! ### Aliases -/

theorem plain_aliasCandidate (name : Name) (n : Nat) : Plain (aliasCandidate name n) := by
  have hhead : Plain (name.bytes.take 1) := fun c hc => name.plain c (List.mem_of_mem_take hc)
  cases n with
  | zero => exact hhead
  | succ n =>
    intro c hc
    rcases List.mem_append.mp hc with hc | hc
    · exact hhead c hc
    · exact plain_itoa _ c hc

variable {aliases : List (Name × Bytes)} {name : Name}

theorem plain_aliasLoop (h : ∀ p ∈ aliases, Plain p.2)
    (names : List Name) : ∀ p ∈ aliasLoop aliases names, Plain p.2 := by
  induction names generalizing aliases with
  | nil => exact h
  | cons name names ih =>
    refine ih (List.forall_mem_append.mpr ⟨h, fun p hp => ?_⟩)
    cases List.mem_singleton.mp hp
    obtain ⟨j, -, hj⟩ : ∃ j, _ ∧ fresh (aliasCandidate name) (aliases.map Prod.snd) _ 0 =
        aliasCandidate name j :=
      fresh_eq_candidate (aliases.map Prod.snd).length 0
    exact hj ▸ plain_aliasCandidate name j

theorem plain_aliasesOf {a : Bytes} (h : (aliasesOf base hops).lookup name = some a) : Plain a := by
  obtain ⟨l, r, heq, -⟩ := List.lookup_eq_some_iff.mp h
  have hmem : (name, a) ∈ aliasesOf base hops := by
    rw [heq]
    simp
  exact plain_aliasLoop (fun p hp => absurd hp List.not_mem_nil) _ _ hmem

theorem FromOf.entityOf_eq (h : FromOf C base hops f) : f.entityOf =
    fun a => ((joinedEntities base hops).map fun n => (aliasOf base hops n, n)).lookup a := by
  have hpairs : (f.alias, f.base.name) :: f.hops.map (fun h => (h.alias, h.entity.name)) =
      (joinedEntities base hops).map fun n => (aliasOf base hops n, n) := by
    rw [joinedEntities, List.map_cons, List.map_map, aliasOf_eq h.base_alias,
      (Definition.of_entity? h.base_entity).2,
      forall₂_map_eq h.joined fun jp hop hhop => by
        rw [← aliasOf_eq hhop.alias, (Definition.of_entity? hhop.entity).2]]
    rfl
  funext a
  rw [From.entityOf, hpairs]

theorem FromOf.entityOf_alias (h : FromOf C base hops f)
    (htree : Tree JoinPath.fromEntity JoinPath.toEntity base hops) {a : Bytes}
    (ha : (aliasesOf base hops).lookup name = some a) : f.entityOf a = some name := by
  rw [h.entityOf_eq, ← aliasOf_eq ha]
  show List.lookup _ _ = _
  have hmem : name ∈ joinedEntities base hops := (aliasesOf_isSome htree).mp ⟨a, ha⟩
  have hnodup := aliases_nodup htree
  generalize joinedEntities base hops = names at hmem hnodup
  induction names with
  | nil => cases hmem
  | cons n names ih =>
    obtain ⟨hn, hnodup⟩ := List.nodup_cons.mp hnodup
    rcases List.mem_cons.mp hmem with rfl | hmem
    · simp
    · have hne : aliasOf base hops name ≠ aliasOf base hops n := by
        intro heq
        exact hn (heq ▸ List.mem_map_of_mem hmem)
      rw [List.map_cons, List.lookup_cons, beq_false_of_ne hne]
      exact ih hmem hnodup

theorem FromOf.modelled (h : FromOf C base hops f)
    (htree : Tree JoinPath.fromEntity JoinPath.toEntity base hops) {c : ColRef}
    (hc : Named C (aliasesOf base hops) c) :
    ∃ entity, f.entityOf c.alias = some entity ∧ C.defn.Names entity c.column := by
  obtain ⟨entity, halias, hnames⟩ := hc
  exact ⟨entity, h.entityOf_alias htree halias, hnames⟩

theorem FromOf.plain (h : FromOf C base hops f)
    (htree : Tree JoinPath.fromEntity JoinPath.toEntity base hops) : ∀ a ∈ f.aliases, Plain a := by
  intro a ha
  rw [h.aliases_eq] at ha
  obtain ⟨n, hn, rfl⟩ := List.mem_map.mp ha
  obtain ⟨a, ha⟩ := (aliasesOf_isSome htree).mpr hn
  rw [aliasOf_eq ha]
  exact plain_aliasesOf ha

/-! ### The column that orders `first` -/

/-- The column of the request that orders `first`, if there is one, is named of the entity of
every `first` measure behind the request. -/
def OrderNamed (C : Compiler) (req : CompileRequest) : Prop :=
  ∀ column, req.orderWithinGroup = some column →
    ∀ name ∈ req.metrics ++ req.having.map HavingSpec.metric, ∀ m b, Leaf C name m →
      m.kind = .base b → b.agg = .first → C.defn.Names b.entity column

variable {b : BaseMeasure} {m : Measure}

theorem names_of_columnOf {req : CompileRequest}
    (h : OrderNamed C req) (hname : name ∈ req.metrics ++ req.having.map HavingSpec.metric)
    {c : ColRef}
    (hcol : ColumnOf C aliases req.orderWithinGroup name c m b) : Named C aliases c := by
  refine ⟨b.entity, hcol.alias, ?_⟩
  rcases hcol.column with hcolumn | horder
  · exact .measure m b (Definition.of_measure? hcol.leaf.measure.1).1 hcol.kind rfl hcolumn
  · unfold orderColumn at horder
    split at horder
    · next hagg =>
      cases howg : req.orderWithinGroup with
      | some column =>
        rw [howg] at horder
        cases horder
        exact h _ howg name hname m b hcol.leaf hcol.kind hagg
      | none =>
        rw [howg] at horder
        obtain ⟨e, he, hhead⟩ := Option.bind_eq_some_iff.mp horder
        obtain ⟨hmem, hentity⟩ := Definition.of_entity? he
        exact .primaryKey e hmem hentity (List.mem_of_mem_head? hhead)
    · cases horder

theorem columnOf_first {dialect : Dialect} {column : Name}
     (hleaf : Leaf C name m) (hkind : m.kind = .base b)
    (hagg : b.agg = .first) {e : Expr AggCall}
    (h : C.aggLeaf dialect aliases (some column) m = .ok e) :
    ∃ a, ColumnOf C aliases (some column) name ⟨a, column⟩ m b := by
  have horder : C.orderColumn b (some column) = some column := by
    rw [orderColumn, if_pos hagg]
    rfl
  obtain ⟨call, hcall, rfl⟩ := map_eq_ok.mp h
  unfold measureSql at hcall
  simp only [hkind] at hcall
  obtain ⟨expr, hexpr, hcall⟩ := bind_eq_ok.mp hcall
  cases expr with
  | none =>
    rw [aggSql, hagg] at hcall
    cases hcall
  | some x =>
    simp only [aggSql, hagg] at hcall
    obtain ⟨order, horder', hcall⟩ := bind_eq_ok.mp hcall
    obtain ⟨o, ho, -⟩ := bind_eq_ok.mp hcall
    have hsame := firstOrder_ok horder' hagg
    cases Option.some.inj (horder.symm.trans hsame)
    obtain ⟨halias, -⟩ := col_eq_ok ho
    exact ⟨o.alias, hleaf, hkind, halias, .inr horder⟩

/-! ### The columns of a compiled query -/

variable {before after : List Param} {groups : List (Name × List Name)} {c : Compiled}
  {ss : List Select}

section Columns

variable {ordered : List FilterSpec} {req : CompileRequest} {dialect : Dialect}

theorem SelectOf.modelled (horder : OrderNamed C req) {s : Select}
    (h : SelectOf C ordered req dialect base hops s) : ∀ c ∈ s.columns,
      ∃ entity, s.source.entityOf c.alias = some entity ∧ C.defn.Names entity c.column := by
  obtain ⟨before, after, range, hscope⟩ := h.scope
  have hfrom := fromSql_ok hscope.source
  intro c hc
  refine hfrom.modelled hscope.tree.1 ?_
  rcases hscope.named c hc with hnamed | hc
  · exact hnamed
  · obtain ⟨i, hi, hc⟩ := List.mem_flatMap.mp hc
    obtain ⟨metric, hmetric, m, b, hcol, -⟩ := h.measures i hi c hc
    exact names_of_columnOf horder (List.mem_append_left _ hmetric) hcol

theorem GroupsOf.names (h : GroupsOf C ordered req dialect groups before ss after) :
    List.Forall₂ (fun g s => s.names = req.dimensions.map DimRef.name ++ g.2) groups ss := by
  induction h with
  | nil => exact .nil
  | cons hscope hmeasures _ ih =>
    refine .cons ?_ ih
    rw [Select.names, forall₂_map_eq (dimItems_ok hscope.dims) (f := DimRef.name)
      fun d i hi => hi.2,
      forall₂_map_eq (mapM_eq_ok.mp hmeasures) (f := id) fun n i hi => ?_, List.map_id]
    obtain ⟨m, -, hi⟩ := bind_eq_ok.mp hi
    obtain ⟨e, -, hi⟩ := bind_eq_ok.mp hi
    cases hi
    rfl

theorem refs_outer {measures : List (Item CteRef)}
    (hmeasures : C.metricItems (cteLeaf groups) req.metrics = .ok measures)
    {having : List (HavingClause CteRef)}
    (hhaving : HavingOf C (fun m => C.metricExpr (cteLeaf groups) C.depth m.name) req.having before
      having after) :
    ∀ ref ∈ (Outer.mk (outerDims req groups.length) measures (cteJoins req groups.length)
      having).refs,
      ∃ g, groups[ref.cte]? = some g ∧ ref.column ∈ req.dimensions.map DimRef.name ++ g.2 := by
  have hdim : ∀ i < groups.length, ∀ d ∈ req.dimensions, ∃ g, groups[i]? = some g ∧
      d.name ∈ req.dimensions.map DimRef.name ++ g.2 := fun i hi d hd =>
    ⟨_, List.getElem?_eq_getElem hi, List.mem_append_left _ (List.mem_map_of_mem hd)⟩
  have hright : ∀ c : CteRef, (∃ g, groups[c.cte]? = some g ∧ c.column ∈ g.2) →
      ∃ g, groups[c.cte]? = some g ∧ c.column ∈ req.dimensions.map DimRef.name ++ g.2 := by
    rintro c ⟨g, hg, hmem⟩
    exact ⟨g, hg, List.mem_append_right _ hmem⟩
  intro ref href
  simp only [Outer.refs, List.mem_append, List.mem_flatMap] at href
  rcases href with ((⟨p, hp, href⟩ | ⟨i, hi, href⟩) | ⟨h, hh, href⟩) | ⟨j, hj, href⟩
  · obtain ⟨d, hd, rfl⟩ := List.mem_map.mp hp
    obtain ⟨i, hi, rfl⟩ := List.mem_map.mp href
    exact hdim i (List.mem_range.mp hi) d hd
  · obtain ⟨name, -, hi⟩ := forall₂_right (mapM_eq_ok.mp hmeasures) hi
    obtain ⟨e, he, rfl⟩ := map_eq_ok.mp hi
    exact hright ref (exists_of_metricExpr he ref href)
  · obtain ⟨spec, -, m, -, he⟩ := forall₂_right hhaving.targets hh
    exact hright ref (exists_of_metricExpr he ref href)
  · obtain ⟨k, hk, rfl⟩ := List.mem_map.mp hj
    rw [List.mem_range'_1] at hk
    split at href
    · next on hon =>
      split at hon
      · cases hon
      · cases hon
        obtain ⟨p, hp, href⟩ := List.mem_flatMap.mp href
        obtain ⟨d, hd, rfl⟩ := List.mem_map.mp hp
        rcases List.mem_cons.mp href with rfl | href
        · exact hdim k (by omega) d hd
        · obtain ⟨i, hi, rfl⟩ := List.mem_map.mp href
          have := List.mem_range.mp hi
          exact hdim i (by omega) d hd
    · cases href

theorem modelled_of_orderNamed (h : C.compileWith ordered req dialect = .ok c)
    (horder : OrderNamed C req) : c.query.Modelled C.defn := by
  obtain ⟨bases, out, -, hplan, hquery, -⟩ := compileWith_ok h
  have hselects := selects_ok h
  rw [hquery] at hselects ⊢
  rcases plan_cases hplan with ⟨group, -, hsingle⟩ | ⟨-, hmulti⟩
  · obtain ⟨s, having, tail, mid, hout, hscope, -, hhaving, -⟩ := compileSingle_ok hsingle
    rw [hout] at hselects ⊢
    obtain ⟨base, hops, hs⟩ := hselects s (List.mem_singleton_self s)
    refine ⟨fun scope hmem => ?_, trivial⟩
    cases List.mem_singleton.mp hmem
    rw [List.forall_mem_append]
    refine ⟨hs.modelled horder, fun c hc => ?_⟩
    obtain ⟨clause, hclause, hc⟩ := List.mem_flatMap.mp hc
    obtain ⟨spec, hspec, m, hm, he⟩ := forall₂_right (havingClauses_ok hhaving).targets hclause
    obtain ⟨leaf, b, hcol⟩ := (mem_aggColumns_havingTarget hm he).mp hc
    exact (fromSql_ok hscope.source).modelled hscope.tree.1 (names_of_columnOf horder
      (List.mem_append_right _ (List.mem_map_of_mem hspec)) hcol)
  · obtain ⟨ctes, measures, having, tail, mid, hout, hgroups, hmeasures, hhaving, -⟩ :=
      compileMulti_ok hmulti
    rw [hout] at hselects ⊢
    refine ⟨fun scope hmem => ?_, fun ref href => ?_⟩
    · obtain ⟨s, hs, rfl⟩ := List.mem_map.mp hmem
      obtain ⟨base, hops, hof⟩ := hselects s hs
      exact hof.modelled horder
    · obtain ⟨g, hg, hcolumn⟩ := refs_outer hmeasures (havingClauses_ok hhaving) ref href
      obtain ⟨s, hs, hnames⟩ := forall₂_getElem? hgroups.names hg
      exact ⟨s, hs, hnames ▸ hcolumn⟩

theorem names_of_modelled (hmodelled : c.query.Modelled C.defn)
    {source : From} {columns : List ColRef} (hscope : (source, columns) ∈ c.query.scopes)
    (hfrom : FromOf C base hops source)
    (htree : Tree JoinPath.fromEntity JoinPath.toEntity base hops) {owg : Option Name}
    {ref : ColRef}
    (hcol : ColumnOf C (aliasesOf base hops) owg name ref m b) (href : ref ∈ columns) :
    C.defn.Names b.entity ref.column := by
  obtain ⟨entity, hentity, hnames⟩ := hmodelled.1 _ hscope ref href
  rw [hfrom.entityOf_alias htree hcol.alias] at hentity
  cases hentity
  exact hnames

theorem GroupsOf.exists_select (h : GroupsOf C ordered req dialect groups before ss after)
    {g : Name × List Name} (hg : g ∈ groups) :
    ∃ s ∈ ss, ∃ hops before mid range, Scope C ordered req dialect g.1 hops before mid range s ∧
      g.2.mapM (C.groupItem dialect (aliasesOf g.1 hops) req.orderWithinGroup) =
        .ok s.measures := by
  induction h with
  | nil => cases hg
  | cons hscope hmeasures _ ih =>
    rcases List.mem_cons.mp hg with rfl | hg
    · exact ⟨_, List.mem_cons_self, _, _, _, _, hscope, hmeasures⟩
    · obtain ⟨s, hs, hrest⟩ := ih hg
      exact ⟨s, List.mem_cons_of_mem _ hs, hrest⟩

theorem orderNamed_of_modelled (h : C.compileWith ordered req dialect = .ok c)
    (hmodelled : c.query.Modelled C.defn) : OrderNamed C req := by
  obtain ⟨bases, out, hbases, hplan, hquery, -⟩ := compileWith_ok h
  have hbases := bases_ok hbases
  intro column howg name hname m b hleaf hkind hagg
  rcases plan_cases hplan with ⟨group, -, hsingle⟩ | ⟨-, hmulti⟩
  · obtain ⟨s, having, tail, mid, hout, hscope, hmeasures, hhaving, -⟩ := compileSingle_ok hsingle
    have hmem : (s.source, s.columns ++ having.flatMap fun h => aggColumns h.target) ∈
        c.query.scopes := by
      rw [hquery, hout]
      exact List.mem_singleton_self _
    have hnames := fun {ref : ColRef} {name : Name}
        (h : ColumnOf C (aliasesOf _ _) (some column) name ref m b) =>
      names_of_modelled hmodelled hmem (fromSql_ok hscope.source) hscope.tree.1 h
    rw [howg] at hmeasures hhaving
    rcases List.mem_append.mp hname with hname | hname
    · obtain ⟨i, hi, hok⟩ := forall₂_left (mapM_eq_ok.mp hmeasures) hname
      obtain ⟨e, he, rfl⟩ := map_eq_ok.mp hok
      obtain ⟨x, hx⟩ := metricExpr_leaf_ok he hleaf
      obtain ⟨a, hcol⟩ := columnOf_first hleaf hkind hagg hx
      refine hnames hcol (List.mem_append_left _ ?_)
      simp only [Select.columns, List.mem_append, List.mem_flatMap]
      exact .inl (.inl (.inl (.inr ⟨_, hi, (mem_aggColumns_metricExpr he).mpr ⟨m, b, hcol⟩⟩)))
    · obtain ⟨spec, hspec, rfl⟩ := List.mem_map.mp hname
      obtain ⟨clause, hclause, m', hm', he⟩ := forall₂_left (havingClauses_ok hhaving).targets hspec
      obtain ⟨x, hx⟩ := havingTarget_leaf_ok hm' he hleaf
      obtain ⟨a, hcol⟩ := columnOf_first hleaf hkind hagg hx
      refine hnames hcol (List.mem_append_right _ (List.mem_flatMap.mpr ⟨clause, hclause, ?_⟩))
      exact (mem_aggColumns_havingTarget hm' he).mpr ⟨m, b, hcol⟩
  · obtain ⟨ctes, measures, having, tail, mid, hout, hgroups, hmeasures, hhaving, -⟩ :=
      compileMulti_ok hmulti
    -- a measure of HAVING is one of the metrics, for it is in one of their groups
    have hgroup : ∃ g ∈ groupsOf bases, m.name ∈ g.2 := by
      rcases List.mem_append.mp hname with hname | hname
      · obtain ⟨g, hg, -, hmem⟩ := exists_groupsOf (hbases.leaf hname hleaf hkind)
        exact ⟨g, hg, hmem⟩
      · obtain ⟨spec, hspec, rfl⟩ := List.mem_map.mp hname
        obtain ⟨clause, -, m', hm', he⟩ := forall₂_left (havingClauses_ok hhaving).targets hspec
        rw [(Definition.of_measure? hm').2] at he
        obtain ⟨x, hx⟩ := metricExpr_leaf_ok he hleaf
        obtain ⟨i, hi, -⟩ := cteLeaf_ok hx
        obtain ⟨g, hg, hmem⟩ := mem_of_cteOf hi
        exact ⟨g, List.mem_of_getElem? hg, hmem⟩
    obtain ⟨g, hg, hmem⟩ := hgroup
    obtain ⟨s, hs, hops, before, after, range, hscope, hitems⟩ := hgroups.exists_select hg
    obtain ⟨i, hi, hok⟩ := forall₂_left (mapM_eq_ok.mp hitems) hmem
    obtain ⟨m', hm', hok⟩ := bind_eq_ok.mp hok
    obtain ⟨e, he, hok⟩ := bind_eq_ok.mp hok
    cases hok
    cases Option.some.inj (hleaf.measure.1.symm.trans (getKey_eq_ok.mp hm'))
    rw [howg] at he
    obtain ⟨a, hcol⟩ := columnOf_first hleaf hkind hagg he
    have hscopes : (s.source, s.columns) ∈ c.query.scopes := by
      rw [hquery, hout]
      exact List.mem_map.mpr ⟨s, hs, rfl⟩
    refine names_of_modelled hmodelled hscopes (fromSql_ok hscope.source) hscope.tree.1 hcol ?_
    · obtain ⟨b', hkind', hcolumns⟩ := mem_columns_aggLeaf he
      rw [hkind] at hkind'
      cases hkind'
      simp only [Select.columns, List.mem_append, List.mem_flatMap]
      exact .inl (.inl (.inl (.inr ⟨_, hi, (hcolumns _).mpr ⟨hcol.alias, hcol.column⟩⟩)))

end Columns

/-! ### Placeholders and values -/

section Bound

variable {ordered : List FilterSpec} {req : CompileRequest} {dialect : Dialect}
  {aliases : List (Name × Bytes)}

/-- The values of the filters, in their order. -/
def filterValues (ordered : List FilterSpec) : List Value :=
  ordered.flatMap fun f => f.values.map Scalar.value

/-- The bounds of the time range. -/
def rangeValues (C : Compiler) (req : CompileRequest) : List Value :=
  match req.timeRange with
  | none => []
  | some tr =>
    match C.rangeBounds tr with
    | .ok bounds => [bounds.1, bounds.2]
    | .error _ => []

/-- The values of a compile in the order they are bound: for each scope those of the filters
and the range, and then those of HAVING. -/
def boundInOrder (C : Compiler) (ordered : List FilterSpec) (req : CompileRequest) (scopes : Nat) :
    List Value :=
  (List.replicate scopes (filterValues ordered ++ C.rangeValues req)).flatten ++
    req.having.map fun h => h.value.value

/-- The parameters after `before` have these values and these numbers. -/
structure Binds (before after : List Param) (vs : List Value) (ns : List Nat) : Prop where
  values : after.map Param.value = before.map Param.value ++ vs
  numbers : ns = List.range' (before.length + 1) vs.length

theorem Binds.nil (params : List Param) : Binds params params [] [] := ⟨by simp, rfl⟩

theorem Binds.length {vs : List Value} {ns : List Nat}
    (h : Binds before after vs ns) : after.length = before.length + vs.length := by
  have := congrArg List.length h.values
  simpa using this

theorem Binds.append {mid : List Param} {v w : List Value} {m n : List Nat}
    (h : Binds before mid v m) (h' : Binds mid after w n) :
      Binds before after (v ++ w) (m ++ n) where
  values := by rw [h'.values, h.values, List.append_assoc]
  numbers := by
    rw [h.numbers, h'.numbers, h.length, List.length_append, List.range'_append_1.symm]
    congr 2
    omega

variable {cs : List Clause}

theorem FiltersOf.binds {fs : List FilterSpec} (h : FiltersOf C aliases fs before cs after) :
    Binds before after (filterValues fs) (cs.flatMap Clause.placeholders) := by
  induction h with
  | nil => exact .nil _
  | @cons f fs before after cs dim target _ _ _ ih =>
    refine Binds.append ⟨?_, ?_⟩ ih
    · simp [boundValues, Function.comp_def]
    · rw [placeholders_filterClause, List.length_map]

theorem RangeOf.binds {tr : Option TimeRange} {own : List Param} {resolved : Option ResolvedRange}
    (h : RangeOf C aliases before.length tr cs own resolved) (heq : req.timeRange = tr) :
    Binds before (before ++ own) (C.rangeValues req) (cs.flatMap Clause.placeholders) := by
  unfold rangeValues
  rw [heq]
  cases h with
  | none => exact ⟨by simp, rfl⟩
  | some hdim hbounds htarget =>
    simp only [hbounds]
    exact ⟨by simp [rangeParam], rfl⟩

theorem WhereOf.binds {resolved : Option ResolvedRange}
    (h : WhereOf C ordered req aliases before cs after resolved) :
    Binds before after (filterValues ordered ++ C.rangeValues req)
      (cs.flatMap Clause.placeholders) := by
  obtain ⟨hfilters, hrange⟩ := h
  rw [List.flatMap_append]
  exact hfilters.binds.append (hrange.binds rfl)

theorem HavingOf.binds {τ : Type} {target : Measure → Except Exn (Expr τ)} {hs : List HavingSpec}
    {cs : List (HavingClause τ)} (h : HavingOf C target hs before cs after) :
    Binds before after (hs.map fun h => h.value.value) (cs.map HavingClause.ph) := by
  induction h with
  | nil => exact .nil _
  | @cons spec hs before after cs m e _ _ _ ih =>
    refine Binds.append (v := [spec.value.value]) (m := [before.length + 1])
      ⟨?_, rfl⟩ ih
    simp [havingParam]

theorem GroupsOf.binds (h : GroupsOf C ordered req dialect groups before ss after) :
    Binds before after (List.replicate ss.length (filterValues ordered ++
      C.rangeValues req)).flatten
      (ss.flatMap Select.placeholders) := by
  induction h with
  | nil => exact .nil _
  | cons hscope _ _ ih =>
    rw [List.length_cons, List.replicate_succ, List.flatten_cons, List.flatMap_cons]
    exact (whereSql_ok hscope.filters).binds.append ih

theorem binds_of_compileWith (h : C.compileWith ordered req dialect = .ok c) :
    Binds [] c.params (C.boundInOrder ordered req c.query.scopes.length) c.query.placeholders := by
  obtain ⟨bases, out, -, hplan, hquery, hparams, -⟩ := compileWith_ok h
  rw [hquery, hparams]
  rcases plan_cases hplan with ⟨group, -, hsingle⟩ | ⟨-, hmulti⟩
  · obtain ⟨s, having, tail, mid, hout, hscope, -, hhaving, -⟩ := compileSingle_ok hsingle
    rw [hout]
    have hone := (whereSql_ok hscope.filters).binds.append (havingClauses_ok hhaving).binds
    simpa [boundInOrder, Query.scopes, Query.placeholders, Select.placeholders] using hone
  · obtain ⟨ctes, measures, having, tail, mid, hout, hgroups, -, hhaving, -⟩ :=
        compileMulti_ok hmulti
    rw [hout]
    have hall := hgroups.binds.append (havingClauses_ok hhaving).binds
    simpa [boundInOrder, Query.scopes, Query.placeholders] using hall

theorem plainScope_of_compileWith (h : C.compileWith ordered req dialect = .ok c) :
    ∀ scope ∈ c.query.scopes, PlainScope scope.1 scope.2 := by
  have hscoped := (wellScoped_of_compileWith h).1
  intro scope hscope
  have hselect : ∃ s ∈ c.query.selects, scope.1 = s.source := by
    cases hq : c.query with
    | single s having tail =>
      rw [hq] at hscope
      cases List.mem_singleton.mp hscope
      exact ⟨s, List.mem_singleton_self s, rfl⟩
    | multi ctes outer tail =>
      rw [hq] at hscope
      obtain ⟨s, hs, rfl⟩ := List.mem_map.mp hscope
      exact ⟨s, hs, rfl⟩
  obtain ⟨s, hs, heq⟩ := hselect
  obtain ⟨base, hops, hof⟩ := selects_ok h s hs
  obtain ⟨before, after, range, hparts⟩ := hof.scope
  have hplain := (fromSql_ok hparts.source).plain hparts.tree.1
  rw [← heq] at hplain
  exact ⟨fun c hc => hplain _ ((hscoped scope hscope).2 c hc), hplain⟩

theorem placeholdersOf_sql (h : C.compileWith ordered req dialect = .ok c) :
    placeholdersOf false c.sql = List.range' 1 c.params.length := by
  have hbinds := binds_of_compileWith h
  rw [Compiled.sql, (Query.shows_render (plainScope_of_compileWith h)).placeholdersOf_eq,
    hbinds.numbers,
    hbinds.length]
  simp

end Bound

/-! ### What a compiled text lets through -/

/-- What the compiler promises of a text: its columns are those of the definition, its
placeholders are numbered in order, the parameters are the values in this order, and the
values do not change the text. -/
structure Barrier (C : Compiler) (req : CompileRequest) (dialect : Dialect) (c : Compiled) :
    Prop where
  columns : c.query.Modelled C.defn
  placeholders : placeholdersOf false c.sql = List.range' 1 c.params.length
  params : c.params.map Param.value =
    C.boundInOrder req.orderedFilters req c.query.scopes.length
  independent : ∀ req' c', Alike req req' → C.compile req' dialect = .ok c' →
    ∃ gs d, gs.Perm req'.filters ∧ C.compileWith gs req' dialect = .ok d ∧ d.sql = c.sql

/-- A compiled text keeps the promise exactly when the column that orders `first`, if the
request names one, is a column that the definition names. -/
theorem barrier_iff {req : CompileRequest} {dialect : Dialect} {c : Compiled}
    (h : C.compile req dialect = .ok c) : Barrier C req dialect c ↔ OrderNamed C req := by
  constructor
  · exact fun hbarrier => orderNamed_of_modelled h hbarrier.columns
  · intro horder
    refine ⟨modelled_of_orderNamed h horder, placeholdersOf_sql h, ?_, fun req' c' halike h' => ?_⟩
    · simpa using (binds_of_compileWith h).values
    · obtain ⟨gs, hperm, hgs⟩ := halike.exists_perm req.orderedFilters_perm
      obtain ⟨d, hd, hsql⟩ := compileWith_alike halike hgs h h'
      exact ⟨gs, d, hperm, hd, hsql⟩

end Compiler

/-! ### In the shop -/

namespace Shop

def settings : Settings where
  compileMaxMetrics := 20
  compileMaxDimensions := 20
  compileLimitCap := 10000

/-- The first amount of the orders, by a column of the request. -/
def firstBy (column : String) : Fields :=
  [("metrics", .arr [.str "opening"]), ("order_within_group", .str column)]

/-- A `first` that is ordered by the key of the orders is within the promise. -/
theorem barrier_firstBy_id : ∃ req c, normalizeRequest settings (firstBy "id") = .ok req ∧
    compiler.compile req .duckdb = .ok c ∧ Compiler.Barrier compiler req .duckdb c := by
  refine ⟨_, _, rfl, rfl, (Compiler.barrier_iff rfl).mpr ?_⟩
  intro column howg name hname m b hleaf hkind hagg
  cases howg
  cases List.mem_singleton.mp hname
  have hm : compiler.defn.measure? opening = some (measure opening (ofAmounts orders .first)) := rfl
  rw [(Compiler.leaf_base_iff hm rfl).mp hleaf] at hkind
  cases hkind
  exact .primaryKey (entity orders "orders" (by decide)) List.mem_cons_self rfl
    List.mem_cons_self

/-- A social security number, that the model does not know. -/
def ssn : Name := ⟨"ssn", by decide⟩

theorem not_names_ssn (entity : Name) : ¬ defn.Names entity ssn := by
  rintro (⟨d, hd, -, hc⟩ | ⟨m, b, hm, hkind, -, hc⟩ | ⟨jp, hjp, -, hc⟩ | ⟨jp, hjp, -, hc⟩ |
    ⟨e, he, -, hc⟩)
  · exact absurd hc ((show ∀ d ∈ defn.dimensions, ssn ∉ d.source.columns by decide) d hd)
  · have hamounts : ∀ name ent agg b, (measure name (ofAmounts ent agg)).kind = .base b →
        b.columns = [amount] := by
      rintro name ent agg b hb
      cases hb
      rfl
    have hcolumns : ∀ m ∈ defn.measures, ∀ b, m.kind = .base b → b.columns = [amount] := by
      simp only [defn, List.forall_mem_cons]
      refine ⟨hamounts _ _ _, hamounts _ _ _, hamounts _ _ _, fun b hb => ?_, fun m hm => ?_⟩
      · cases hb
      · cases hm
    rw [hcolumns m hm b hkind] at hc
    exact absurd hc (by decide)
  · exact absurd hc ((show ∀ jp ∈ defn.joinPaths, ssn ∉ jp.on.map Prod.fst by decide) jp hjp)
  · exact absurd hc ((show ∀ jp ∈ defn.joinPaths, ssn ∉ jp.on.map Prod.snd by decide) jp hjp)
  · exact absurd hc ((show ∀ e ∈ defn.entities, ssn ∉ e.primaryKey by decide) e he)

/-- A request brings a column of its own into the text. -/
theorem text_has_ssn : Validated defn datasets ∧ ∃ req c,
    normalizeRequest settings (firstBy "ssn") = .ok req ∧
    compiler.compile req .duckdb = .ok c ∧ ¬ Compiler.Barrier compiler req .duckdb c := by
  refine ⟨validated, _, _, rfl, rfl, fun h => ?_⟩
  obtain ⟨entity, -, hnames⟩ := h.columns.1 _ (List.mem_singleton_self _) ⟨bytes "o", ssn⟩
      (by decide)
  exact not_names_ssn entity hnames

end Shop

end Windrose.Semantic

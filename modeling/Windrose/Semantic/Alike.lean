/-
  Semantic/Alike.lean --- requests that differ in values compile to one query.

  Source: services/semantic-service/app/compiler/compiler.py (_Params, _where_sql,
  _having_sql).

  A clause has the number of its first placeholder and not a value, and how many values it
  binds depends on the operator and their count.  So each step of a compile that succeeds
  succeeds for a request that differs in values, with the same parts (`compileWith_alike`).
-/
import Windrose.Semantic.Clauses

set_option autoImplicit false

namespace Windrose.Semantic

open Windrose.Foundation

/-! ## Requests that differ in values -/

/-- Filters with the same dimension, operator and number of values. -/
structure AlikeFilter (f g : FilterSpec) : Prop where
  dimension : g.dimension = f.dimension
  op : g.op = f.op
  length : g.values.length = f.values.length

/-- HAVING clauses but for the value. -/
structure AlikeHaving (h k : HavingSpec) : Prop where
  metric : k.metric = h.metric
  op : k.op = h.op

/-- Time ranges over the same dimension, or none. -/
def AlikeRange : Option TimeRange → Option TimeRange → Prop
  | none, none => True
  | some tr, some tr' => tr'.dimension = tr.dimension
  | _, _ => False

/-- Requests that differ in the values of filters, range and HAVING at most. -/
structure Alike (req req' : CompileRequest) : Prop where
  metrics : req'.metrics = req.metrics
  dimensions : req'.dimensions = req.dimensions
  filters : List.Forall₂ AlikeFilter req.filters req'.filters
  timeRange : AlikeRange req.timeRange req'.timeRange
  orderBy : req'.orderBy = req.orderBy
  limit : req'.limit = req.limit
  having : List.Forall₂ AlikeHaving req.having req'.having
  joinPaths : req'.joinPaths = req.joinPaths
  orderWithinGroup : req'.orderWithinGroup = req.orderWithinGroup

theorem Alike.exists_perm {req req' : CompileRequest} (h : Alike req req') {fs : List FilterSpec}
    (hfs : fs.Perm req.filters) : ∃ gs, gs.Perm req'.filters ∧ List.Forall₂ AlikeFilter fs gs := by
  obtain ⟨gs, hgs, hperm⟩ := List.perm_comp_forall₂ hfs h.filters
  exact ⟨gs, hperm, hgs⟩

theorem filterClause_alike {f g : FilterSpec} (h : AlikeFilter f g) (target : Expr ColRef)
    (n : Nat) :
    filterClause target g n = filterClause target f n := by
  rw [filterClause, filterClause, h.op, h.length]

namespace Compiler

variable {C : Compiler} {req req' : CompileRequest} {fs gs : List FilterSpec} {dialect : Dialect}
  {base : Name} {hops : List JoinPath}

/-- The range of the request can be read. -/
def RangeRead (C : Compiler) (req : CompileRequest) : Prop :=
  ∀ tr, req.timeRange = some tr → ∃ bounds, C.rangeBounds tr = .ok bounds

/-! ## The parts of a scope -/

variable {before after before' : List Param} {aliases : List (Name × Bytes)}
  {range : Option ResolvedRange}

theorem filterClauses_alike (hfs : List.Forall₂ AlikeFilter fs gs)
    {cs : List Clause} (h : FiltersOf C aliases fs before cs after)
    (hlen : before'.length = before.length) :
    ∃ after', C.filterClauses aliases gs before' = .ok (cs, after') ∧
      after'.length = after.length := by
  induction h generalizing gs before' with
  | nil =>
    cases hfs
    exact ⟨before', rfl, hlen⟩
  | @cons f fs before after cs dim target hdim htarget _ ih =>
    obtain _ | @⟨_, g, _, gs, hfg, hrest⟩ := hfs
    have hbound : (before' ++ boundValues g dim).length = (before ++ boundValues f dim).length := by
      simp [boundValues, hlen, hfg.length]
    obtain ⟨after', hok, hafter⟩ := ih hrest hbound
    refine ⟨after', bind_eq_ok.mpr ⟨dim, hfg.dimension ▸ hdim, bind_eq_ok.mpr ⟨target, htarget,
      bind_eq_ok.mpr ⟨_, hok, ?_⟩⟩⟩, hafter⟩
    rw [filterClause_alike hfg, hlen]
    rfl

theorem rangeSql_alike {tr tr' : Option TimeRange}
    (htr : AlikeRange tr tr') {n : Nat} {out : List Clause × List Param × Option ResolvedRange}
    (h : C.rangeSql aliases n tr = .ok out)
    (hread : ∀ r, tr' = some r → ∃ bounds, C.rangeBounds r = .ok bounds) :
    ∃ own range, C.rangeSql aliases n tr' = .ok (out.1, own, range) ∧
      own.length = out.2.1.length := by
  cases tr with
  | none =>
    cases tr' with
    | none =>
      cases h
      exact ⟨[], none, rfl, rfl⟩
    | some r => exact absurd htr id
  | some r =>
    cases tr' with
    | none => exact absurd htr id
    | some r' =>
      obtain ⟨bounds', hbounds'⟩ := hread r' rfl
      obtain ⟨dim, hdim, h⟩ := bind_eq_ok.mp h
      split at h
      · next htime =>
        obtain ⟨bounds, -, h⟩ := bind_eq_ok.mp h
        obtain ⟨target, htarget, h⟩ := bind_eq_ok.mp h
        cases h
        refine ⟨[rangeParam C.py bounds'.1, rangeParam C.py bounds'.2],
          some ⟨dim.name, bounds'.1, bounds'.2, C.timezone⟩, bind_eq_ok.mpr ⟨dim, ?_, ?_⟩, rfl⟩
        · rw [show r'.dimension = r.dimension from htr]
          exact hdim
        · rw [if_pos htime]
          exact bind_eq_ok.mpr ⟨bounds', hbounds', bind_eq_ok.mpr ⟨target, htarget, rfl⟩⟩
      · cases h

theorem whereSql_alike (hreq : Alike req req')
    (hfs : List.Forall₂ AlikeFilter fs gs) (hread : C.RangeRead req')
    {out : List Clause × List Param × Option ResolvedRange}
    (h : C.whereSql fs req aliases before = .ok out) (hlen : before'.length = before.length) :
    ∃ after range, C.whereSql gs req' aliases before' = .ok (out.1, after, range) ∧
      after.length = out.2.1.length := by
  obtain ⟨filters, hfilters, h⟩ := bind_eq_ok.mp h
  obtain ⟨range, hrange, h⟩ := bind_eq_ok.mp h
  cases h
  obtain ⟨mid, hmid, hmidlen⟩ := filterClauses_alike hfs (filterClauses_ok hfilters) hlen
  obtain ⟨own, range', hrange', hown⟩ := rangeSql_alike hreq.timeRange hrange hread
  rw [← hmidlen] at hrange'
  refine ⟨mid ++ own, range', bind_eq_ok.mpr ⟨_, hmid, bind_eq_ok.mpr ⟨_, hrange', rfl⟩⟩, ?_⟩
  · rw [List.length_append, List.length_append, hmidlen, hown]

theorem scopeTargets_alike (hreq : Alike req req') (hfs : List.Forall₂ AlikeFilter fs gs) :
    C.scopeTargets gs req' = C.scopeTargets fs req := by
  have hfilters : (gs.mapM fun f => C.dimensionEntity f.dimension) =
      fs.mapM fun f => C.dimensionEntity f.dimension := by
    have hnames : gs.map FilterSpec.dimension = fs.map FilterSpec.dimension :=
      forall₂_map_eq hfs fun f g hfg => hfg.dimension
    have hmap : ∀ l : List FilterSpec, (l.mapM fun f => C.dimensionEntity f.dimension) =
        (l.map FilterSpec.dimension).mapM C.dimensionEntity := fun l => by rw [List.mapM_map]; rfl
    rw [hmap, hmap, hnames]
  have hrange : (req'.timeRange.toList.mapM fun tr => C.dimensionEntity tr.dimension) =
      req.timeRange.toList.mapM fun tr => C.dimensionEntity tr.dimension := by
    have htr := hreq.timeRange
    generalize req.timeRange = tr at htr ⊢
    generalize req'.timeRange = tr' at htr ⊢
    cases tr with
    | none =>
      cases tr' with
      | none => rfl
      | some r => exact absurd htr id
    | some r =>
      cases tr' with
      | none => exact absurd htr id
      | some r' =>
        have heq : r'.dimension = r.dimension := htr
        simp only [Option.toList_some, List.mapM_cons, heq]
  rw [scopeTargets, scopeTargets, hfilters, hrange, hreq.dimensions]

theorem dimItems_alike (hreq : Alike req req') (aliases : List (Name × Bytes)) :
    C.dimItems req' aliases = C.dimItems req aliases := by rw [dimItems, dimItems, hreq.dimensions]

theorem groupBySql_alike (hreq : Alike req req') (aliases : List (Name × Bytes)) :
    C.groupBySql req' dialect aliases = C.groupBySql req dialect aliases := by
  rw [groupBySql, groupBySql, hreq.dimensions]

theorem orderLimit_alike (hreq : Alike req req') : C.orderLimit req' = C.orderLimit req := by
  rw [orderLimit, orderLimit, orderParts, orderParts, hreq.orderBy, hreq.dimensions, hreq.metrics,
    hreq.limit]

theorem Scope.alike (hreq : Alike req req') (hfs : List.Forall₂ AlikeFilter fs gs)
    (hread : C.RangeRead req') {s : Select}
    (h : Scope C fs req dialect base hops before after range s)
    (hlen : before'.length = before.length) :
    ∃ after' range', Scope C gs req' dialect base hops before' after' range' s ∧
      after'.length = after.length := by
  obtain ⟨after', range', hwhere, hafter⟩ := whereSql_alike hreq hfs hread h.filters hlen
  refine ⟨after', range', ⟨?_, ?_, hwhere, ?_, h.source⟩, hafter⟩
  · rw [scopeTargets_alike hreq hfs, hreq.joinPaths]
    exact h.targets
  · rw [dimItems_alike hreq]
    exact h.dims
  · rw [groupBySql_alike hreq]
    exact h.groupBy

theorem scopeParts_of_scope {s : Select}
    (h : Scope C fs req dialect base hops before after range s) :
    C.scopeParts fs req base = .ok ⟨hops, aliasesOf base hops⟩ := by
  obtain ⟨targets, htargets, hhops⟩ := h.targets
  exact bind_eq_ok.mpr ⟨targets, htargets, bind_eq_ok.mpr ⟨hops, hhops, rfl⟩⟩

theorem havingClauses_alike {τ : Type} {target : Measure → Except Exn (Expr τ)}
    {hs hs' : List HavingSpec} (hhs : List.Forall₂ AlikeHaving hs hs')
    {cs : List (HavingClause τ)} (h : HavingOf C target hs before cs after)
    (hlen : before'.length = before.length) :
    ∃ after', C.havingClauses target hs' before' = .ok (cs, after') := by
  induction h generalizing hs' before' with
  | nil =>
    cases hhs
    exact ⟨before', rfl⟩
  | @cons spec hs before after cs m e hm he _ ih =>
    obtain _ | @⟨_, spec', _, hs', halike, hrest⟩ := hhs
    have hbound : (before' ++ [havingParam spec']).length =
        (before ++ [havingParam spec]).length := by
      simp [hlen]
    obtain ⟨after', hok⟩ := ih hrest hbound
    refine ⟨after', bind_eq_ok.mpr ⟨m, ?_, bind_eq_ok.mpr ⟨e, he, bind_eq_ok.mpr ⟨_, hok, ?_⟩⟩⟩⟩
    · rw [havingMeasure, halike.metric, hm]
    · rw [halike.op, hlen]
      rfl

/-! ## Plans -/

theorem compileSingle_alike (hreq : Alike req req') (hfs : List.Forall₂ AlikeFilter fs gs)
    (hread : C.RangeRead req') {out : Query × List Param × Option ResolvedRange × List JoinPath}
    (h : C.compileSingle fs req dialect base = .ok out) :
    ∃ out', C.compileSingle gs req' dialect base = .ok out' ∧ out'.1 = out.1 := by
  obtain ⟨s, having, tail, mid, hout, hscope, hmeasures, hhaving, htail⟩ := compileSingle_ok h
  obtain ⟨after', range', hscope', hafter⟩ := hscope.alike hreq hfs hread List.length_nil
  obtain ⟨params', hhaving'⟩ := havingClauses_alike hreq.having (havingClauses_ok hhaving) hafter
  rw [← hreq.metrics, ← hreq.orderWithinGroup] at hmeasures
  rw [← hreq.orderWithinGroup] at hhaving'
  rw [← orderLimit_alike hreq] at htail
  refine ⟨_, bind_eq_ok.mpr ⟨_, scopeParts_of_scope hscope', bind_eq_ok.mpr ⟨_, hscope'.dims,
    bind_eq_ok.mpr ⟨_, hmeasures, bind_eq_ok.mpr ⟨_, hscope'.filters,
      bind_eq_ok.mpr ⟨_, hscope'.groupBy,
    bind_eq_ok.mpr ⟨_, hhaving', bind_eq_ok.mpr ⟨_, htail,
      bind_eq_ok.mpr ⟨_, hscope'.source, rfl⟩⟩⟩⟩⟩⟩⟩⟩,
    hout.symm⟩

theorem compileGroups_alike (hreq : Alike req req') (hfs : List.Forall₂ AlikeFilter fs gs)
    {groups : List (Name × List Name)} (hread : groups ≠ [] → C.RangeRead req') {ss : List Select}
    (h : GroupsOf C fs req dialect groups before ss after)
    (hlen : before'.length = before.length) (range : Option ResolvedRange) (hops : List JoinPath) :
    ∃ out, C.compileGroups gs req' dialect groups before' range hops = .ok out ∧ out.1 = ss ∧
      out.2.1.length = after.length := by
  induction h generalizing before' range hops with
  | nil => exact ⟨_, rfl, rfl, hlen⟩
  | @cons group groups before mid after r own s ss hscope hmeasures _ ih =>
    have hread := hread (List.cons_ne_nil _ _)
    obtain ⟨mid', range', hscope', hmid⟩ := hscope.alike hreq hfs hread hlen
    obtain ⟨out, hok, hss, hafter⟩ := ih (fun _ => hread)
        hmid range' (addAllNew JoinPath.name hops own)
    rw [← hreq.orderWithinGroup] at hmeasures
    have hgroup : C.compileGroup gs req' dialect group before' = .ok (s, mid', range', own) :=
      bind_eq_ok.mpr ⟨_, scopeParts_of_scope hscope', bind_eq_ok.mpr ⟨_, hscope'.dims,
        bind_eq_ok.mpr ⟨_, hmeasures, bind_eq_ok.mpr ⟨_, hscope'.filters,
        bind_eq_ok.mpr ⟨_, hscope'.groupBy, bind_eq_ok.mpr ⟨_, hscope'.source, rfl⟩⟩⟩⟩⟩⟩
    exact ⟨_, bind_eq_ok.mpr ⟨_, hgroup, bind_eq_ok.mpr ⟨_, hok, rfl⟩⟩, by rw [hss], hafter⟩

theorem compileMulti_alike (hreq : Alike req req') (hfs : List.Forall₂ AlikeFilter fs gs)
    {groups : List (Name × List Name)} (hread : groups ≠ [] → C.RangeRead req')
    {out : Query × List Param × Option ResolvedRange × List JoinPath}
    (h : C.compileMulti fs req dialect groups = .ok out) :
    ∃ out', C.compileMulti gs req' dialect groups = .ok out' ∧ out'.1 = out.1 := by
  obtain ⟨ctes, measures, having, tail, mid, hout, hgroups, hmeasures, hhaving, htail⟩ :=
    compileMulti_ok h
  obtain ⟨parts, hparts, hctes, hmid⟩ := compileGroups_alike hreq hfs hread hgroups
    List.length_nil none []
  obtain ⟨params', hhaving'⟩ := havingClauses_alike hreq.having (havingClauses_ok hhaving) hmid
  rw [← hreq.metrics] at hmeasures
  rw [← orderLimit_alike hreq] at htail
  refine ⟨_, bind_eq_ok.mpr ⟨_, hparts, bind_eq_ok.mpr ⟨_, hmeasures, bind_eq_ok.mpr ⟨_, hhaving',
    bind_eq_ok.mpr ⟨_, htail, rfl⟩⟩⟩⟩, ?_⟩
  rw [hout, ← hctes]
  simp only [outerDims, cteJoins, hreq.dimensions]

theorem rangeRead_of_scope {s : Select}
    (h : Scope C fs req dialect base hops before after range s) : C.RangeRead req := by
  obtain ⟨filters, -, hrest⟩ := bind_eq_ok.mp h.filters
  obtain ⟨⟨cs, own, resolved⟩, hout, -⟩ := bind_eq_ok.mp hrest
  have hrange := rangeSql_ok hout
  intro tr htr
  rw [htr] at hrange
  cases hrange with
  | some hdim hbounds htarget => exact ⟨_, hbounds⟩

theorem bases_alike (hreq : Alike req req') : C.bases req' = C.bases req := by
  rw [bases, bases, hreq.metrics]

theorem rangeRead_of_compileWith {c : Compiled} (h : C.compileWith fs req dialect = .ok c)
    {bases : List (Name × Name)} (hbases : C.bases req = .ok bases) :
    groupsOf bases ≠ [] → C.RangeRead req := by
  intro hne
  obtain ⟨bases', out, hbases', hplan, -⟩ := compileWith_ok h
  cases hbases.symm.trans hbases'
  rcases plan_cases hplan with ⟨group, -, hsingle⟩ | ⟨-, hmulti⟩
  · obtain ⟨s, having, tail, mid, -, hscope, -⟩ := compileSingle_ok hsingle
    exact rangeRead_of_scope hscope
  · obtain ⟨ctes, measures, having, tail, mid, -, hgroups, -⟩ := compileMulti_ok hmulti
    generalize groupsOf bases = groups at hne hgroups
    cases hgroups with
    | nil => exact absurd rfl hne
    | cons hscope hmeasures hrest => exact rangeRead_of_scope hscope

/-- Of two requests that differ in values, and compile, the one compiles to the text of the
other when its filters stand in a suitable order. -/
theorem compileWith_alike (hreq : Alike req req') (hfs : List.Forall₂ AlikeFilter fs gs)
    {hs : List FilterSpec} {c c' : Compiled} (h : C.compileWith fs req dialect = .ok c)
    (h' : C.compileWith hs req' dialect = .ok c') :
    ∃ d, C.compileWith gs req' dialect = .ok d ∧ d.sql = c.sql := by
  obtain ⟨requested, hrequested, hrest⟩ := bind_eq_ok.mp h
  obtain ⟨bases, hbases, hrest⟩ := bind_eq_ok.mp hrest
  obtain ⟨dims, hdims, hrest⟩ := bind_eq_ok.mp hrest
  obtain ⟨out, hplan, hc⟩ := bind_eq_ok.mp hrest
  have hread := rangeRead_of_compileWith h' ((bases_alike hreq).trans hbases)
  have hout : ∃ out', C.plan gs req' dialect (groupsOf bases) = .ok out' ∧ out'.1 = out.1 := by
    rcases plan_cases hplan with ⟨group, hgroup, hsingle⟩ | ⟨hne, hmulti⟩
    · rw [hgroup] at hread ⊢
      exact compileSingle_alike hreq hfs (hread (List.cons_ne_nil _ _)) hsingle
    · obtain ⟨out', hok, heq⟩ := compileMulti_alike hreq hfs hread hmulti
      refine ⟨out', ?_, heq⟩
      unfold plan
      split
      · next g hg => exact absurd (congrArg List.length hg) hne
      · exact hok
  obtain ⟨out', hplan', hquery⟩ := hout
  rw [← hreq.metrics] at hrequested
  rw [← bases_alike hreq] at hbases
  rw [← hreq.dimensions] at hdims
  refine ⟨_, bind_eq_ok.mpr ⟨_, hrequested, bind_eq_ok.mpr ⟨_, hbases, bind_eq_ok.mpr ⟨_, hdims,
    bind_eq_ok.mpr ⟨_, hplan', rfl⟩⟩⟩⟩, ?_⟩
  cases hc
  rw [Compiled.sql, Compiled.sql]
  simp only [hquery]

end Compiler

end Windrose.Semantic

/-
  Semantic/Parts.lean --- one measure of a request alone.

  Source: services/semantic-service/app/compiler/compiler.py (compile, _compile_single,
  _compile_multi).

  The request for one base measure compiles when the whole request does
  (`compile_only`), and has the rows of the group of the measure: its SELECT differs in the
  numbers of its placeholders and in the other measures.
-/
import Windrose.Semantic.Clauses
import Windrose.Semantic.Meaning

set_option autoImplicit false

namespace Windrose.Semantic

open Windrose.Foundation
open Windrose.Foundation.Relation

/-! ## Placeholders that are moved -/

variable {before own : List Param}

section Shift

variable {α : Type} [DecidableEq α] {W : Warehouse α}

omit [DecidableEq α] in
theorem bound_of_isPrefix {params : List Param} (h : before ++ own <+: params) {i : Nat}
    (hi : i < own.length) : bound W params (before.length + 1 + i) = own[i]?.bind W.param := by
  obtain ⟨rest, rfl⟩ := h
  have hindex : before.length + 1 + i - 1 = before.length + i := by omega
  rw [bound, hindex, List.append_assoc, List.getElem?_append_right (by omega),
    Nat.add_sub_cancel_left, List.getElem?_append_left hi]

theorem eval_filterClause {before' params params' : List Param} {f : FilterSpec}
    (hown : own.length = f.values.length) (h : before ++ own <+: params)
    (h' : before' ++ own <+: params') (target : Expr ColRef) (w : Joined α) :
    (filterClause target f before.length).eval W params w =
      (filterClause target f before'.length).eval W params' w := by
  have hbound : ∀ i < f.values.length, bound W params (before.length + 1 + i) =
      bound W params' (before'.length + 1 + i) := by
    intro i hi
    rw [bound_of_isPrefix h (hown ▸ hi), bound_of_isPrefix h' (hown ▸ hi)]
  have hlen := fun k => FilterOp.length_of_takes f.values_ok (n := k)
  have hlist : (List.range' (before.length + 1) f.values.length).map (bound W params) =
      (List.range' (before'.length + 1) f.values.length).map (bound W params') := by
    rw [List.range'_eq_map_range, List.range'_eq_map_range, List.map_map, List.map_map]
    exact List.map_congr_left fun i hi => hbound i (List.mem_range.mp hi)
  have hany : ∀ t, (List.range' (before.length + 1) f.values.length).map
      (fun n => W.cmp .eq t (bound W params n)) =
      (List.range' (before'.length + 1) f.values.length).map
        (fun n => W.cmp .eq t (bound W params' n)) := by
    intro t
    simpa [Function.comp_def] using congrArg (List.map (W.cmp .eq t)) hlist
  unfold filterClause
  split
  · rfl
  · rfl
  · simp only [Clause.eval, Clause.target, hany]
  · simp only [Clause.eval, Clause.target, hany]
  · next hop =>
    have htwo := hlen 2 (by rw [hop]; rfl)
    have h0 := hbound 0 (by omega)
    have h1 := hbound 1 (by omega)
    simp only [Clause.eval, Clause.target]
    rw [show before.length + 2 = before.length + 1 + 1 from rfl,
      show before'.length + 2 = before'.length + 1 + 1 from rfl, h1]
    rw [Nat.add_zero, Nat.add_zero] at h0
    rw [h0]
  · next hop =>
    have hone := hlen 1 (by rw [hop]; rfl)
    have h0 := hbound 0 (by omega)
    rw [Nat.add_zero, Nat.add_zero] at h0
    simp only [Clause.eval, Clause.target, h0]
  · next hop =>
    have hone := hlen 1 (by rw [hop]; rfl)
    have h0 := hbound 0 (by omega)
    rw [Nat.add_zero, Nat.add_zero] at h0
    simp only [Clause.eval, Clause.target, h0]

end Shift

/-- Two lists of clauses, over two lists of parameters, hold for the same rows. -/
def SameWhere (cs : List Clause) (params : List Param) (cs' : List Clause) (params' : List Param) :
    Prop :=
  ∀ {α : Type} [DecidableEq α] (W : Warehouse α) (w : Joined α),
    cs.map (fun c => c.eval W params w) = cs'.map fun c => c.eval W params' w

variable {req : CompileRequest} {after : List Param} {cs : List Clause}

namespace Compiler

variable {C : Compiler} {aliases : List (Name × Bytes)}

theorem FiltersOf.shift {fs : List FilterSpec}
    (h : FiltersOf C aliases fs before cs after) (before' : List Param) :
    ∃ cs' own, C.filterClauses aliases fs before' = .ok (cs', before' ++ own) ∧
      after = before ++ own ∧ ∀ params params', before ++ own <+: params →
        before' ++ own <+: params' → SameWhere cs params cs' params' := by
  induction h generalizing before' with
  | nil => exact ⟨[], [], by simp [filterClauses], by simp, fun _ _ _ _ _ _ _ _ => rfl⟩
  | @cons f fs before after cs dim target hdim htarget _ ih =>
    obtain ⟨cs', own, hok, hafter, hsame⟩ := ih (before' ++ boundValues f dim)
    refine ⟨filterClause target f before'.length :: cs', boundValues f dim ++ own, ?_, ?_, ?_⟩
    · refine bind_eq_ok.mpr ⟨dim, hdim, bind_eq_ok.mpr ⟨target, htarget,
        bind_eq_ok.mpr ⟨_, hok, ?_⟩⟩⟩
      rw [List.append_assoc]
      rfl
    · rw [hafter, List.append_assoc]
    · intro params params' hp hp' α _ W w
      rw [← List.append_assoc] at hp hp'
      rw [List.map_cons, List.map_cons, hsame params params' hp hp' W w,
        eval_filterClause (by simp [boundValues])
          ((List.prefix_append _ own).trans hp) ((List.prefix_append _ own).trans hp')]

theorem RangeOf.shift {tr : Option TimeRange} {resolved : Option ResolvedRange}
    (hok : C.rangeSql aliases before.length tr = .ok (cs, own, resolved)) (before' : List Param) :
    ∃ cs', C.rangeSql aliases before'.length tr = .ok (cs', own, resolved) ∧
      ∀ params params', before ++ own <+: params → before' ++ own <+: params' →
        SameWhere cs params cs' params' := by
  cases tr with
  | none =>
    cases hok
    exact ⟨[], rfl, fun _ _ _ _ _ _ _ _ => rfl⟩
  | some tr =>
    unfold rangeSql at hok ⊢
    obtain ⟨dim, hdim, hok⟩ := bind_eq_ok.mp hok
    split at hok
    · next htime =>
      obtain ⟨bounds, hbounds, hok⟩ := bind_eq_ok.mp hok
      obtain ⟨target, htarget, hok⟩ := bind_eq_ok.mp hok
      cases hok
      refine ⟨[.range target (before'.length + 1) (before'.length + 2)], ?_, ?_⟩
      · refine bind_eq_ok.mpr ⟨dim, hdim, ?_⟩
        rw [if_pos htime]
        exact bind_eq_ok.mpr ⟨bounds, hbounds, bind_eq_ok.mpr ⟨target, htarget, rfl⟩⟩
      · intro params params' hp hp' α _ W w
        have h0 := (bound_of_isPrefix (W := W) hp (i := 0) Nat.zero_lt_two).trans
          (bound_of_isPrefix (W := W) hp' (i := 0) Nat.zero_lt_two).symm
        have h1 := (bound_of_isPrefix (W := W) hp (i := 1) Nat.one_lt_two).trans
          (bound_of_isPrefix (W := W) hp' (i := 1) Nat.one_lt_two).symm
        simp only [Nat.add_zero] at h0
        simp only [List.map_cons, List.map_nil, Clause.eval, Clause.target, h0]
        rw [show before.length + 2 = before.length + 1 + 1 from rfl,
          show before'.length + 2 = before'.length + 1 + 1 from rfl, h1]
    · cases hok

theorem whereSql_shift {ordered : List FilterSpec} {range : Option ResolvedRange}
    (h : C.whereSql ordered req aliases before = .ok (cs, after, range)) (before' : List Param) :
    ∃ cs' own, C.whereSql ordered req aliases before' = .ok (cs', before' ++ own, range) ∧
      after = before ++ own ∧ ∀ params params', before ++ own <+: params →
        before' ++ own <+: params' → SameWhere cs params cs' params' := by
  obtain ⟨⟨fcs, mid⟩, hfilters, h⟩ := bind_eq_ok.mp h
  obtain ⟨⟨rcs, rown, resolved⟩, hrange, h⟩ := bind_eq_ok.mp h
  cases h
  obtain ⟨fcs', own, hfilters', hmid, hfsame⟩ := (filterClauses_ok hfilters).shift before'
  simp only at hmid hrange
  subst hmid
  obtain ⟨rcs', hrange', hrsame⟩ := RangeOf.shift hrange (before' ++ own)
  refine ⟨fcs' ++ rcs', own ++ rown, ?_, by rw [List.append_assoc], ?_⟩
  · refine bind_eq_ok.mpr ⟨_, hfilters', bind_eq_ok.mpr ⟨_, hrange', ?_⟩⟩
    rw [List.append_assoc]
    rfl
  · intro params params' hp hp' α _ W w
    rw [← List.append_assoc] at hp hp'
    rw [List.map_append, List.map_append,
      hfsame params params' ((List.prefix_append _ _).trans hp)
        ((List.prefix_append _ _).trans hp') W w,
      hrsame params params' hp hp' W w]

end Compiler

/-! ## The request for one measure -/

/-- The request for one measure alone; it may not order by another. -/
def CompileRequest.only (req : CompileRequest) (name : Name) : CompileRequest :=
  { req with metrics := [name], metrics_nodup := List.nodup_singleton name, orderBy := [] }

namespace Compiler

variable {C : Compiler}

variable {m : Measure} {name : Name}

theorem measure_of_baseMeasures {fuel : Nat} {seen : List Name} {out : List Name}
    (h : C.baseMeasures fuel seen name = .ok out) (hleaf : Leaf C name m) :
    C.measure m.name = .ok m := by
  induction hleaf generalizing fuel seen out with
  | base hm hkind =>
    cases fuel with
    | zero => cases h
    | succ fuel =>
      unfold baseMeasures at h
      split at h
      · cases h
      · obtain ⟨m', hm', -⟩ := bind_eq_ok.mp h
        cases Option.some.inj (hm.symm.trans (measure_ok hm'))
        rwa [(Definition.of_measure? hm).2]
  | derived hm hkind href _ ih =>
    cases fuel with
    | zero => cases h
    | succ fuel =>
      unfold baseMeasures at h
      split at h
      · cases h
      · obtain ⟨m', hm', h⟩ := bind_eq_ok.mp h
        cases Option.some.inj (hm.symm.trans (measure_ok hm'))
        simp only [hkind] at h
        obtain ⟨parts, hparts, -⟩ := bind_eq_ok.mp h
        obtain ⟨part, -, hpart⟩ := forall₂_left (mapM_eq_ok.mp hparts) (mem_sortedColumns.mpr href)
        exact ih hpart

theorem measure_of_bases {bases : List (Name × Name)}
    (h : C.bases req = .ok bases) {metric : Name} (hmetric : metric ∈ req.metrics)
    (hleaf : Leaf C metric m) : C.measure m.name = .ok m := by
  obtain ⟨parts, hparts, -⟩ := bind_eq_ok.mp h
  obtain ⟨part, -, hpart⟩ := forall₂_left (mapM_eq_ok.mp hparts) hmetric
  exact measure_of_baseMeasures hpart hleaf

theorem bases_only {b : BaseMeasure} (hm : C.measure name = .ok m) (hkind : m.kind = .base b) :
    C.bases (req.only name) = .ok [(name, b.entity)] := by
  have hbase : C.baseMeasures C.depth [] name = .ok [name] := by
    unfold depth baseMeasures
    rw [if_neg List.not_mem_nil]
    refine bind_eq_ok.mpr ⟨m, hm, ?_⟩
    rw [hkind]
    rfl
  have hentity : C.entityOf name = .ok b.entity := by
    rw [entityOf, measure_ok hm]
    simp [hkind]
  refine bind_eq_ok.mpr ⟨[[name]], mapM_eq_ok.mpr (.cons hbase .nil), ?_⟩
  refine mapM_eq_ok.mpr (.cons ?_ .nil)
  rw [hentity]
  rfl

theorem metricItems_only {b : BaseMeasure} {dialect : Dialect}
    {aliases : List (Name × Bytes)} {owg : Option Name} (hm : C.defn.measure? name = some m)
    (hkind : m.kind = .base b) {i : Item AggCall}
    (hitem : C.groupItem dialect aliases owg name = .ok i) :
    C.metricItems (C.aggLeaf dialect aliases owg) [name] = .ok [i] := by
  obtain ⟨m', hm', hitem⟩ := bind_eq_ok.mp hitem
  obtain ⟨e, he, hitem⟩ := bind_eq_ok.mp hitem
  cases hitem
  cases Option.some.inj (hm.symm.trans (getKey_eq_ok.mp hm'))
  refine mapM_eq_ok.mpr (.cons ?_ .nil)
  unfold depth metricExpr
  simp only [hm, hkind, he]
  rfl

theorem orderLimit_only {aliases : List (Name × Bytes)}
    {items : List (Item ColRef)} (h : C.dimItems req aliases = .ok items) (name : Name) :
    ∃ tail, C.orderLimit (req.only name) = .ok tail := by
  have hdims : ∃ dims, (req.dimensions.mapM fun d => C.dimension d.name) = .ok dims := by
    refine exists_mapM_ok fun d hd => ?_
    obtain ⟨i, -, hi, -⟩ := forall₂_left (dimItems_ok h) hd
    obtain ⟨dim, hdim, -⟩ := dimRefSql_ok hi
    exact ⟨dim, hdim⟩
  obtain ⟨dims, hdims⟩ := hdims
  have hparts : C.orderParts (req.only name) =
      .ok ((dims.zipIdx.filter fun d => d.1.dimType = .time).map fun d => (d.2 + 1, false)) := by
    have hempty : ¬ (req.only name).orderBy ≠ [] := not_not_intro rfl
    rw [orderParts, if_neg hempty]
    exact map_eq_ok.mpr ⟨dims, hdims, rfl⟩
  exact ⟨_, map_eq_ok.mpr ⟨_, hparts, rfl⟩⟩

theorem compileWith_only {ordered : List FilterSpec} {dialect : Dialect}
    {base : Name} {hops : List JoinPath} {range : Option ResolvedRange} {s : Select}
    (hscope : Scope C ordered req dialect base hops before after range s) {i : Item AggCall}
    (hitem : C.groupItem dialect (aliasesOf base hops) req.orderWithinGroup name = .ok i)
    {b : BaseMeasure} (hm : C.measure name = .ok m) (hkind : m.kind = .base b)
    (hbase : b.entity = base) (hhaving : req.having = []) :
    ∃ c cs own tail, C.compileWith ordered (req.only name) dialect = .ok c ∧
      c.query = .single ⟨s.dims, [i], s.source, cs, s.groupBy⟩ [] tail ∧ c.params = own ∧
      after = before ++ own ∧ ∀ params, after <+: params → SameWhere s.filters params cs own := by
  obtain ⟨cs, own, hwhere, hafter, hsame⟩ := whereSql_shift hscope.filters []
  obtain ⟨tail, htail⟩ := orderLimit_only hscope.dims name
  obtain ⟨targets, htargets, hhops⟩ := hscope.targets
  have hparts : C.scopeParts ordered (req.only name) base = .ok ⟨hops, aliasesOf base hops⟩ :=
    bind_eq_ok.mpr ⟨targets, htargets, bind_eq_ok.mpr ⟨hops, hhops, rfl⟩⟩
  have hmeasures := metricItems_only (measure_ok hm) hkind hitem
  have hsingle : C.compileSingle ordered (req.only name) dialect base =
      .ok (.single ⟨s.dims, [i], s.source, cs, s.groupBy⟩ [] tail, own, range, hops) := by
    refine bind_eq_ok.mpr ⟨_, hparts, bind_eq_ok.mpr ⟨_, hscope.dims, bind_eq_ok.mpr ⟨_, hmeasures,
      bind_eq_ok.mpr ⟨_, hwhere, bind_eq_ok.mpr ⟨_, hscope.groupBy, bind_eq_ok.mpr ⟨([], own), ?_,
      bind_eq_ok.mpr ⟨_, htail, bind_eq_ok.mpr ⟨_, hscope.source, rfl⟩⟩⟩⟩⟩⟩⟩⟩
    rw [show (req.only name).having = [] from hhaving]
    rfl
  have hdims : ∃ dims, (req.dimensions.mapM fun d => (C.dimension d.name).map (·, d.grain)) =
      .ok dims := by
    refine exists_mapM_ok fun d hd => ?_
    obtain ⟨i, -, hi, -⟩ := forall₂_left (dimItems_ok hscope.dims) hd
    obtain ⟨dim, hdim, -⟩ := dimRefSql_ok hi
    exact ⟨_, map_eq_ok.mpr ⟨dim, hdim, rfl⟩⟩
  obtain ⟨dims, hdims⟩ := hdims
  have hgroups : groupsOf [(name, b.entity)] = [(base, [name])] := by
    simp [groupsOf, addAllNew, addNew, hbase]
  have hplan : C.plan ordered (req.only name) dialect (groupsOf [(name, b.entity)]) =
      .ok (.single ⟨s.dims, [i], s.source, cs, s.groupBy⟩ [] tail, own, range, hops) := by
    rw [hgroups]
    exact hsingle
  refine ⟨_, cs, own, tail, bind_eq_ok.mpr ⟨[m], mapM_eq_ok.mpr (.cons hm .nil),
    bind_eq_ok.mpr ⟨_, bases_only hm hkind, bind_eq_ok.mpr ⟨dims, hdims,
    bind_eq_ok.mpr ⟨_, hplan, rfl⟩⟩⟩⟩, rfl, rfl, hafter, ?_⟩
  intro params hp
  exact hsame params own (hafter ▸ hp) (by simp)

end Compiler

end Windrose.Semantic

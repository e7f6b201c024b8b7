/-
  Semantic/MultiPlan.lean --- the joined plan and its parts.

  Source: services/semantic-service/app/compiler/compiler.py (_compile_multi, _select_items).

  A request over several entities has one common table expression for each, and joins them
  on the dimensions with FULL JOIN.  `=` is false of two NULLs, so a combination with a NULL
  that two of them have stays apart: the joined plan means the same as its parts exactly
  when there is none (`multi_means_parts_iff`).
-/
import Windrose.Semantic.Fanout
import Windrose.Semantic.Parts

set_option autoImplicit false

namespace Windrose.Semantic

open Windrose.Foundation
open Windrose.Foundation.Relation

/-! ## What the parts say -/

section Spec

variable {α : Type} [DecidableEq α]

/-- The combination of values that a row has for some dimensions. -/
def rowKey (names : List Name) (r : OutRow α) : List (Option α) := names.map r.value

def CompileRequest.names (req : CompileRequest) : List Name := req.dimensions.map DimRef.name

/-- A request without conditions on measures and without a limit. -/
structure CompileRequest.Plain (req : CompileRequest) : Prop where
  having : req.having = []
  limit : req.limit = none

namespace Compiler

variable (C : Compiler) (W : Warehouse α) (tables : Tables α) (dialect : Dialect)

/-- What the compiled request returns. -/
def answer (req : CompileRequest) : List (OutRow α) :=
  match C.compile req dialect with
  | .ok c => c.query.result W tables c.params
  | .error _ => []

/-- The value that the request for one measure has for a combination; NULL if none. -/
def partValue (req : CompileRequest) (k : List (Option α)) (name : Name) : Option α :=
  ((C.answer W tables dialect (req.only name)).find? (rowKey req.names · = k)).bind
  (OutRow.value · name)

/-- A measure over the values of base measures. -/
def metricValue (leaf : Name → Option α) : Nat → Name → Option α
  | 0, _ => none
  | fuel + 1, name =>
    match C.defn.measure? name with
    | none => none
    | some m =>
      match m.kind with
      | .base _ => leaf name
      | .derived d => d.exprMetric.eval W.toEngine (metricValue leaf fuel)

/-- A combination that the request for one measure returns. -/
def Occurs (req : CompileRequest) (name : Name) (k : List (Option α)) : Prop :=
  ∃ r ∈ C.answer W tables dialect (req.only name), rowKey req.names r = k

/-- The rows mean the same as the requests for single measures: one row for each combination
of some of them, each measure with the value that they give. -/
structure SameAsParts (req : CompileRequest) (bases : List (Name × Name)) (rows : List (OutRow α)) :
    Prop where
  compiles : ∀ p ∈ bases, ∃ c, C.compile (req.only p.1) dialect = .ok c
  keys_nodup : (rows.map (rowKey req.names)).Nodup
  mem_keys : ∀ k, k ∈ rows.map (rowKey req.names) ↔ ∃ p ∈ bases, C.Occurs W tables dialect req p.1 k
  values : ∀ r ∈ rows, ∀ metric ∈ req.metrics, OutRow.value r metric =
    C.metricValue W (C.partValue W tables dialect req (rowKey req.names r)) C.depth metric

end Compiler

end Spec

/-! ## The values of a row -/

section Values

variable {α : Type} {ι : Type}

variable {name : ι → Name} {v : ι → Option α} {items : List ι}

theorem lookup_map_of_nodup (h : (items.map name).Nodup) {i : ι} (hi : i ∈ items) :
    (items.map fun i => (name i, v i)).lookup (name i) = some (v i) := by
  induction items with
  | nil => cases hi
  | cons j items ih =>
    obtain ⟨hj, hitems⟩ := List.nodup_cons.mp h
    rcases List.mem_cons.mp hi with rfl | hi
    · simp
    · have hne : name i ≠ name j := fun heq => hj (heq ▸ List.mem_map_of_mem hi)
      rw [List.map_cons, List.lookup_cons, beq_false_of_ne hne]
      exact ih hitems hi

theorem value_append_left (h : (items.map name).Nodup) {i : ι} (hi : i ∈ items) (rest : OutRow α) :
    OutRow.value ((items.map fun i => (name i, v i)) ++ rest) (name i) = v i := by
  rw [OutRow.value, List.lookup_append, lookup_map_of_nodup h hi]
  rfl

theorem value_append_right {r : OutRow α} {name : Name} (h : name ∉ r.map Prod.fst)
    (rest : OutRow α) : OutRow.value (r ++ rest) name = OutRow.value rest name := by
  have hnone : r.lookup name = none := by
    rw [List.lookup_eq_none_iff]
    intro p hp
    have hne : name ≠ p.1 := by
      rintro rfl
      exact h (List.mem_map_of_mem hp)
    simpa using hne
  rw [OutRow.value, List.lookup_append, hnone]
  rfl

theorem value_map (h : (items.map name).Nodup) {i : ι} (hi : i ∈ items) :
    OutRow.value (items.map fun i => (name i, v i)) (name i) = v i := by
  rw [OutRow.value, lookup_map_of_nodup h hi]
  rfl

theorem rowKey_append (h : (items.map name).Nodup) (rest : OutRow α) :
    rowKey (items.map name) ((items.map fun i => (name i, v i)) ++ rest) = items.map v := by
  rw [rowKey, List.map_map]
  exact List.map_congr_left fun i hi => value_append_left h hi rest

end Values

/-! ## The rows of one SELECT -/

section Results

variable {α : Type} [DecidableEq α] {W : Warehouse α} {tables : Tables α} {params : List Param}

/-- A SELECT groups by its dimensions. -/
structure Select.Grouped (s : Select) : Prop where
  nodup : (s.dims.map Item.name).Nodup
  keyExprs : s.keyExprs = s.dims.map Item.expr
  none_iff : s.groupBy = .none ↔ s.dims = []

variable {s : Select} (hs : s.Grouped)
include hs

theorem Select.Grouped.rowKey_outRow {g : List (Joined α)} {w : Joined α} (hw : g.head? = some w) :
    rowKey (s.dims.map Item.name) (s.outRow W g) = keyOf W s.keyExprs w := by
  rw [Select.outRow, rowKey_append hs.nodup, hs.keyExprs, keyOf, List.map_map]
  exact List.map_congr_left fun i _ => by rw [hw]; rfl

theorem Select.Grouped.keys_result :
    (s.result W tables params).map (rowKey (s.dims.map Item.name)) =
      if s.dims = [] then [[]] else keys (keyOf W s.keyExprs) (s.rows W tables params) := by
  split
  · next hdims =>
    rw [Select.result, Select.groups]
    simp only [hs.none_iff.mpr hdims, List.map_cons, List.map_nil, hdims]
    rfl
  · next hdims =>
    have hgroups : s.groups W tables params =
        (keys (keyOf W s.keyExprs) (s.rows W tables params)).map
        (group (keyOf W s.keyExprs) (s.rows W tables params)) := by
      rw [Select.groups]
      split
      · next hnone => exact absurd (hs.none_iff.mp hnone) hdims
      · rfl
    rw [Select.result, hgroups, List.map_map, List.map_map]
    conv_rhs => rw [← List.map_id (keys (keyOf W s.keyExprs) (s.rows W tables params))]
    refine List.map_congr_left fun k hk => ?_
    have hne : group (keyOf W s.keyExprs) (s.rows W tables params) k ≠ [] := by
      rw [ne_eq, group_eq_nil, not_not]
      exact hk
    obtain ⟨w, ws, hws⟩ := List.exists_cons_of_ne_nil hne
    have hw : (group (keyOf W s.keyExprs) (s.rows W tables params) k).head? = some w := by
      rw [hws, List.head?_cons]
    have hmem : w ∈ group (keyOf W s.keyExprs) (s.rows W tables params) k := by
      rw [hws]
      exact List.mem_cons_self
    have hkey : keyOf W s.keyExprs w = k := of_decide_eq_true (List.mem_filter.mp hmem).2
    rw [Function.comp_apply, Function.comp_apply, hs.rowKey_outRow hw, hkey, id_eq]

theorem Select.Grouped.keys_nodup :
    ((s.result W tables params).map (rowKey (s.dims.map Item.name))).Nodup := by
  rw [hs.keys_result]
  split
  · exact List.nodup_singleton _
  · exact Relation.keys_nodup _

end Results

/-- A SELECT with one of the measures, and conditions that mean the same, has the same
combinations and values. -/
theorem result_only {α : Type} [DecidableEq α] {W : Warehouse α} {tables : Tables α} {s : Select}
    {i : Item AggCall} {cs : List Clause} {params own : List Param}
    (hnodup : (s.measures.map Item.name).Nodup) (hi : i ∈ s.measures)
    (hne : i.name ∉ s.dims.map Item.name) (hsame : SameWhere s.filters params cs own)
    (names : List Name)
    (hnames : names = s.dims.map Item.name) (hdims : names.Nodup) :
    ((Select.mk s.dims [i] s.source cs s.groupBy).result W tables own).map
        (fun r => (rowKey names r, OutRow.value r i.name)) =
      (s.result W tables params).map fun r => (rowKey names r, OutRow.value r i.name) := by
  have hrows : (Select.mk s.dims [i] s.source cs s.groupBy).rows W tables own =
      s.rows W tables params := by
    rw [Select.rows, Select.rows]
    refine List.filter_congr fun w _ => ?_
    have hall : ∀ (cs : List Clause) (params : List Param),
        (cs.all fun c => c.eval W params w = some true) =
          (cs.map fun c => c.eval W params w).all (· = some true) := by
      intro cs params
      rw [List.all_map]
      rfl
    rw [hall, hall, hsame W w]
  have hgroups : (Select.mk s.dims [i] s.source cs s.groupBy).groups W tables own =
      s.groups W tables params := by
    rw [Select.groups, hrows]
    rfl
  rw [Select.result, Select.result, hgroups, List.map_map, List.map_map]
  refine List.map_congr_left fun g _ => ?_
  have hkey : ∀ rest : OutRow α, rowKey names ((s.dims.map fun i =>
      (i.name, g.head?.bind fun w => i.expr.eval W.toEngine w.col)) ++ rest) =
      s.dims.map fun i => g.head?.bind fun w => i.expr.eval W.toEngine w.col := by
    intro rest
    rw [hnames] at hdims ⊢
    exact rowKey_append hdims rest
  have hright : i.name ∉ (s.dims.map fun i =>
      (i.name, g.head?.bind fun w => i.expr.eval W.toEngine w.col)).map Prod.fst := by
    rwa [List.map_map]
  simp only [Function.comp_apply, Select.outRow, hkey, value_append_right hright]
  rw [value_map hnodup hi]
  have hone : ([i].map Item.name).Nodup := List.nodup_singleton _
  rw [value_map (v := fun i => aggValue W g i.expr) hone (List.mem_singleton_self i)]

/-! ## The chain of joins -/

section Chain

variable {α : Type} [DecidableEq α]

/-- The value of a dimension in a wide row, from whichever table has it. -/
def wideValue (w : List (Option (OutRow α))) (name : Name) : Option α :=
  (w.map fun o => o.bind (OutRow.value · name)).findSome? id

/-- The dimensions of a row are equal to those of a wide row, and not NULL. -/
def meets (W : Warehouse α) (names : List Name) (w : List (Option (OutRow α)))
    (r : OutRow α) : Bool :=
  names.all fun name => W.cmp .eq (OutRow.value r name) (wideValue w name) = some true

/-- A combination without NULL. -/
def noNull (k : List (Option α)) : Bool := k.all Option.isSome

omit [DecidableEq α] in
theorem findSome?_id_eq {l : List (Option α)} {v : Option α} (hmem : v ∈ l)
    (hall : ∀ o ∈ l, o = none ∨ o = v) : l.findSome? id = v := by
  cases v with
  | none =>
    rw [List.findSome?_eq_none_iff]
    intro o ho
    rcases hall o ho with rfl | rfl
    · rfl
    · rfl
  | some x =>
    cases h : l.findSome? id with
    | none => exact absurd (List.findSome?_eq_none_iff.mp h _ hmem) (by simp)
    | some y =>
      obtain ⟨o, ho, hy⟩ := List.exists_of_findSome?_eq_some h
      rcases hall o ho with rfl | rfl
      · cases hy
      · exact hy.symm

variable {w : List (Option (OutRow α))} {names : List Name}

omit [DecidableEq α] in
theorem wideValue_of_uniform {k : List (Option α)}
    (h : Uniform (rowKey names) w k) : names.map (wideValue w) = k := by
  obtain ⟨⟨r, hr⟩, hall⟩ := h
  rw [← hall r hr]
  refine List.map_congr_left fun name hname => findSome?_id_eq ?_ ?_
  · exact List.mem_map.mpr ⟨some r, hr, rfl⟩
  · intro v hv
    obtain ⟨o, ho, rfl⟩ := List.mem_map.mp hv
    cases o with
    | none => exact .inl rfl
    | some s =>
      have heq := (hall s ho).trans (hall r hr).symm
      exact .inr (List.map_inj_left.mp heq name hname)

theorem meets_iff {W : Warehouse α} {r : OutRow α} :
    meets W names w r = true ↔
      noNull (names.map (wideValue w)) = true ∧ rowKey names r = names.map (wideValue w) := by
  rw [meets, List.all_eq_true, noNull, List.all_map, List.all_eq_true, rowKey, List.map_inj_left,
    ← forall₂_and]
  refine forall₂_congr fun name _ => ?_
  rw [decide_eq_true_iff, Engine.cmp_eq_some_true, Function.comp_apply, Option.isSome_iff_exists]
  constructor
  · rintro ⟨v, hr, hw⟩
    exact ⟨⟨v, hw⟩, hr.trans hw.symm⟩
  · rintro ⟨⟨v, hw⟩, hr⟩
    exact ⟨v, hr.trans hw, hw⟩

theorem meetsByKey (W : Warehouse α) (names : List Name) :
    MeetsByKey (meets W names) noNull (rowKey names) := by
  intro w k r hw
  rw [meets_iff, wideValue_of_uniform hw]

/-! ### The joins of the compiler -/

omit [DecidableEq α] in
theorem coalesceValue_range (w : List (Option (OutRow α))) (name : Name) :
    coalesceValue w ((List.range w.length).map (⟨·, name⟩)) = wideValue w name := by
  have hvalues : ((List.range w.length).map (⟨·, name⟩)).map (cteValue w) =
      w.map fun o => o.bind (OutRow.value · name) := by
    refine List.ext_getElem (by simp) fun i hi hi' => ?_
    have hlt : i < w.length := by simpa using hi
    simp [cteValue, List.getElem?_eq_getElem hlt]
  rw [coalesceValue, hvalues, wideValue]

/-- The condition of a join with `k` tables before it. -/
def onDims (names : List Name) (k : Nat) : List (CteRef × List CteRef) :=
  names.map fun name => (⟨k, name⟩, (List.range k).map (⟨·, name⟩))

theorem fullHolds_onDims {W : Warehouse α}
    (r : OutRow α) : fullHolds W (onDims names w.length) w r = meets W names w r := by
  rw [fullHolds, onDims, List.all_map, meets]
  refine congrArg _ (funext fun name => ?_)
  simp [coalesceValue_range, cteValue]

variable {tables : List (List (OutRow α))}

theorem joinCtes_full {W : Warehouse α} {k : Nat}
    {left : List (List (Option (OutRow α)))} (hleft : ∀ w ∈ left, w.length = k) :
    joinCtes W k left (((List.range' k tables.length).map fun j => .full (onDims names j)).zip
      tables) =
      fullJoins (meets W names) k left tables := by
  induction tables generalizing k left with
  | nil => rfl
  | cons table tables ih =>
    have hcongr : fullJoin (fullHolds W (onDims names k)) k left table =
        fullJoin (meets W names) k left table :=
      fullJoin_congr (fun w hw r => hleft w hw ▸ fullHolds_onDims r) table
    rw [List.length_cons, List.range'_succ, List.map_cons, List.zip_cons_cons, joinCtes, fullJoins,
      hcongr]
    exact ih (length_of_mem_fullJoin hleft)

theorem joinCtes_cross {W : Warehouse α} {k : Nat}
    {left : List (List (Option (OutRow α)))} (hleft : left ≠ []) (htables : ∀ t ∈ tables, t ≠ []) :
    joinCtes W k left (((List.range' k tables.length).map fun _ => CteJoin.cross).zip tables) =
      fullJoins (meets W []) k left tables := by
  induction tables generalizing k left with
  | nil => rfl
  | cons table tables ih =>
    obtain ⟨htable, hrest⟩ := List.forall_mem_cons.mp htables
    have hcross : crossJoin left table = fullJoin (meets W []) k left table :=
      crossJoin_eq_fullJoin (fun _ _ => rfl) hleft htable
    rw [List.length_cons, List.range'_succ, List.map_cons, List.zip_cons_cons, joinCtes, fullJoins,
      ← hcross]
    exact ih (crossJoin_ne_nil hleft htable) hrest

variable {W : Warehouse α} {req : CompileRequest}

theorem wideRows_eq {o : Outer}
    (hjoins : o.joins = Compiler.cteJoins req tables.length)
    (hone : req.dimensions = [] → ∀ t ∈ tables, t ≠ []) :
    o.wideRows W tables = fullJoinAll (meets W req.names) tables := by
  cases tables with
  | nil => rfl
  | cons table tables =>
    rw [Outer.wideRows, fullJoinAll, hjoins, Compiler.cteJoins, List.length_cons,
      Nat.add_sub_cancel]
    by_cases hdims : req.dimensions = []
    · obtain ⟨htable, hrest⟩ := List.forall_mem_cons.mp (hone hdims)
      have hnames : req.names = [] := by rw [CompileRequest.names, hdims, List.map_nil]
      simp only [hdims, if_true, hnames]
      exact joinCtes_cross (by simpa using htable) hrest
    · have hon : ∀ k, req.dimensions.map (fun d => (CteRef.mk k d.name,
          (List.range k).map (CteRef.mk · d.name))) = onDims req.names k := by
        intro k
        rw [onDims, CompileRequest.names, List.map_map]
        rfl
      simp only [hdims, if_false, hon]
      refine joinCtes_full fun w hw => ?_
      obtain ⟨r, -, rfl⟩ := List.mem_map.mp hw
      rfl

theorem rowKey_outerRow {o : Outer} {k : List (Option α)}
    (hdims : o.dims = Compiler.outerDims req w.length) (hnodup : req.names.Nodup)
    (hw : Uniform (rowKey req.names) w k) : rowKey req.names (o.outRow W w) = k := by
  have hpairs : o.dims.map (fun d => (d.2, coalesceValue w d.1)) =
      req.names.map fun name => (name, wideValue w name) := by
    rw [hdims, Compiler.outerDims, CompileRequest.names, List.map_map, List.map_map]
    exact List.map_congr_left fun d _ => by simp [coalesceValue_range]
  have hkey := rowKey_append (by simpa using hnodup : (req.names.map id).Nodup)
    (o.measures.map fun i => (i.name, i.expr.eval W.toEngine (cteValue w))) (v := wideValue w)
  rw [Outer.outRow, hpairs, ← wideValue_of_uniform hw]
  simpa using hkey

end Chain

/-! ## The tables of the groups -/

namespace Compiler

variable {C : Compiler} {req : CompileRequest} {dialect : Dialect}

theorem dims_names {aliases : List (Name × Bytes)} {items : List (Item ColRef)}
    (h : C.dimItems req aliases = .ok items) : items.map Item.name = req.names := by
  exact forall₂_map_eq (dimItems_ok h) fun d i hi => hi.2

variable {before after : List Param} {ordered : List FilterSpec}
  {datasets : String → Option Dataset}

theorem Scope.grouped {base : Name} {hops : List JoinPath}
    {range : Option ResolvedRange} {s : Select}
    (h : Scope C ordered req dialect base hops before after range s) : s.Grouped := by
  have hnames := dims_names h.dims
  have hlen : s.dims.length = req.dimensions.length := by
    rw [← List.length_map (f := Item.name), hnames, CompileRequest.names, List.length_map]
  have hexprs : req.dimensions.mapM (C.dimRefSql (aliasesOf base hops)) =
      .ok (s.dims.map Item.expr) :=
    mapM_eq_ok.mpr (List.forall₂_map_right_iff.mpr ((dimItems_ok h.dims).imp fun _ _ hi => hi.1))
  have hnil : s.dims = [] ↔ req.dimensions = [] := by
    rw [← List.length_eq_zero_iff, hlen, List.length_eq_zero_iff]
  have hgroup := h.groupBy
  rw [groupBySql, hexprs, ← hlen] at hgroup
  split at hgroup
  · next hdims =>
    have hnone := Except.ok.inj hgroup
    refine ⟨hnames ▸ req.dimensions_nodup, ?_, by simp [← hnone, hnil.mpr hdims]⟩
    simp [Select.keyExprs, ← hnone, hnil.mpr hdims]
  · next hdims =>
    rw [← hnil] at hdims
    split at hgroup
    · have hordinals := Except.ok.inj hgroup
      refine ⟨hnames ▸ req.dimensions_nodup, ?_, by simp [← hordinals, hdims]⟩
      simp [Select.keyExprs, ← hordinals]
    · have hkeys := Except.ok.inj hgroup
      refine ⟨hnames ▸ req.dimensions_nodup, ?_, by simp [← hkeys, hdims]⟩
      simp [Select.keyExprs, ← hkeys]

theorem metric_not_mem_names (hvalid : Validated C.defn datasets)
    {c : Compiled} (h : C.compileWith ordered req dialect = .ok c) :
    ∀ metric ∈ req.metrics, metric ∉ req.names := by
  obtain ⟨requested, hrequested, h⟩ := bind_eq_ok.mp h
  obtain ⟨bases, -, h⟩ := bind_eq_ok.mp h
  obtain ⟨dims, hdims, -⟩ := bind_eq_ok.mp h
  intro metric hmetric hname
  obtain ⟨d, hd, rfl⟩ := List.mem_map.mp hname
  obtain ⟨m, -, hm⟩ := forall₂_left (mapM_eq_ok.mp hrequested) hmetric
  obtain ⟨p, -, hp⟩ := forall₂_left (mapM_eq_ok.mp hdims) hd
  obtain ⟨dim, hdim, -⟩ := map_eq_ok.mp hp
  obtain ⟨hmem, hdname⟩ := Definition.of_dimension? (dimension_ok hdim)
  obtain ⟨hmem', hmname⟩ := Definition.of_measure? (measure_ok hm)
  exact hvalid.names_ne hmem hmem' (hmname.trans hdname.symm)

theorem GroupsOf.isPrefix {groups : List (Name × List Name)} {ss : List Select}
    (h : GroupsOf C ordered req dialect groups before ss after) : before <+: after := by
  induction h with
  | nil => exact List.prefix_rfl
  | cons hscope _ _ ih =>
    obtain ⟨cs, own, -, hafter, -⟩ := whereSql_shift hscope.filters []
    exact (hafter ▸ List.prefix_append _ own).trans ih

section Tables

variable {α : Type} [DecidableEq α]

/-- The table of a group has what the requests for its measures return. -/
structure PartOf (C : Compiler) (W : Warehouse α) (tables : Tables α) (dialect : Dialect)
    (req : CompileRequest) (g : Name × List Name) (rows : List (OutRow α)) : Prop where
  compiles : ∀ n ∈ g.2, ∃ c, C.compile (req.only n) dialect = .ok c
  keys_nodup : (rows.map (rowKey req.names)).Nodup
  ne_nil : req.dimensions = [] → rows ≠ []
  same : ∀ n ∈ g.2, (C.answer W tables dialect (req.only n)).map
    (fun r => (rowKey req.names r, OutRow.value r n)) =
      rows.map fun r => (rowKey req.names r, OutRow.value r n)

variable {W : Warehouse α} {tables : Tables α} {g : Name × List Name} {rows : List (OutRow α)}

theorem PartOf.occurs (h : PartOf C W tables dialect req g rows) {n : Name} (hn : n ∈ g.2)
    (k : List (Option α)) :
    C.Occurs W tables dialect req n k ↔ k ∈ rows.map (rowKey req.names) := by
  have hkeys := congrArg (List.map Prod.fst) (h.same n hn)
  rw [List.map_map, List.map_map] at hkeys
  rw [Occurs, ← List.mem_map]
  exact iff_of_eq (congrArg (k ∈ ·) hkeys)

theorem PartOf.value (h : PartOf C W tables dialect req g rows) {n : Name} (hn : n ∈ g.2)
    (k : List (Option α)) : C.partValue W tables dialect req k n =
      (at? (rowKey req.names) rows k).bind (OutRow.value · n) := by
  have hfind : ∀ l : List (OutRow α), (l.find? (rowKey req.names · = k)).bind (OutRow.value · n) =
      ((l.map fun r => (rowKey req.names r, OutRow.value r n)).find? (·.1 = k)).bind Prod.snd := by
    intro l
    rw [List.find?_map, Option.bind_map]
    rfl
  rw [partValue, at?, hfind, h.same n hn, ← hfind]

theorem Scope.partOf (hvalid : Validated C.defn datasets)
    {base : Name} {hops : List JoinPath} {params : List Param}
    {range : Option ResolvedRange} {s : Select}
    (h : Scope C req.orderedFilters req dialect base hops before after range s)
    (hp : after <+: params) {names : List Name}
    (hmeasures : names.mapM (C.groupItem dialect (aliasesOf base hops) req.orderWithinGroup) =
      .ok s.measures) (hnodup : names.Nodup)
    (hbases : ∀ n ∈ names, ∃ m b, C.measure n = .ok m ∧ m.kind = .base b ∧ b.entity = base)
    (hhaving : req.having = []) :
    PartOf C W tables dialect req (base, names) (s.result W tables params) := by
  have hdims := dims_names h.dims
  have hitem : ∀ {n : Name} {i : Item AggCall},
      C.groupItem dialect (aliasesOf base hops) req.orderWithinGroup n = .ok i → i.name = n := by
    intro n i hi
    obtain ⟨m, -, hi⟩ := bind_eq_ok.mp hi
    obtain ⟨e, -, hi⟩ := bind_eq_ok.mp hi
    cases hi
    rfl
  have hnames : s.measures.map Item.name = names := by
    rw [← List.map_id names]
    exact forall₂_map_eq (mapM_eq_ok.mp hmeasures) fun n i hi => hitem hi
  have honly : ∀ n ∈ names, ∃ c i cs own tail, C.compile (req.only n) dialect = .ok c ∧
      c.query = .single ⟨s.dims, [i], s.source, cs, s.groupBy⟩ [] tail ∧ c.params = own ∧
      i ∈ s.measures ∧ i.name = n ∧ SameWhere s.filters params cs own := by
    intro n hn
    obtain ⟨m, b, hm, hkind, hbase⟩ := hbases n hn
    obtain ⟨i, hi, hok⟩ := forall₂_left (mapM_eq_ok.mp hmeasures) hn
    obtain ⟨c, cs, own, tail, hc, hquery, hown, -, hsame⟩ :=
      compileWith_only h hok hm hkind hbase hhaving
    exact ⟨c, i, cs, own, tail, hc, hquery, hown, hi, hitem hok, hsame params hp⟩
  refine ⟨fun n hn => ?_, ?_, fun hempty => ?_, fun n hn => ?_⟩
  · obtain ⟨c, i, cs, own, tail, hc, -⟩ := honly n hn
    exact ⟨c, hc⟩
  · rw [← hdims]
    exact h.grouped.keys_nodup
  · intro hnil
    have hkeys : (s.result W tables params).map (rowKey _) = _ := h.grouped.keys_result
    have hnodims : s.dims = [] := by
      rw [CompileRequest.names, hempty] at hdims
      exact List.map_eq_nil_iff.mp hdims
    rw [hnil, if_pos hnodims] at hkeys
    cases hkeys
  · obtain ⟨c, i, cs, own, tail, hc, hquery, hown, hi, rfl, hsame⟩ := honly n hn
    have hne : i.name ∉ s.dims.map Item.name := by
      intro hmem
      rw [hdims] at hmem
      obtain ⟨d, hd, hname⟩ := List.mem_map.mp hmem
      obtain ⟨item, -, hdim, -⟩ := forall₂_left (dimItems_ok h.dims) hd
      obtain ⟨dim, hdim, -⟩ := dimRefSql_ok hdim
      obtain ⟨hmem, hdname⟩ := Definition.of_dimension? (dimension_ok hdim)
      obtain ⟨m, b, hm, -⟩ := hbases i.name hn
      obtain ⟨hmem', hmname⟩ := Definition.of_measure? (measure_ok hm)
      exact hvalid.names_ne hmem hmem' (by rw [hmname, hdname, hname])
    have hanswer : C.answer W tables dialect (req.only i.name) =
        (Select.mk s.dims [i] s.source cs s.groupBy).result W tables own := by
      rw [answer, hc]
      simp only [hquery, hown, Query.result]
      simp [Select.result]
    rw [hanswer]
    exact result_only (hnames ▸ hnodup) hi hne hsame _ hdims.symm req.dimensions_nodup

theorem GroupsOf.partsOf (hvalid : Validated C.defn datasets)
    {bases : List (Name × Name)} (hbases : C.bases req = .ok bases) (hhaving : req.having = [])
    {groups : List (Name × List Name)} {params : List Param} {ss : List Select}
    (h : GroupsOf C req.orderedFilters req dialect groups before ss after)
    (hgroups : ∀ g ∈ groups, g ∈ groupsOf bases) (hp : after <+: params) :
    List.Forall₂ (PartOf C W tables dialect req)
      groups (ss.map fun s => s.result W tables params) := by
  induction h with
  | nil => exact .nil
  | cons hscope hmeasures hrest ih =>
    obtain ⟨hgroup, hgroups⟩ := List.forall_mem_cons.mp hgroups
    refine .cons (hscope.partOf hvalid (hrest.isPrefix.trans hp) hmeasures ?_ ?_ hhaving)
      (ih hgroups hp)
    · rw [mem_groupsOf hgroup]
      exact List.Nodup.sublist (List.filter_sublist.map _) (bases_ok hbases).nodup
    · intro n hn
      have hmem := (mem_of_mem_groupsOf hgroup).mp hn
      obtain ⟨m, b, hm, hkind, hentity⟩ := (bases_ok hbases).entity _ hmem
      obtain ⟨metric, hmetric, leaf, hleaf, hname⟩ :=
        ((bases_ok hbases).mem_iff n).mp (List.mem_map_of_mem (f := Prod.fst) hmem)
      have hlm : leaf = m := Option.some.inj (by rw [← hleaf.measure.1, hname, hm])
      refine ⟨m, b, ?_, hkind, hentity⟩
      rw [← hname, ← hlm]
      exact measure_of_bases hbases hmetric hleaf

/-! ## The joined plan -/

theorem eval_metricExpr {τ : Type} {leaf : Measure → Except Exn (Expr τ)} {env : τ → Option α}
    {value : Name → Option α} {fuel : Nat} {name : Name} {e : Expr τ}
    (h : C.metricExpr leaf fuel name = .ok e)
    (hleaf : ∀ m x, Leaf C name m → leaf m = .ok x → x.eval W.toEngine env = value m.name) :
    e.eval W.toEngine env = C.metricValue W value fuel name := by
  induction fuel generalizing name e with
  | zero => cases h
  | succ fuel ih =>
    unfold metricExpr at h
    split at h
    · cases h
    · next m hm =>
      cases hkind : m.kind with
      | base b =>
        rw [hkind] at h
        simp only [metricValue, hm, hkind]
        rw [hleaf m e (.base hm hkind) h, (Definition.of_measure? hm).2]
      | derived d =>
        rw [hkind] at h
        simp only [metricValue, hm, hkind]
        rw [(Expr.subst_spec h).2.2]
        refine Expr.eval_congr fun ref href => ?_
        obtain ⟨x, hx⟩ := Expr.subst_ok h href
        rw [resolvedValue, hx]
        exact ih hx fun leaf y hy hok => hleaf leaf y (.derived hm hkind href hy) hok

/-- The rows of the joined plan, and its tables. -/
structure Joins (C : Compiler) (W : Warehouse α) (tables : Tables α) (dialect : Dialect)
    (req : CompileRequest) (bases : List (Name × Name)) (o : Outer)
    (parts : List (List (OutRow α))) :
    Prop where
  rows : C.answer W tables dialect req = (fullJoinAll (meets W req.names) parts).map (o.outRow W)
  partsOf : List.Forall₂ (PartOf C W tables dialect req) (groupsOf bases) parts
  dims : o.dims = outerDims req parts.length
  measures : C.metricItems (cteLeaf (groupsOf bases)) req.metrics = .ok o.measures

theorem joins_of_compile {datasets : String → Option Dataset} (hvalid : Validated C.defn datasets)
    {c : Compiled} (h : C.compile req dialect = .ok c) {bases : List (Name × Name)}
    (hbases : C.bases req = .ok bases) (htwo : (groupsOf bases).length ≠ 1)
    (hhaving : req.having = []) : ∃ o parts, Joins C W tables dialect req bases o parts := by
  obtain ⟨bases', out, hbases', hplan, hquery, hparams, -⟩ := compileWith_ok h
  cases hbases.symm.trans hbases'
  rcases plan_cases hplan with ⟨group, hgroup, -⟩ | ⟨-, hmulti⟩
  · exact absurd (congrArg List.length hgroup) htwo
  · obtain ⟨ctes, measures, having, tail, mid, hout, hgroups, hmeasures, hclauses, -⟩ :=
      compileMulti_ok hmulti
    rw [hhaving] at hclauses
    obtain ⟨rfl, hmid⟩ : having = [] ∧ out.2.1 = mid := by
      have hnil := Except.ok.inj hclauses
      exact ⟨(congrArg Prod.fst hnil).symm, (congrArg Prod.snd hnil).symm⟩
    have hparts : List.Forall₂ (PartOf C W tables dialect req) (groupsOf bases)
        (ctes.map fun s => s.result W tables mid) :=
      hgroups.partsOf hvalid hbases hhaving (fun g hg => hg) List.prefix_rfl
    have hlen : (ctes.map fun s => s.result W tables mid).length = (groupsOf bases).length := by
      rw [List.length_map, hgroups.length]
    refine ⟨⟨outerDims req (groupsOf bases).length, measures,
      cteJoins req (groupsOf bases).length, []⟩,
      _, ?_, hparts, by rw [hlen], hmeasures⟩
    have hwide := wideRows_eq (W := W)
      (o := ⟨outerDims req (groupsOf bases).length, measures,
        cteJoins req (groupsOf bases).length, []⟩)
      (by rw [hlen])
      (fun hdims t ht => by
        obtain ⟨g, -, hg⟩ := forall₂_right hparts ht
        exact hg.ne_nil hdims)
    rw [answer, h]
    simp only [hquery, hout, hparams, hmid, Query.result]
    rw [hwide]
    simp

variable {bases : List (Name × Name)} {o : Outer} {parts : List (List (OutRow α))}

theorem Joins.keys_nodup (h : Joins C W tables dialect req bases o parts) :
    ∀ t ∈ parts, (t.map (rowKey req.names)).Nodup := by
  intro t ht
  obtain ⟨g, -, hg⟩ := forall₂_right h.partsOf ht
  exact hg.keys_nodup

variable {k : List (Option α)}

theorem Joins.key (h : Joins C W tables dialect req bases o parts)
    {w : List (Option (OutRow α))} (hw : w ∈ fullJoinAll (meets W req.names) parts)
    (hk : Uniform (rowKey req.names) w k) :
    rowKey req.names (o.outRow W w) = k :=
  rowKey_outerRow (length_of_mem_fullJoinAll w hw ▸ h.dims) req.dimensions_nodup hk

theorem Joins.length_group (h : Joins C W tables dialect req bases o parts) (k : List (Option α)) :
    (group (rowKey req.names) (C.answer W tables dialect req) k).length =
      (rowsAt (rowKey req.names) (fullJoinAll (meets W req.names) parts) k).length := by
  rw [h.rows, group, List.filter_map, List.length_map, rowsAt]
  refine congrArg List.length (List.filter_congr fun w hw => ?_)
  obtain ⟨j, hj⟩ := uniform_fullJoinAll (meetsByKey W req.names) h.keys_nodup w hw
  rw [Function.comp_apply, h.key hw hj, hj.wideKey]
  simp

theorem Joins.exists_part (h : Joins C W tables dialect req bases o parts) {p : Name × Name}
    (hp : p ∈ bases) : ∃ g t, g ∈ groupsOf bases ∧ t ∈ parts ∧ g.1 = p.2 ∧ p.1 ∈ g.2 ∧
      PartOf C W tables dialect req g t := by
  obtain ⟨g, hg, hentity, hmem⟩ := exists_groupsOf hp
  obtain ⟨t, ht, hpart⟩ := forall₂_left h.partsOf hg
  exact ⟨g, t, hg, ht, hentity, hmem, hpart⟩

theorem exists_of_mem_groupsOf (h : g ∈ groupsOf bases) : ∃ n ∈ g.2, (n, g.1) ∈ bases := by
  have hentity : g.1 ∈ (groupsOf bases).map Prod.fst := List.mem_map_of_mem h
  rw [groupsOf_entities, mem_addAllNew_id] at hentity
  obtain ⟨p, hp, heq⟩ := List.mem_map.mp (hentity.resolve_left List.not_mem_nil)
  have hmem : (p.1, g.1) ∈ bases := heq ▸ hp
  exact ⟨p.1, (mem_of_mem_groupsOf h).mpr hmem, hmem⟩

theorem Joins.mem_keys (h : Joins C W tables dialect req bases o parts) (k : List (Option α)) :
    k ∈ (C.answer W tables dialect req).map (rowKey req.names) ↔
      ∃ p ∈ bases, C.Occurs W tables dialect req p.1 k := by
  have hgroup : k ∈ (C.answer W tables dialect req).map (rowKey req.names) ↔
      rowsAt (rowKey req.names) (fullJoinAll (meets W req.names) parts) k ≠ [] := by
    rw [← List.length_pos_iff, ← h.length_group, List.length_pos_iff, ne_eq, group_eq_nil, not_not,
      Relation.keys, List.mem_dedup]
  rw [hgroup, rowsAt_ne_nil_iff (meetsByKey W req.names) h.keys_nodup]
  constructor
  · rintro ⟨t, ht, r, hr, rfl⟩
    obtain ⟨g, hg, hpart⟩ := forall₂_right h.partsOf ht
    obtain ⟨n, hn, hmem⟩ := exists_of_mem_groupsOf hg
    exact ⟨(n, g.1), hmem, (hpart.occurs hn _).mpr (List.mem_map_of_mem hr)⟩
  · rintro ⟨p, hp, hocc⟩
    obtain ⟨g, t, -, ht, -, hmem, hpart⟩ := h.exists_part hp
    obtain ⟨r, hr, hk⟩ := List.mem_map.mp ((hpart.occurs hmem k).mp hocc)
    exact ⟨t, ht, r, hr, hk⟩

theorem Joins.values (h : Joins C W tables dialect req bases o parts)
    (hne : ∀ metric ∈ req.metrics, metric ∉ req.names) {w : List (Option (OutRow α))}
    (hk : w = across (rowKey req.names) parts k) {metric : Name}
    (hmetric : metric ∈ req.metrics) : OutRow.value (o.outRow W w) metric =
      C.metricValue W (C.partValue W tables dialect req k) C.depth metric := by
  obtain ⟨i, hi, hok⟩ := forall₂_left (mapM_eq_ok.mp h.measures) hmetric
  obtain ⟨e, he, rfl⟩ := map_eq_ok.mp hok
  have hnames : o.measures.map Item.name = req.metrics := by
    rw [← List.map_id req.metrics]
    refine forall₂_map_eq (mapM_eq_ok.mp h.measures) fun n j hj => ?_
    obtain ⟨x, -, rfl⟩ := map_eq_ok.mp hj
    rfl
  have hdims : (o.dims.map fun d => (d.2, coalesceValue w d.1)).map Prod.fst = req.names := by
    rw [h.dims, outerDims, CompileRequest.names, List.map_map, List.map_map]
    rfl
  have hright := value_append_right (r := o.dims.map fun d => (d.2, coalesceValue w d.1))
    (hdims ▸ hne metric hmetric)
    (o.measures.map fun i => (i.name, i.expr.eval W.toEngine (cteValue w)))
  rw [Outer.outRow, hright]
  refine (value_map (v := fun i => i.expr.eval W.toEngine (cteValue w))
    (hnames ▸ req.metrics_nodup) hi).trans (eval_metricExpr he fun m x hm hx => ?_)
  obtain ⟨j, hj, rfl⟩ := cteLeaf_ok hx
  obtain ⟨b, hkind⟩ := hm.measure.2
  obtain ⟨hlt, hmem, -⟩ := List.findIdx?_eq_some_iff_getElem.mp hj
  obtain ⟨t, ht, hpart⟩ := forall₂_getElem? h.partsOf (List.getElem?_eq_getElem hlt)
  rw [Expr.eval, hpart.value (of_decide_eq_true hmem), cteValue, hk, across, List.getElem?_map, ht]
  rfl

theorem countP_le_one_iff {β : Type} {l : List β} (h : l.Nodup) {p : β → Bool} :
    l.countP p ≤ 1 ↔ ∀ a ∈ l, ∀ b ∈ l, p a = true → p b = true → a = b := by
  rw [List.countP_eq_length_filter]
  constructor
  · intro hle a ha b hb hpa hpb
    have ha := List.mem_filter.mpr ⟨ha, hpa⟩
    have hb := List.mem_filter.mpr ⟨hb, hpb⟩
    match l.filter p, hle, ha, hb with
    | [c], _, ha, hb => rw [List.mem_singleton.mp ha, List.mem_singleton.mp hb]
  · intro hall
    refine length_le_one_of_nodup (h.filter p) fun a ha b hb => ?_
    obtain ⟨ha, hpa⟩ := List.mem_filter.mp ha
    obtain ⟨hb, hpb⟩ := List.mem_filter.mp hb
    exact hall a ha b hb hpa hpb

/-- One table at most has a combination when no two measures of different entities have it. -/
theorem Joins.countP_across (h : Joins C W tables dialect req bases o parts) (k : List (Option α)) :
    (across (rowKey req.names) parts k).countP Option.isSome ≤ 1 ↔
      ∀ p ∈ bases, ∀ q ∈ bases, p.2 ≠ q.2 → C.Occurs W tables dialect req p.1 k →
        ¬ C.Occurs W tables dialect req q.1 k := by
  classical
  have hcount : (across (rowKey req.names) parts k).countP Option.isSome =
      (groupsOf bases).countP fun g => ∃ n ∈ g.2, C.Occurs W tables dialect req n k := by
    have hmap : parts.map (fun t => (at? (rowKey req.names) t k).isSome) =
        (groupsOf bases).map fun g => decide (∃ n ∈ g.2, C.Occurs W tables dialect req n k) := by
      have hparts := h.partsOf
      clear h
      have hall : ∀ g ∈ groupsOf bases, ∃ n ∈ g.2, (n, g.1) ∈ bases :=
        fun g hg => exists_of_mem_groupsOf hg
      generalize groupsOf bases = groups at hparts hall
      induction hparts with
      | nil => rfl
      | @cons g t _ _ hpart _ ih =>
        obtain ⟨⟨n, hn, -⟩, hrest⟩ := List.forall_mem_cons.mp hall
        have hhead : (at? (rowKey req.names) t k).isSome =
            decide (∃ n ∈ g.2, C.Occurs W tables dialect req n k) := by
          rw [Bool.eq_iff_iff, isSome_at?, decide_eq_true_iff]
          constructor
          · intro hk
            exact ⟨n, hn, (hpart.occurs hn k).mpr hk⟩
          · rintro ⟨n', hn', hocc⟩
            exact (hpart.occurs hn' k).mp hocc
        rw [List.map_cons, List.map_cons, hhead, ih hrest]
    have hsome := congrArg (List.countP id) hmap
    rw [List.countP_map, List.countP_map] at hsome
    rw [across, List.countP_map]
    exact hsome
  rw [hcount, countP_le_one_iff (List.Nodup.of_map _ (groupsOf_nodup bases))]
  constructor
  · intro hone p hp q hq hne hpk hqk
    obtain ⟨g, t, hg, -, hgp, hpg, -⟩ := h.exists_part hp
    obtain ⟨g', t', hg', -, hgq, hqg, -⟩ := h.exists_part hq
    have heq := hone g hg g' hg' (decide_eq_true ⟨_, hpg, hpk⟩) (decide_eq_true ⟨_, hqg, hqk⟩)
    exact hne (by rw [← hgp, ← hgq, heq])
  · intro hnone g hg g' hg' hk hk'
    obtain ⟨n, hn, hnk⟩ := of_decide_eq_true hk
    obtain ⟨n', hn', hnk'⟩ := of_decide_eq_true hk'
    have hmem := (mem_of_mem_groupsOf hg).mp hn
    have hmem' := (mem_of_mem_groupsOf hg').mp hn'
    by_contra hne
    refine hnone _ hmem _ hmem' (fun heq => hne ?_) hnk hnk'
    exact List.inj_on_of_nodup_map (groupsOf_nodup bases) hg hg' heq

omit [DecidableEq α] in
theorem noNull_eq_false : noNull k = false ↔ none ∈ k := by
  rw [noNull, List.all_eq_false]
  constructor
  · rintro ⟨o, ho, hnone⟩
    rwa [Option.not_isSome_iff_eq_none.mp hnone] at ho
  · exact fun h => ⟨none, h, by simp⟩

/-- The joined plan of a validated definition means the same as the requests for the single
measures exactly when no combination with a NULL belongs to measures of two entities. -/
theorem multi_means_parts_iff {datasets : String → Option Dataset}
    (hvalid : Validated C.defn datasets)
    {c : Compiled} (hc : C.compile req dialect = .ok c) {bases : List (Name × Name)}
    (hbases : C.bases req = .ok bases) (htwo : ∃ p ∈ bases, ∃ q ∈ bases, p.2 ≠ q.2)
    (hplain : req.Plain) (W : Warehouse α) (tables : Tables α) :
    C.SameAsParts W tables dialect req bases (c.query.result W tables c.params) ↔
      ∀ p ∈ bases, ∀ q ∈ bases, p.2 ≠ q.2 → ∀ k, none ∈ k →
        C.Occurs W tables dialect req p.1 k → ¬ C.Occurs W tables dialect req q.1 k := by
  have hgroups : (groupsOf bases).length ≠ 1 := by
    obtain ⟨p, hp, q, hq, hne⟩ := htwo
    intro hone
    obtain ⟨g, hg⟩ := List.length_eq_one_iff.mp hone
    obtain ⟨g₁, hg₁, hgp, -⟩ := exists_groupsOf hp
    obtain ⟨g₂, hg₂, hgq, -⟩ := exists_groupsOf hq
    rw [hg, List.mem_singleton] at hg₁ hg₂
    exact hne (by rw [← hgp, ← hgq, hg₁, hg₂])
  obtain ⟨o, parts, h⟩ : ∃ o parts, Joins C W tables dialect req bases o parts :=
    joins_of_compile hvalid hc hbases hgroups hplain.having
  have hrows : c.query.result W tables c.params = C.answer W tables dialect req :=
      by rw [answer, hc]
  have hlength := length_rowsAt_le_one_iff (meetsByKey W req.names) h.keys_nodup
  have hnodup : ((C.answer W tables dialect req).map (rowKey req.names)).Nodup ↔
      ∀ k, none ∈ k → (across (rowKey req.names) parts k).countP Option.isSome ≤ 1 := by
    rw [nodup_map_iff]
    refine forall_congr' fun k => ?_
    rw [h.length_group, hlength, noNull_eq_false]
  rw [hrows]
  constructor
  · intro hsame p hp q hq hne k hk
    exact (h.countP_across k).mp (hnodup.mp hsame.keys_nodup k hk) p hp q hq hne
  · intro hnone
    have hone : ∀ k, none ∈ k → (across (rowKey req.names) parts k).countP Option.isSome ≤ 1 :=
      fun k hk => (h.countP_across k).mpr fun p hp q hq hne => hnone p hp q hq hne k hk
    refine ⟨fun p hp => ?_, hnodup.mpr hone, h.mem_keys, fun r hr metric hmetric => ?_⟩
    · obtain ⟨g, t, -, -, -, hmem, hpart⟩ := h.exists_part hp
      exact hpart.compiles p.1 hmem
    · rw [h.rows] at hr
      obtain ⟨w, hw, rfl⟩ := List.mem_map.mp hr
      obtain ⟨k, hk⟩ := uniform_fullJoinAll (meetsByKey W req.names) h.keys_nodup w hw
      rw [h.key hw hk]
      refine h.values (metric_not_mem_names hvalid hc) ?_ hmetric
      refine rowsAt_eq_across (meetsByKey W req.names) h.keys_nodup ?_ w ?_
      · exact (hlength k).mpr fun hnull => hone k (noNull_eq_false.mp hnull)
      · exact List.mem_filter.mpr ⟨hw, by simpa using hk.wideKey⟩

end Tables

end Compiler

/-! ### In the shop -/

namespace Shop

def revenueAndRefunds : CompileRequest := byRegion [revenue, refunded] (by decide)

def revenueAndRefundsBases : List (Name × Name) := [(revenue, orders), (refunded, refunds)]

theorem revenueAndRefunds_compiles : ∃ c, compiler.compile revenueAndRefunds .duckdb = .ok c :=
  ⟨_, rfl⟩

/-- Where each customer has a region the joined plan means the same as its parts. -/
theorem multi_means_parts_of_regions : ∃ c, compiler.compile revenueAndRefunds .duckdb = .ok c ∧
      compiler.SameAsParts warehouse (tablesWith (some 4)) .duckdb revenueAndRefunds
        revenueAndRefundsBases (c.query.result warehouse (tablesWith (some 4)) c.params) := by
  have hknown : ∀ p ∈ revenueAndRefundsBases,
      ∀ r ∈ compiler.answer warehouse (tablesWith (some 4)) .duckdb (revenueAndRefunds.only p.1),
        none ∉ rowKey revenueAndRefunds.names r := by decide
  obtain ⟨c, hc⟩ := revenueAndRefunds_compiles
  have hbases : compiler.bases revenueAndRefunds = .ok revenueAndRefundsBases := rfl
  refine ⟨c, hc, (Compiler.multi_means_parts_iff (C := compiler) validated hc hbases
    (by decide) ⟨rfl, rfl⟩
    warehouse (tablesWith (some 4))).mpr ?_⟩
  rintro p hp q - - k hk ⟨r, hr, rfl⟩
  exact absurd hk (hknown p hp r hr)

/-- A customer without region has an order and a refund: the joined plan has two rows for
them, and each of its parts has one. -/
theorem multi_splits_null :
    Validated defn datasets ∧ ∃ c, compiler.compile revenueAndRefunds .duckdb = .ok c ∧
      ¬ compiler.SameAsParts warehouse tables .duckdb revenueAndRefunds revenueAndRefundsBases
        (c.query.result warehouse tables c.params) := by
  refine ⟨validated, _, rfl, fun h => absurd h.keys_nodup ?_⟩
  decide

end Shop

end Windrose.Semantic

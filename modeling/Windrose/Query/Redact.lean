/-
  Query/Redact.lean --- the parameters of the query history.

  Source: services/query-service/internal/exec/plan.go (redactParams) and
  internal/sqlsafe/classify.go (Classify, columnParamPair).

  A `Template` is the syntax tree of a statement as it is written, with its
  variables as leaves.  `Template.bind` is the tree that the parser returns for
  the rewritten text: a variable is its argument number, a list of several
  elements a row or, where the bracket is that of an expression list, the
  elements of that list, and an empty list a constant.

  Protobuf fixes no order among the fields of a message.  The order in which the
  walk meets the comparisons of a statement is therefore given, and `ParamColumns`
  keeps the last column for each number.
-/
import Windrose.Foundation.JsonTree
import Windrose.Query.Classify
import Windrose.Query.Rewrite

set_option autoImplicit false

namespace Windrose.Query

open Windrose.Foundation

/-! ## The parameters of the history -/

/-- `BoundValue`, with the form that history shows. -/
structure ShownValue (V : Type) extends BoundValue V where
  display : JsonTree Int

/-- `Column`, as far as redaction reads it. -/
structure Column where
  name : Bytes
  piiTag : Bytes

/-- `cls.ParamColumns[i]`. -/
def Classification.paramColumn (cls : Classification) (i : Int) : Option Bytes :=
  cls.paramColumns.reverse.findSome? fun p => if p.1 = i then some p.2 else none

section Redact

variable {V : Type} (lower : Lower)

/-- `piiCols`: `metas` are the columns of each dataset. -/
def piiCols (metas : List (List Column)) : List Bytes :=
  (metas.flatten.filter fun c => c.piiTag ≠ []).map fun c => lower.toLower c.name

def redactedNames (r : Rewritten V) (cls : Classification) (metas : List (List Column)) :
    List Bytes :=
  r.paramNames.zipIdx.filterMap fun (name, i) =>
    match cls.paramColumn (i + 1) with
    | some col => if col ∈ piiCols lower metas then some name else none
    | none => none

/-- What history stores for a redacted value. -/
def redactedMarker : JsonTree Int := .str "«redacted»"

/-- `redactParams`. -/
def redactParams (r : Rewritten V) (cls : Classification) (bindings : Bytes → Option (ShownValue V))
    (metas : List (List Column)) (name : Bytes) : Option (JsonTree Int) :=
  (bindings name).map fun bv =>
    if name ∈ redactedNames lower r cls metas then redactedMarker else bv.display

theorem mem_redactedNames {r : Rewritten V} {cls : Classification} {metas : List (List Column)}
    {name : Bytes} : name ∈ redactedNames lower r cls metas ↔
      ∃ (i : Nat) (col : Bytes), r.paramNames[i]? = some name ∧
        cls.paramColumn (i + 1) = some col ∧ col ∈ piiCols lower metas := by
  unfold redactedNames
  rw [List.mem_filterMap]
  constructor
  · rintro ⟨⟨name', i⟩, hmem, h⟩
    rw [List.mk_mem_zipIdx_iff_getElem?] at hmem
    dsimp only at h
    split at h
    · rename_i col hcol
      split at h
      · rename_i hpii
        cases h
        exact ⟨i, col, hmem, hcol, hpii⟩
      · cases h
    · cases h
  · rintro ⟨i, col, hname, hcol, hpii⟩
    refine ⟨(name, i), List.mk_mem_zipIdx_iff_getElem?.mpr hname, ?_⟩
    dsimp only
    rw [hcol]
    exact if_pos hpii

end Redact

/-! ## Argument numbers -/

/-- The names of the placeholders of a text. -/
def namesOf (sql : Bytes) : List Bytes :=
  match (scanRule false).lex sql with
  | .ok ps => placeholderNames ps
  | .error _ => []

namespace Rewritten

variable {V : Type}

/-- The argument numbers of a name. -/
def slots (r : Rewritten V) (name : Bytes) : List Nat :=
  (List.range' 1 r.paramNames.length).filter fun k => r.paramNames[k - 1]? = some name

theorem mem_slots {r : Rewritten V} {name : Bytes} {k : Nat} :
    k ∈ r.slots name ↔ 1 ≤ k ∧ r.paramNames[k - 1]? = some name := by
  rw [slots, List.mem_filter, List.mem_range'_1, decide_eq_true_iff]
  constructor
  · rintro ⟨⟨hpos, -⟩, hname⟩
    exact ⟨hpos, hname⟩
  · rintro ⟨hpos, hname⟩
    have hlt := (List.getElem?_eq_some_iff.mp hname).1
    exact ⟨⟨hpos, by omega⟩, hname⟩

theorem slots_nodup (r : Rewritten V) (name : Bytes) : (r.slots name).Nodup :=
  (List.nodup_range' ..).filter _

end Rewritten

section Slots

variable {V : Type} {sql : Bytes} {bindings : Bytes → Option (BoundValue V)}
  {datasetIdents : Bytes → Option Bytes} {r : Rewritten V}

theorem slots_length (h : rewrite sql bindings datasetIdents = .ok r) (name : Bytes) :
    (name ∈ namesOf sql → ∃ bv, bindings name = some bv ∧
      (r.slots name).length = bv.values.length) ∧
    (name ∉ namesOf sql → r.slots name = []) := by
  obtain ⟨ps, st, hlex, hloop, hnone, rfl⟩ := rewrite_ok_iff.mp h
  have hinit : RewriteInv bindings (fun _ => 0)
      (⟨[], [], [], fun _ => none, [], 0⟩ : RewriteState V) :=
    ⟨rfl, nofun, fun k hk => absurd hk (Nat.not_lt_zero k)⟩
  obtain ⟨base, hinv, -, hnames, -, -⟩ :=
    rewriteLoop_inv hlex (List.nil_append sql).symm (Nat.le_refl _) hinit hloop hnone
  have hof : namesOf sql = placeholderNames ps := by rw [namesOf, Rule.lex_ok_iff.mpr hlex]
  have hknown : ∀ n, st.exprByName n ≠ none ↔ n ∈ namesOf sql := by
    intro n
    rw [hnames, hof]
    exact or_iff_right fun h => h rfl
  -- A slot lies in the block of its name.
  have hblock : ∀ n k, st.paramNames[k]? = some n → n ∈ namesOf sql ∧
      ∃ bv, bindings n = some bv ∧ base n ≤ k ∧ k < base n + bv.values.length := by
    intro n k hk
    have hlt : k < st.args.length := hinv.lengths ▸ (List.getElem?_eq_some_iff.mp hk).1
    obtain ⟨n', bv, hn', hbv, hlow, hhigh⟩ := hinv.cover k hlt
    obtain ⟨e, he⟩ := Option.ne_none_iff_exists'.mp hn'
    obtain ⟨bv', hbv', -, hslots⟩ := hinv.block n' e he
    obtain rfl : bv' = bv := Option.some.inj (hbv'.symm.trans hbv)
    have hj : k - base n' < bv'.values.length := by omega
    have hname := (hslots _ _ (List.getElem?_eq_getElem hj)).2
    rw [Nat.add_sub_cancel' hlow, hk] at hname
    obtain rfl : n = n' := Option.some.inj hname
    exact ⟨(hknown n).mp hn', bv', hbv, hlow, hhigh⟩
  refine ⟨fun hmem => ?_, fun hmem => ?_⟩
  · obtain ⟨e, he⟩ := Option.ne_none_iff_exists'.mp ((hknown name).mpr hmem)
    obtain ⟨bv, hbv, -, hslots⟩ := hinv.block name e he
    refine ⟨bv, hbv, ?_⟩
    have hperm : (Rewritten.slots ⟨st.out ++ sql.drop st.pos, st.args, st.paramNames⟩ name).Perm
        (numbersAt (base name) bv) := by
      refine (List.perm_ext_iff_of_nodup (Rewritten.slots_nodup _ _) (List.nodup_range' ..)).mpr
        fun k => ?_
      rw [← numbersAt, Rewritten.mem_slots, mem_numbersAt]
      constructor
      · rintro ⟨hpos, hk⟩
        obtain ⟨-, bv', hbv', hlow, hhigh⟩ := hblock name (k - 1) hk
        obtain rfl : bv' = bv := Option.some.inj (hbv'.symm.trans hbv)
        omega
      · rintro ⟨hlow, hhigh⟩
        have hj : k - 1 - base name < bv.values.length := by omega
        have hname := (hslots _ _ (List.getElem?_eq_getElem hj)).2
        rw [show base name + (k - 1 - base name) = k - 1 by omega] at hname
        exact ⟨by omega, hname⟩
    rw [hperm.length_eq, numbersAt, List.length_range']
  · refine List.eq_nil_iff_forall_not_mem.mpr fun k hk => hmem ?_
    exact (hblock name _ (Rewritten.mem_slots.mp hk).2).1

end Slots

/-! ## Statements with variables -/

/-- A message of the tree of a statement, with the variables as leaves.  A
variable is spliced where its brackets are those of an expression list.  The
fields of a column reference are names and stars. -/
inductive Template where
  | rangeVar (catalogname schemaname relname : Bytes) (fields : List Template)
  | rangeFunction (fields : List Template)
  | commonTableExpr (ctename : Bytes) (fields : List Template)
  | selectStmt (recursive : Bool) (ctes : List Template) (limitCount : Option Template)
      (fields : List Template)
  | aExpr (lexpr rexpr : Option Template) (fields : List Template)
  | columnRef (fields : List (Option Bytes))
  | string (sval : Bytes)
  | message (name : Bytes) (fields : List Template)
  | placeholder (name : Bytes) (spliced : Bool)

/-- The expressions in place of a variable: its arguments, or NULL. -/
def occurrence (numbers : List Nat) : List Node :=
  if numbers = [] then [.message (bytes "A_Const") []]
  else numbers.map fun n => .paramRef n

/-- Expressions in brackets as one expression. -/
def rowExpr : List Node → Node
  | [n] => n
  | ns => .message (bytes "RowExpr") ns

/-- A field of a column reference. -/
def columnField : Option Bytes → Node
  | some name => .string name
  | none => .message (bytes "A_Star") []

/-- A comparison of a column with a variable, as an operand of an operator or as
the list behind IN. -/
inductive Comparison where
  | operand (name column : Bytes)
  | inList (name column : Bytes)
  deriving DecidableEq

namespace Comparison

def name : Comparison → Bytes
  | .operand name _ => name
  | .inList name _ => name

def column : Comparison → Bytes
  | .operand _ column => column
  | .inList _ column => column

/-- What `Classify` notes of a comparison when the variables have the given
argument numbers. -/
def noted (slots : Bytes → List Nat) : Comparison → Option (Int × Bytes)
  | .operand name column =>
    match slots name with
    | [k] => some (k, column)
    | _ => none
  | .inList _ _ => none

/-- The column that a variable is an operand with. -/
def operandOf (name : Bytes) : Comparison → Option Bytes
  | .operand name' column => if name' = name then some column else none
  | .inList _ _ => none

end Comparison

namespace Template

section Bind

variable (slots : Bytes → List Nat)

mutual

/-- The tree with the variables replaced. -/
def bind : Template → Node
  | .rangeVar c s r fs => .rangeVar c s r (bindAll fs)
  | .rangeFunction fs => .rangeFunction (bindAll fs)
  | .commonTableExpr n fs => .commonTableExpr n (bindAll fs)
  | .selectStmt rec ctes limit fs => .selectStmt rec (bindAll ctes) (bindField limit) (bindAll fs)
  | .aExpr l r fs => .aExpr (bindField l) (bindField r) (bindAll fs)
  | .columnRef fs => .columnRef (fs.map columnField)
  | .string s => .string s
  | .message name fs => .message name (bindAll fs)
  | .placeholder name _ => rowExpr (occurrence (slots name))

def bindAll : List Template → List Node
  | [] => []
  | .placeholder name true :: ts => occurrence (slots name) ++ bindAll ts
  | t :: ts => bind t :: bindAll ts

def bindField : Option Template → Option Node
  | none => none
  | some t => some (bind t)

end

end Bind

section Compare

variable (lower : Lower)

/-- `columnName`, on the tree with variables. -/
def columnOf : Option Template → Bytes
  | some (.columnRef fields) =>
    match fields.getLast? with
    | some (some name) => lower.toLower name
    | _ => []
  | _ => []

/-- The variable that an operand is. -/
def operandVariable : Option Template → Option Bytes
  | some (.placeholder name _) => some name
  | _ => none

/-- The variable that the list behind IN is. -/
def listVariable : Option Template → Option Bytes
  | some (.message msg [.placeholder name true]) => if msg = bytes "List" then some name else none
  | _ => none

/-- The comparison that an operator makes: `col op :v`, `col IN :v` or
`:v op col`. -/
def comparison (lexpr rexpr : Option Template) : Option Comparison :=
  match columnOf lower lexpr with
  | c :: col =>
    match operandVariable rexpr with
    | some name => some (.operand name (c :: col))
    | none => (listVariable rexpr).map fun name => .inList name (c :: col)
  | [] =>
    match columnOf lower rexpr, operandVariable lexpr with
    | c :: col, some name => some (.operand name (c :: col))
    | _, _ => none

mutual

/-- The comparisons of a statement. -/
def comparisons : Template → List Comparison
  | .rangeVar _ _ _ fs => comparisonsAll fs
  | .rangeFunction fs => comparisonsAll fs
  | .commonTableExpr _ fs => comparisonsAll fs
  | .selectStmt _ ctes limit fs =>
    comparisonsAll ctes ++ comparisonsField limit ++ comparisonsAll fs
  | .aExpr l r fs =>
    (comparison lower l r).toList ++
      (comparisonsField l ++ comparisonsField r ++ comparisonsAll fs)
  | .columnRef _ => []
  | .string _ => []
  | .message _ fs => comparisonsAll fs
  | .placeholder _ _ => []

def comparisonsAll : List Template → List Comparison
  | [] => []
  | t :: ts => comparisons t ++ comparisonsAll ts

def comparisonsField : Option Template → List Comparison
  | none => []
  | some t => comparisons t

end

end Compare

/-! ## What the walk notes -/

section Noted

variable {lower : Lower} {slots : Bytes → List Nat}

theorem columnName_bindField (t : Option Template) :
    columnName lower (bindField slots t) = columnOf lower t := by
  rcases t with _ | t
  · rfl
  · cases t with
    | columnRef fields =>
      rw [bindField, bind, columnName, columnOf, List.getLast?_map]
      rcases fields.getLast? with _ | _ | name <;> rfl
    | placeholder name spliced =>
      rw [bindField, bind]
      unfold occurrence
      rcases slots name with _ | ⟨k, _ | ⟨k', ks⟩⟩ <;> rfl
    | _ => rfl

theorem getParamRef_bindField (t : Option Template) : getParamRef (bindField slots t) =
      (operandVariable t).bind fun name =>
        match slots name with
        | [k] => some (k : Int)
        | _ => none := by
  rcases t with _ | t
  · rfl
  · cases t with
    | placeholder name spliced =>
      rw [bindField, bind, operandVariable, Option.bind_some]
      unfold occurrence
      rcases slots name with _ | ⟨k, _ | ⟨k', ks⟩⟩ <;> rfl
    | _ => rfl

theorem operandVariable_of_columnOf {t : Option Template} (h : columnOf lower t ≠ []) :
    operandVariable t = none := by
  rcases t with _ | t
  · rfl
  · cases t with
    | placeholder name spliced => exact absurd rfl h
    | _ => rfl

theorem columnParamPair_bindField (l r : Option Template) :
    columnParamPair lower (bindField slots l) (bindField slots r) =
      (comparison lower l r).bind (Comparison.noted slots) := by
  unfold columnParamPair comparison
  rw [columnName_bindField, columnName_bindField, getParamRef_bindField, getParamRef_bindField]
  cases hl : columnOf lower l with
  | cons c col =>
    have hcolumn : columnOf lower l ≠ [] := hl ▸ List.cons_ne_nil c col
    have hvar : operandVariable l = none := operandVariable_of_columnOf hcolumn
    rw [hvar]
    cases hr : operandVariable r with
    | some name =>
      simp only [Option.bind_some, Option.bind_none, Comparison.noted]
      rcases slots name with _ | ⟨k, _ | ⟨k', ks⟩⟩ <;> cases columnOf lower r <;> rfl
    | none =>
      simp only [Option.bind_none]
      cases listVariable r <;> cases columnOf lower r <;> rfl
  | nil =>
    cases hr : columnOf lower r with
    | nil => rfl
    | cons c col =>
      cases hvar : operandVariable l with
      | none => rfl
      | some name =>
        simp only [Option.bind_some, Comparison.noted]
        rcases slots name with _ | ⟨k, _ | ⟨k', ks⟩⟩ <;> rfl

theorem noted_occurrence (numbers : List Nat) :
    (Node.walkAll (occurrence numbers)).filterMap (Node.paramColumn? lower) = [] := by
  have hparams : ∀ ns : List Nat, (Node.walkAll (ns.map fun n => Node.paramRef n)).filterMap
      (Node.paramColumn? lower) = [] := by
    intro ns
    induction ns with
    | nil => rfl
    | cons n ns ih => exact ih
  unfold occurrence
  split
  · rfl
  · exact hparams numbers

theorem walkAll_append (ns ns' : List Node) :
    Node.walkAll (ns ++ ns') = Node.walkAll ns ++ Node.walkAll ns' := by
  induction ns with
  | nil => rfl
  | cons n ns ih => rw [List.cons_append, Node.walkAll, Node.walkAll, ih, List.append_assoc]

theorem noted_rowExpr (ns : List Node) :
    (Node.walk (rowExpr ns)).filterMap (Node.paramColumn? lower) =
      (Node.walkAll ns).filterMap (Node.paramColumn? lower) := by
  rcases ns with _ | ⟨n, _ | ⟨n', ns⟩⟩
  · rfl
  · rw [Node.walkAll, Node.walkAll, List.append_nil]
    rfl
  · rfl

theorem noted_columnFields (fields : List (Option Bytes)) :
    (Node.walkAll (fields.map columnField)).filterMap (Node.paramColumn? lower) = [] := by
  induction fields with
  | nil => rfl
  | cons f fields ih =>
    rw [List.map_cons, Node.walkAll, List.filterMap_append, ih, List.append_nil]
    cases f <;> rfl

mutual

/-- **The walk notes the comparisons** of the tree with variables. -/
theorem noted_bind (t : Template) : (Node.walk (bind slots t)).filterMap (Node.paramColumn? lower) =
      (comparisons lower t).filterMap (Comparison.noted slots) := by
  cases t with
  | rangeVar c s r fs => exact noted_bindAll fs
  | rangeFunction fs => exact noted_bindAll fs
  | commonTableExpr n fs => exact noted_bindAll fs
  | selectStmt rec ctes limit fs =>
    show (Node.walkAll _ ++ Node.walkField _ ++ Node.walkAll _).filterMap _ = _
    rw [comparisons, List.filterMap_append, List.filterMap_append, noted_bindAll ctes,
      noted_bindField limit, noted_bindAll fs, List.filterMap_append, List.filterMap_append]
  | aExpr l r fs =>
    rw [bind, Node.walk, List.filterMap_cons, comparisons, List.filterMap_append,
      List.filterMap_append, List.filterMap_append, List.filterMap_append, List.filterMap_append,
      noted_bindField l, noted_bindField r, noted_bindAll fs, Node.paramColumn?,
      columnParamPair_bindField]
    cases comparison lower l r with
    | none => rfl
    | some c =>
      rw [Option.bind_some, Option.toList_some, List.filterMap_cons, List.filterMap_nil]
      cases Comparison.noted slots c <;> rfl
  | columnRef fields => exact noted_columnFields fields
  | string s => rfl
  | message name fs => exact noted_bindAll fs
  | placeholder name spliced =>
    rw [bind, noted_rowExpr, noted_occurrence]
    rfl

theorem noted_bindAll (ts : List Template) :
    (Node.walkAll (bindAll slots ts)).filterMap (Node.paramColumn? lower) =
      (comparisonsAll lower ts).filterMap (Comparison.noted slots) := by
  cases ts with
  | nil => rfl
  | cons t ts =>
    have hrest := noted_bindAll ts
    -- A spliced variable adds its arguments, which are no comparisons.
    have hone : ∀ n : Node, (Node.walk n).filterMap (Node.paramColumn? lower) =
        (comparisons lower t).filterMap (Comparison.noted slots) →
        (Node.walkAll (n :: bindAll slots ts)).filterMap (Node.paramColumn? lower) =
          (comparisonsAll lower (t :: ts)).filterMap (Comparison.noted slots) := by
      intro n hn
      rw [Node.walkAll, comparisonsAll, List.filterMap_append, List.filterMap_append, hn, hrest]
    cases t with
    | placeholder name spliced =>
      cases spliced with
      | false => exact hone _ (noted_bind (.placeholder name false))
      | true =>
        rw [bindAll, walkAll_append, List.filterMap_append, noted_occurrence,
          List.nil_append, hrest]
        rfl
    | _ => exact hone _ (noted_bind _)

theorem noted_bindField (t : Option Template) :
    (Node.walkField (bindField slots t)).filterMap (Node.paramColumn? lower) =
      (comparisonsField lower t).filterMap (Comparison.noted slots) := by
  cases t with
  | none => rfl
  | some t => exact noted_bind t

end

end Noted

end Template

/-! ## The last operand -/

section Last

variable {V : Type} {lower : Lower}

theorem findSome?_filterMap {α β γ : Type} (f : α → Option β) (g : β → Option γ) (l : List α) :
    (l.filterMap f).findSome? g = l.findSome? fun x => (f x).bind g := by
  rw [← List.head?_filterMap, ← List.head?_filterMap, List.filterMap_filterMap]

/-- The classification of a walk that meets the comparisons in the given order. -/
def Classification.visiting (cls : Classification) (slots : Bytes → List Nat)
    (order : List Comparison) : Classification :=
  { cls with paramColumns := order.filterMap (Comparison.noted slots) }

/-- The column of the last operand that a variable is. -/
def lastOperand (order : List Comparison) (name : Bytes) : Option Bytes :=
  order.reverse.findSome? (Comparison.operandOf name)

/-- `t` is the syntax tree of the text `sql`, which was rewritten as `r`. -/
structure ReadAs (lower : Lower) (pg : PgQuery) (sql : Bytes) (r : Rewritten V) (t : Template) :
    Prop where
  parsed : pg.parse r.sql = .ok [t.bind r.slots]
  names : ∀ c ∈ t.comparisons lower, c.name ∈ namesOf sql

variable {cls : Classification} {r : Rewritten V}

theorem classify_visiting {pg : PgQuery} {sql : Bytes} {t : Template}
    (ht : ReadAs lower pg sql r t) (h : classify lower pg r.sql = .ok cls) :
    cls = cls.visiting r.slots (t.comparisons lower) := by
  unfold classify at h
  rw [ht.parsed] at h
  dsimp only at h
  have hnoted : (Node.walk (t.bind r.slots)).filterMap (Node.paramColumn? lower) =
      (t.comparisons lower).filterMap (Comparison.noted r.slots) := Template.noted_bind t
  generalize t.bind r.slots = tree at h hnoted
  cases tree with
  | selectStmt rec ctes limit fields =>
    simp only [classifyTree] at h
    split at h
    · cases h
    · cases h
      unfold Classification.visiting
      rw [← hnoted]
  | _ => cases h

theorem paramColumn_visiting {order : List Comparison}
    {name : Bytes} {k : Nat} (hk : r.slots name = [k]) :
    (cls.visiting r.slots order).paramColumn k = lastOperand order name := by
  have hpoint : ∀ c : Comparison,
      (c.noted r.slots).bind (fun p => if p.1 = (k : Int) then some p.2 else none) =
        c.operandOf name := by
    intro c
    cases c with
    | inList name' column => rfl
    | operand name' column =>
      unfold Comparison.noted Comparison.operandOf
      dsimp only
      by_cases hname : name' = name
      · subst hname
        rw [hk, if_pos rfl]
        exact if_pos rfl
      · rw [if_neg hname]
        split
        · rename_i k' hk'
          refine if_neg fun heq => hname ?_
          have hmem : k ∈ r.slots name := hk ▸ List.mem_singleton_self k
          have hmem' : k ∈ r.slots name' := by
            rw [hk', Int.ofNat.inj heq]
            exact List.mem_singleton_self k
          have hsome := (Rewritten.mem_slots.mp hmem').2
          rw [(Rewritten.mem_slots.mp hmem).2] at hsome
          exact (Option.some.inj hsome).symm
        · rfl
  unfold Classification.paramColumn Classification.visiting lastOperand
  rw [← List.filterMap_reverse, findSome?_filterMap]
  exact congrFun (congrArg _ (funext hpoint)) _

/-- **A name is redacted** when it has one argument number and the last column it is
an operand with is tagged. -/
theorem mem_redactedNames_visiting
    {order : List Comparison} {metas : List (List Column)} {name : Bytes} :
    name ∈ redactedNames lower r (cls.visiting r.slots order) metas ↔
      (r.slots name).length = 1 ∧
        ∃ col, lastOperand order name = some col ∧ col ∈ piiCols lower metas := by
  rw [mem_redactedNames]
  constructor
  · rintro ⟨i, col, hname, hcol, hpii⟩
    have hslots : r.slots name = [i + 1] := by
      obtain ⟨p, hp, hcol⟩ := List.exists_of_findSome?_eq_some hcol
      obtain ⟨c, -, hnoted⟩ := List.mem_filterMap.mp (List.mem_reverse.mp hp)
      split at hcol
      · rename_i hnumber
        cases c with
        | inList name' column => cases hnoted
        | operand name' column =>
          unfold Comparison.noted at hnoted
          dsimp only at hnoted
          split at hnoted
          · rename_i k hk
            cases hnoted
            have hcast : (k : Int) = i + 1 := hnumber
            obtain rfl : k = i + 1 := by omega
            have hmem : i + 1 ∈ r.slots name' := hk ▸ List.mem_singleton_self _
            have hsome := (Rewritten.mem_slots.mp hmem).2
            rw [Nat.add_sub_cancel, hname] at hsome
            rw [Option.some.inj hsome]
            exact hk
          · cases hnoted
      · cases hcol
    have hlast : (cls.visiting r.slots order).paramColumn ((i + 1 : Nat) : Int) =
        lastOperand order name := paramColumn_visiting hslots
    push_cast at hlast
    rw [hlast] at hcol
    exact ⟨by rw [hslots]; rfl, col, hcol, hpii⟩
  · rintro ⟨hlen, col, hlast, hpii⟩
    obtain ⟨k, hk⟩ := List.length_eq_one_iff.mp hlen
    have hmem : k ∈ r.slots name := hk ▸ List.mem_singleton_self k
    obtain ⟨hpos, hname⟩ := Rewritten.mem_slots.mp hmem
    refine ⟨k - 1, col, hname, ?_, hpii⟩
    have hcol : (cls.visiting r.slots order).paramColumn k = some col :=
      (paramColumn_visiting hk).trans hlast
    rw [← hcol]
    congr 1
    omega

end Last

/-! ## Redaction -/

section Complete

variable {V : Type} {lower : Lower}

/-- The variable is compared with a column that is tagged. -/
def ComparesPII (lower : Lower) (t : Template) (metas : List (List Column)) (name : Bytes) : Prop :=
  ∃ c ∈ t.comparisons lower, c.name = name ∧ c.column ∈ piiCols lower metas

/-- The variable is one value, and the last column it is an operand with is
tagged. -/
structure Noticed (lower : Lower) (bindings : Bytes → Option (ShownValue V))
    (order : List Comparison) (metas : List (List Column)) (name : Bytes) : Prop where
  single : ∃ bv, bindings name = some bv ∧ bv.values.length = 1
  last : ∃ col, lastOperand order name = some col ∧ col ∈ piiCols lower metas

/-- The bindings as the rewriter reads them. -/
def boundValues (bindings : Bytes → Option (ShownValue V)) (name : Bytes) :
    Option (BoundValue V) :=
  (bindings name).map (·.toBoundValue)

/-- A run up to the history: the rewritten text, its tree and its classification. -/
structure Accepted (lower : Lower) (pg : PgQuery) (sql : Bytes)
    (datasetIdents : Bytes → Option Bytes) (t : Template)
    (bindings : Bytes → Option (ShownValue V)) (r : Rewritten V) (cls : Classification) : Prop where
  rewritten : rewrite sql (boundValues bindings) datasetIdents = .ok r
  readAs : ReadAs lower pg sql r t
  classified : classify lower pg r.sql = .ok cls

variable {pg : PgQuery} {sql : Bytes} {datasetIdents : Bytes → Option Bytes} {t : Template}
  {bindings : Bytes → Option (ShownValue V)} {r : Rewritten V} {cls : Classification}

variable {metas : List (List Column)} {order : List Comparison}

theorem Accepted.redacted_iff (h : Accepted lower pg sql datasetIdents t bindings r cls)
     {name : Bytes} :
    name ∈ redactedNames lower r (cls.visiting r.slots order) metas ↔
      name ∈ namesOf sql ∧ Noticed lower bindings order metas name := by
  rw [mem_redactedNames_visiting]
  obtain ⟨hplaceholder, hother⟩ := slots_length h.rewritten name
  by_cases hmem : name ∈ namesOf sql
  · obtain ⟨bv, hbv, hlen⟩ := hplaceholder hmem
    obtain ⟨sv, hsv, rfl⟩ := Option.map_eq_some_iff.mp hbv
    rw [hlen]
    constructor
    · rintro ⟨hone, hlast⟩
      exact ⟨hmem, ⟨sv, hsv, hone⟩, hlast⟩
    · rintro ⟨-, ⟨sv', hsv', hone⟩, hlast⟩
      obtain rfl : sv' = sv := Option.some.inj (hsv'.symm.trans hsv)
      exact ⟨hone, hlast⟩
  · rw [hother hmem]
    constructor
    · rintro ⟨hone, -⟩
      exact absurd hone (by simp)
    · rintro ⟨hmem', -⟩
      exact absurd hmem' hmem

/-- What history stores for a placeholder is the marker when it is noticed, or shown
as the marker. -/
theorem Accepted.stores_marker_iff (h : Accepted lower pg sql datasetIdents t bindings r cls)
     {name : Bytes}
    (hmem : name ∈ namesOf sql) :
    redactParams lower r (cls.visiting r.slots order) bindings metas name = some redactedMarker ↔
      Noticed lower bindings order metas name ∨
        (bindings name).map (·.display) = some redactedMarker := by
  obtain ⟨bv, hbv, -⟩ := (slots_length h.rewritten name).1 hmem
  obtain ⟨sv, hsv, -⟩ := Option.map_eq_some_iff.mp hbv
  have hredacted : name ∈ redactedNames lower r (cls.visiting r.slots order) metas ↔
      name ∈ namesOf sql ∧ Noticed lower bindings order metas name := h.redacted_iff
  rw [redactParams, hsv, Option.map_some, Option.map_some, Option.some_inj, Option.some_inj]
  by_cases hnoticed : Noticed lower bindings order metas name
  · rw [if_pos (hredacted.mpr ⟨hmem, hnoticed⟩)]
    exact iff_of_true rfl (.inl hnoticed)
  · rw [if_neg fun hin => hnoticed (hredacted.mp hin).2]
    exact (or_iff_right hnoticed).symm

theorem Noticed.of_eq {bindings' : Bytes → Option (ShownValue V)}
    {name : Bytes} (h : Noticed lower bindings order metas name)
    (heq : bindings' name = bindings name) : Noticed lower bindings' order metas name :=
  ⟨heq ▸ h.single, h.last⟩

/-- **Redaction, exactly.**  A variable that is compared with a tagged column is stored
as the marker if and only if it is noticed (or shown as the marker), and then the
history does not depend on its value. -/
theorem redactParams_complete_iff (lower : Lower) (pg : PgQuery) (sql : Bytes)
    (datasetIdents : Bytes → Option Bytes) (t : Template)
    (bindings : Bytes → Option (ShownValue V)) (r : Rewritten V) (cls : Classification)
    (metas : List (List Column)) (order : List Comparison) (name : Bytes)
    (h : Accepted lower pg sql datasetIdents t bindings r cls)
    (horder : order.Perm (t.comparisons lower)) :
    (cls.visiting r.slots order).paramColumns.Perm cls.paramColumns ∧
    ((ComparesPII lower t metas name →
        redactParams lower r (cls.visiting r.slots order) bindings metas name =
          some redactedMarker) ↔
      (ComparesPII lower t metas name → Noticed lower bindings order metas name ∨
        (bindings name).map (·.display) = some redactedMarker)) ∧
    (ComparesPII lower t metas name → Noticed lower bindings order metas name →
      ∀ bindings' r' cls', Accepted lower pg sql datasetIdents t bindings' r' cls' →
        (∀ n ≠ name, bindings' n = bindings n) →
        (∃ bv, bindings' name = some bv ∧ bv.values.length = 1) →
        redactParams lower r' (cls'.visiting r'.slots order) bindings' metas =
          redactParams lower r (cls.visiting r.slots order) bindings metas) := by
  have hplaceholder : ComparesPII lower t metas name → name ∈ namesOf sql := by
    rintro ⟨c, hc, rfl, -⟩
    exact h.readAs.names c hc
  refine ⟨?_, ?_, ?_⟩
  · conv_rhs => rw [classify_visiting h.readAs h.classified]
    exact horder.filterMap _
  · constructor
    · intro hstores hcompares
      exact (h.stores_marker_iff (hplaceholder hcompares)).mp (hstores hcompares)
    · intro hnoticed hcompares
      exact (h.stores_marker_iff (hplaceholder hcompares)).mpr (hnoticed hcompares)
  · intro hcompares hnoticed bindings' r' cls' h' hother hsingle
    have hmem := hplaceholder hcompares
    funext n
    by_cases hn : n = name
    · subst hn
      rw [(h.stores_marker_iff hmem).mpr (.inl hnoticed)]
      exact (h'.stores_marker_iff hmem).mpr (.inl ⟨hsingle, hnoticed.last⟩)
    · have hsame : n ∈ redactedNames lower r' (cls'.visiting r'.slots order) metas ↔
          n ∈ redactedNames lower r (cls.visiting r.slots order) metas := by
        rw [h'.redacted_iff, h.redacted_iff]
        exact and_congr_right fun _ =>
          ⟨fun hw => hw.of_eq (hother n hn).symm, fun hw => hw.of_eq (hother n hn)⟩
      rw [redactParams, redactParams, hother n hn]
      simp only [hsame]

end Complete

/-! ## Samples -/

/-- The tree of a SELECT with the given comparisons in its WHERE clause. -/
def whereAll (conditions : List Template) : Template :=
  .selectStmt false [] none [.message (bytes "BoolExpr") conditions]

/-- `col op :v`. -/
def operandTemplate (column name : String) : Template :=
  .aExpr (some (.columnRef [some (bytes column)])) (some (.placeholder (bytes name) false)) []

/-- `col IN :v`. -/
def inListTemplate (column name : String) : Template :=
  .aExpr (some (.columnRef [some (bytes column)]))
    (some (.message (bytes "List") [.placeholder (bytes name) true])) []

/-- A parser that knows one tree. -/
def parserOf (tree : Node) : PgQuery := ⟨fun _ => .ok [tree], fun _ => none⟩

/-- A dataset with a tagged column. -/
def sampleColumns (tagged plain : String) : List (List Column) :=
  [[⟨bytes tagged, bytes "pii"⟩, ⟨bytes plain, []⟩]]

/-- An e-mail address and a region. -/
def emailBindings : Bytes → Option (ShownValue Nat) := fun n =>
  if n = bytes "email" then some ⟨⟨false, 1, []⟩, .str "person@example.com"⟩
  else if n = bytes "region" then some ⟨⟨false, 2, []⟩, .str "EMEA"⟩
  else none

/-- The comparisons of the sample with an e-mail address. -/
def emailTemplate : Template :=
  whereAll [operandTemplate "email" "email", operandTemplate "region" "region"]

def emailSQL : Bytes := bytes "SELECT id FROM t WHERE email = :email AND region = :region"

def emailRewritten : Rewritten Nat where
  sql := bytes "SELECT id FROM t WHERE email = $1 AND region = $2"
  args := [1, 2]
  paramNames := [bytes "email", bytes "region"]

def emailClassification : Classification where
  fingerprint := []
  tables := []
  cteNames := []
  hasOuterLimit := false
  paramColumns := [(1, bytes "email"), (2, bytes "region")]

theorem email_accepted : Accepted asciiLower (parserOf (emailTemplate.bind emailRewritten.slots))
    emailSQL (fun _ => none) emailTemplate emailBindings emailRewritten emailClassification where
  rewritten := by decide
  readAs := ⟨rfl, by decide⟩
  classified := by decide

/-- The e-mail address is redacted. -/
theorem redactParams_email :
    redactParams asciiLower emailRewritten (emailClassification.visiting emailRewritten.slots
      (emailTemplate.comparisons asciiLower)) emailBindings (sampleColumns "email" "region")
      (bytes "email") = some redactedMarker := by
  have hcompares : ComparesPII asciiLower emailTemplate (sampleColumns "email" "region")
      (bytes "email") :=
    ⟨.operand (bytes "email") (bytes "email"), by decide, rfl, by decide⟩
  have hnoticed : Noticed asciiLower emailBindings (emailTemplate.comparisons asciiLower)
      (sampleColumns "email" "region") (bytes "email") :=
    ⟨⟨_, rfl, rfl⟩, bytes "email", by decide, by decide⟩
  have hexact := redactParams_complete_iff asciiLower _ emailSQL (fun _ => none) emailTemplate
    emailBindings emailRewritten emailClassification (sampleColumns "email" "region")
    (emailTemplate.comparisons asciiLower) (bytes "email") email_accepted (List.Perm.refl _)
  exact hexact.2.1.mpr (fun _ => .inl hnoticed) hcompares

/-- Two social security numbers as a list. -/
def ssnBindings : Bytes → Option (ShownValue Nat) := fun n =>
  if n = bytes "ids" then
    some ⟨⟨true, 0, [1, 2]⟩, .arr [.str "078-05-1120", .str "219-09-9999"]⟩
  else none

def ssnRewritten : Rewritten Nat where
  sql := bytes "SELECT id FROM t WHERE ssn IN ($1,$2)"
  args := [1, 2]
  paramNames := [bytes "ids", bytes "ids"]

/-- The list is compared with a tagged column and stored as it is. -/
theorem list_in_clear :
    Accepted asciiLower (parserOf ((whereAll [inListTemplate "ssn" "ids"]).bind ssnRewritten.slots))
        (bytes "SELECT id FROM t WHERE ssn IN :ids") (fun _ => none)
        (whereAll [inListTemplate "ssn" "ids"]) ssnBindings ssnRewritten ⟨[], [], [], false, []⟩ ∧
      ComparesPII asciiLower (whereAll [inListTemplate "ssn" "ids"]) (sampleColumns "ssn" "name")
        (bytes "ids") ∧
      redactParams asciiLower ssnRewritten ⟨[], [], [], false, []⟩ ssnBindings
          (sampleColumns "ssn" "name") (bytes "ids") =
        some (.arr [.str "078-05-1120", .str "219-09-9999"]) :=
  ⟨⟨by decide, ⟨rfl, by decide⟩, by decide⟩,
    ⟨.inList (bytes "ids") (bytes "ssn"), by decide, rfl, by decide⟩, rfl⟩

end Windrose.Query

/-
  Semantic/Expr.lean --- the expressions of a semantic model.

  Source: services/semantic-service/app/domain/expr.py (the grammar, collect_columns),
  app/compiler/dialects.py (Dialect) and app/compiler/compiler.py (render_ast).

  An expression is a tree over the names of its columns.  `resolve_col` of the source is
  `subst`: it puts an expression in the place of each column, or fails, and rendering
  comes after.  The meaning of an expression is that of an `Engine`, and substitution
  commutes with it (`eval_subst`).
-/
import Windrose.Foundation.Lexer
import Windrose.Foundation.Utf8

set_option autoImplicit false

namespace Windrose.Semantic

open Windrose.Foundation

/-! ## Names -/

/-- A character of a name after the first. -/
def isNameChar (c : Char) : Bool := ('a' ≤ c && c ≤ 'z') || ('0' ≤ c && c ≤ '9') || c == '_'

/-- `$` of a pattern also stands before one newline at the end. -/
def dropNewline (cs : List Char) : List Char := if cs.getLast? = some '\n' then cs.dropLast else cs

/-- `NAME_RE.match`. -/
def isName (s : String) : Bool :=
  match dropNewline s.toList with
  | [] => false
  | c :: cs => ('a' ≤ c && c ≤ 'z') && cs.length ≤ 62 && cs.all isNameChar

/-- A text that the pattern of names admits. -/
structure Name where
  text : String
  ok : isName text = true
  deriving DecidableEq

namespace Name

def bytes (n : Name) : Bytes := Foundation.bytes n.text

/-- The name of a text. -/
def of? (s : String) : Option Name := if h : isName s = true then some ⟨s, h⟩ else none

theorem ext {m n : Name} (h : m.text = n.text) : m = n := by
  cases m
  cases n
  cases h
  rfl

/-- `sorted` puts names in the order of their texts. -/
def le (m n : Name) : Bool := !decide (n.text < m.text)

theorem mem_text {n : Name} {c : Char} (h : c ∈ n.text.toList) :
    isNameChar c = true ∨ c = '\n' := by
  have hok := n.ok
  have hdrop : c ∈ dropNewline n.text.toList ∨ c = '\n' := by
    unfold dropNewline
    split
    · next hlast =>
      rw [← List.dropLast_append_getLast? '\n' hlast] at h
      rcases List.mem_append.mp h with h | h
      · exact .inl h
      · exact .inr (List.mem_singleton.mp h)
    · exact .inl h
  rcases hdrop with hc | hc
  · left
    unfold isName at hok
    split at hok
    · next heq =>
      rw [heq] at hc
      cases hc
    · next d ds heq =>
      rw [heq] at hc
      simp only [Bool.and_eq_true, decide_eq_true_eq, List.all_eq_true] at hok
      rcases List.mem_cons.mp hc with rfl | hc
      · simp [isNameChar, hok.1.1]
      · exact hok.2 c hc
  · exact .inr hc

theorem exists_head (n : Name) : ∃ c cs, n.text.toList = c :: cs ∧ 'a' ≤ c ∧ c ≤ 'z' := by
  have hok := n.ok
  unfold isName at hok
  split at hok
  · cases hok
  · next d ds heq =>
    simp only [Bool.and_eq_true, decide_eq_true_eq] at hok
    have hsub : dropNewline n.text.toList <+: n.text.toList := by
      unfold dropNewline
      split
      · exact List.dropLast_prefix _
      · exact List.prefix_refl _
    rw [heq] at hsub
    obtain ⟨t, ht⟩ := hsub
    exact ⟨d, ds ++ t, by rw [← ht, List.cons_append], hok.1.1⟩

end Name

/-! ## The words of the grammar -/

/-- `AGG_WHITELIST`. -/
inductive AggName where
  | sum | avg | min | max | count | countDistinct | first
  deriving DecidableEq

/-- `TIME_GRAINS`. -/
inductive TimeGrain where
  | hour | day | week | month | quarter | year
  deriving DecidableEq

/-- The functions of `FUNC_WHITELIST` that are written as calls. -/
inductive FuncName where
  | coalesce | nullif | lower | upper | trim | concat | abs | round
  deriving DecidableEq

/-- `CAST_TYPES`. -/
inductive CastType where
  | integer | bigint | double | decimal | varchar | date | timestamp | boolean
  deriving DecidableEq

/-- `EXTRACT_PARTS`. -/
inductive ExtractPart where
  | year | quarter | month | week | day | hour | minute | second | dow | doy
  deriving DecidableEq

/-- The arithmetic operators. -/
inductive BinOp where
  | add | sub | mul | div | mod
  deriving DecidableEq

/-- The comparisons. -/
inductive CmpOp where
  | eq | ne | gt | ge | lt | le
  deriving DecidableEq

/-- The connectives. -/
inductive LogicOp where
  | and | or
  deriving DecidableEq

def TimeGrain.text : TimeGrain → String
  | hour => "hour" | day => "day" | week => "week"
  | month => "month" | quarter => "quarter" | year => "year"

def FuncName.text : FuncName → String
  | coalesce => "coalesce" | nullif => "nullif" | lower => "lower" | upper => "upper"
  | trim => "trim" | concat => "concat" | abs => "abs" | round => "round"

def CastType.text : CastType → String
  | integer => "integer" | bigint => "bigint" | double => "double" | decimal => "decimal"
  | varchar => "varchar" | date => "date" | timestamp => "timestamp" | boolean => "boolean"

def ExtractPart.text : ExtractPart → String
  | year => "year" | quarter => "quarter" | month => "month" | week => "week" | day => "day"
  | hour => "hour" | minute => "minute" | second => "second" | dow => "dow" | doy => "doy"

def BinOp.text : BinOp → String
  | add => "+" | sub => "-" | mul => "*" | div => "/" | mod => "%"

def CmpOp.text : CmpOp → String
  | eq => "=" | ne => "!=" | gt => ">" | ge => ">=" | lt => "<" | le => "<="

def LogicOp.text : LogicOp → String
  | and => "AND" | or => "OR"

/-- The text of a number: a sign, digits and a point.  `\d` also knows digits beyond ASCII. -/
structure NumberText where
  text : Bytes
  ok : ∀ c ∈ text, c = 45 ∨ c = 46 ∨ isDigit c = true ∨ 128 ≤ c

/-- A constant of an expression. -/
inductive Literal where
  | num (v : NumberText)
  | str (v : Bytes)
  | bool (v : Bool)
  | null

/-! ## Expressions -/

mutual

/-- An expression over columns `γ`. -/
inductive Expr (γ : Type) where
  | col (name : γ)
  | lit (v : Literal)
  | bin (op : BinOp) (l r : Expr γ)
  | func (name : FuncName) (args : Args γ)
  | cast (expr : Expr γ) (type : CastType)
  | extract (part : ExtractPart) (expr : Expr γ)
  | dateTrunc (grain : TimeGrain) (expr : Expr γ)
  | case (when : Cond γ) (then_ : Expr γ) (rest : Branches γ)

/-- The arguments of a call. -/
inductive Args (γ : Type) where
  | nil
  | cons (arg : Expr γ) (args : Args γ)

/-- A condition. -/
inductive Cond (γ : Type) where
  | isNull (negated : Bool) (l : Expr γ)
  | cmp (op : CmpOp) (l r : Expr γ)
  | logic (op : LogicOp) (l r : Cond γ)
  | not (c : Cond γ)

/-- What follows the first `WHEN` of a `CASE`. -/
inductive Branches (γ : Type) where
  | done
  | otherwise (expr : Expr γ)
  | when (when : Cond γ) (then_ : Expr γ) (rest : Branches γ)

end

variable {γ δ ε : Type}

mutual

/-- `collect_columns`, in the order of the text. -/
def Expr.columns : Expr γ → List γ
  | .col name => [name]
  | .lit _ => []
  | .bin _ l r => l.columns ++ r.columns
  | .func _ args => args.columns
  | .cast e _ => e.columns
  | .extract _ e => e.columns
  | .dateTrunc _ e => e.columns
  | .case c t rest => c.columns ++ t.columns ++ rest.columns

def Args.columns : Args γ → List γ
  | .nil => []
  | .cons e es => e.columns ++ es.columns

def Cond.columns : Cond γ → List γ
  | .isNull _ l => l.columns
  | .cmp _ l r => l.columns ++ r.columns
  | .logic _ l r => l.columns ++ r.columns
  | .not c => c.columns

def Branches.columns : Branches γ → List γ
  | .done => []
  | .otherwise e => e.columns
  | .when c t rest => c.columns ++ t.columns ++ rest.columns

end

mutual

/-- An expression in the place of each column. -/
def Expr.subst (resolve : γ → Except ε (Expr δ)) : Expr γ → Except ε (Expr δ)
  | .col name => resolve name
  | .lit v => .ok (.lit v)
  | .bin op l r => do return .bin op (← l.subst resolve) (← r.subst resolve)
  | .func name args => do return .func name (← args.subst resolve)
  | .cast e type => do return .cast (← e.subst resolve) type
  | .extract part e => do return .extract part (← e.subst resolve)
  | .dateTrunc grain e => do return .dateTrunc grain (← e.subst resolve)
  | .case c t rest => do
      return .case (← c.subst resolve) (← t.subst resolve) (← rest.subst resolve)

def Args.subst (resolve : γ → Except ε (Expr δ)) : Args γ → Except ε (Args δ)
  | .nil => .ok .nil
  | .cons e es => do return .cons (← e.subst resolve) (← es.subst resolve)

def Cond.subst (resolve : γ → Except ε (Expr δ)) : Cond γ → Except ε (Cond δ)
  | .isNull negated l => do return .isNull negated (← l.subst resolve)
  | .cmp op l r => do return .cmp op (← l.subst resolve) (← r.subst resolve)
  | .logic op l r => do return .logic op (← l.subst resolve) (← r.subst resolve)
  | .not c => do return .not (← c.subst resolve)

def Branches.subst (resolve : γ → Except ε (Expr δ)) : Branches γ → Except ε (Branches δ)
  | .done => .ok .done
  | .otherwise e => do return .otherwise (← e.subst resolve)
  | .when c t rest => do
      return .when (← c.subst resolve) (← t.subst resolve) (← rest.subst resolve)

end

/-! ## Dialects -/

/-- `DIALECTS`. -/
inductive Dialect where
  | duckdb | trino | athena | bigquery | synapse
  deriving DecidableEq

namespace Dialect

def name : Dialect → String
  | duckdb => "duckdb" | trino => "trino" | athena => "athena" | bigquery => "bigquery"
  | synapse => "synapse"

/-- `quote_open`, `quote_close` and `escape`. -/
def quoting : Dialect → UInt8 × UInt8 × Bytes
  | duckdb => (34, 34, [34, 34])
  | trino => (34, 34, [34, 34])
  | athena => (34, 34, [34, 34])
  | bigquery => (96, 96, [92, 96])
  | synapse => (91, 93, [93, 93])

/-- T-SQL forbids ordinals in GROUP BY. -/
def groupByOrdinals : Dialect → Bool
  | synapse => false
  | _ => true

/-- `quote`. -/
def quote (d : Dialect) (identifier : Bytes) : Bytes :=
  d.quoting.1 ::
    identifier.flatMap (fun c => if c = d.quoting.2.1 then d.quoting.2.2 else [c]) ++
    [d.quoting.2.1]

/-- `date_trunc`. -/
def dateTrunc (d : Dialect) (grain : TimeGrain) (expr : Bytes) : Bytes :=
  match d with
  | bigquery => bytes "date_trunc(" ++ expr ++ bytes ", " ++ bytes grain.text ++ bytes ")"
  | synapse => bytes "DATETRUNC(" ++ bytes grain.text ++ bytes ", " ++ expr ++ bytes ")"
  | _ => bytes "date_trunc('" ++ bytes grain.text ++ bytes "', " ++ expr ++ bytes ")"

/-- `count_distinct`. -/
def countDistinct (expr : Bytes) : Bytes := bytes "count(DISTINCT " ++ expr ++ bytes ")"

end Dialect

/-! ## Rendering -/

/-- `sep.join(xs)`. -/
def joined (sep : Bytes) : List Bytes → Bytes
  | [] => []
  | x :: xs => x ++ xs.flatMap fun y => sep ++ y

/-- `_render_literal`. -/
def Literal.render : Literal → Bytes
  | .num v => v.text
  | .str v => 39 :: v.flatMap (fun c => if c = 39 then [39, 39] else [c]) ++ [39]
  | .bool true => bytes "TRUE"
  | .bool false => bytes "FALSE"
  | .null => bytes "NULL"

section Render

variable (d : Dialect) (column : γ → Bytes)

mutual

/-- `render_ast`. -/
def Expr.render : Expr γ → Bytes
  | .col name => column name
  | .lit v => v.render
  | .bin op l r =>
    bytes "(" ++ l.render ++ bytes " " ++ bytes op.text ++ bytes " " ++ r.render ++ bytes ")"
  | .func name args => bytes name.text ++ bytes "(" ++ joined (bytes ", ") args.render ++ bytes ")"
  | .cast e type => bytes "CAST(" ++ e.render ++ bytes " AS " ++ bytes type.text ++ bytes ")"
  | .extract part e =>
    bytes "extract(" ++ bytes part.text ++ bytes " FROM " ++ e.render ++ bytes ")"
  | .dateTrunc grain e => d.dateTrunc grain e.render
  | .case c t rest => bytes "CASE WHEN " ++ c.render ++ bytes " THEN " ++ t.render ++ rest.render

def Args.render : Args γ → List Bytes
  | .nil => []
  | .cons e es => e.render :: es.render

def Cond.render : Cond γ → Bytes
  | .isNull false l => l.render ++ bytes " IS NULL"
  | .isNull true l => l.render ++ bytes " IS NOT NULL"
  | .cmp op l r => l.render ++ bytes " " ++ bytes op.text ++ bytes " " ++ r.render
  | .logic op l r =>
    bytes "(" ++ l.render ++ bytes " " ++ bytes op.text ++ bytes " " ++ r.render ++ bytes ")"
  | .not c => bytes "(NOT " ++ c.render ++ bytes ")"

def Branches.render : Branches γ → Bytes
  | .done => bytes " END"
  | .otherwise e => bytes " ELSE " ++ e.render ++ bytes " END"
  | .when c t rest => bytes " WHEN " ++ c.render ++ bytes " THEN " ++ t.render ++ rest.render

end

end Render

/-! ## Meaning -/

/-- What a database makes of the parts of an expression; `none` is NULL. -/
structure Engine (α : Type) where
  number : Bytes → α
  string : Bytes → α
  bool : Bool → α
  bin : BinOp → Option α → Option α → Option α
  call : FuncName → List (Option α) → Option α
  cast : CastType → Option α → Option α
  extract : ExtractPart → Option α → Option α
  dateTrunc : TimeGrain → Option α → Option α
  compare : CmpOp → α → α → Bool

namespace Engine

variable {α : Type} [DecidableEq α] (E : Engine α)

def literal : Literal → Option α
  | .num v => some (E.number v.text)
  | .str v => some (E.string v)
  | .bool v => some (E.bool v)
  | .null => none

def func : FuncName → List (Option α) → Option α
  | .coalesce, vs => vs.findSome? id
  | .nullif, [v, w] => if v = w then none else v
  | name, vs => E.call name vs

/-- A comparison with NULL is unknown. -/
def cmp (op : CmpOp) : Option α → Option α → Option Bool
  | some a, some b =>
    match op with
    | .eq => some (a = b)
    | .ne => some (a ≠ b)
    | op => some (E.compare op a b)
  | _, _ => none

/-- The three-valued `AND` and `OR`. -/
def logic : LogicOp → Option Bool → Option Bool → Option Bool
  | .and, some false, _ => some false
  | .and, _, some false => some false
  | .and, some true, some true => some true
  | .or, some true, _ => some true
  | .or, _, some true => some true
  | .or, some false, some false => some false
  | _, _, _ => none

theorem cmp_eq_some_true {a b : Option α} :
    E.cmp .eq a b = some true ↔ ∃ v, a = some v ∧ b = some v := by
  cases a with
  | none => simp [cmp]
  | some v =>
    cases b with
    | none => simp [cmp]
    | some w => simp [cmp, eq_comm]

end Engine

section Eval

variable {α : Type} [DecidableEq α] (E : Engine α) (env : γ → Option α)

mutual

def Expr.eval : Expr γ → Option α
  | .col name => env name
  | .lit v => E.literal v
  | .bin op l r => E.bin op l.eval r.eval
  | .func name args => E.func name args.eval
  | .cast e type => E.cast type e.eval
  | .extract part e => E.extract part e.eval
  | .dateTrunc grain e => E.dateTrunc grain e.eval
  | .case c t rest => if c.eval = some true then t.eval else rest.eval

def Args.eval : Args γ → List (Option α)
  | .nil => []
  | .cons e es => e.eval :: es.eval

def Cond.eval : Cond γ → Option Bool
  | .isNull negated l => some (l.eval.isNone != negated)
  | .cmp op l r => E.cmp op l.eval r.eval
  | .logic op l r => Engine.logic op l.eval r.eval
  | .not c => c.eval.map (!·)

def Branches.eval : Branches γ → Option α
  | .done => none
  | .otherwise e => e.eval
  | .when c t rest => if c.eval = some true then t.eval else rest.eval

end

end Eval

/-! ## Substitution -/

section Subst

variable {resolve : γ → Except ε (Expr δ)}

/-- The columns of what a column resolves to. -/
def resolvedColumns (resolve : γ → Except ε (Expr δ)) (n : γ) : List δ :=
  match resolve n with
  | .ok x => x.columns
  | .error _ => []

/-- The value of what a column resolves to. -/
def resolvedValue {α : Type} [DecidableEq α] (E : Engine α) (env : δ → Option α)
    (resolve : γ → Except ε (Expr δ)) (n : γ) : Option α :=
  match resolve n with
  | .ok x => x.eval E env
  | .error _ => none

mutual

theorem Expr.subst_spec {e : Expr γ} {e' : Expr δ} (h : e.subst resolve = .ok e') :
    (∀ n ∈ e.columns, ∃ x, resolve n = .ok x) ∧
    e'.columns = e.columns.flatMap (resolvedColumns resolve) ∧
    ∀ {α : Type} [DecidableEq α] (E : Engine α) (env : δ → Option α),
      e'.eval E env = e.eval E (resolvedValue E env resolve) := by
  cases e with
  | col name =>
    rw [Expr.subst] at h
    simp [Expr.columns, Expr.eval, resolvedColumns, resolvedValue, h]
  | lit v =>
    cases h
    simp [Expr.columns, Expr.eval]
  | bin op l r =>
    obtain ⟨l', hl, h⟩ := bind_eq_ok.mp h
    obtain ⟨r', hr, h⟩ := bind_eq_ok.mp h
    cases h
    simp +contextual [Expr.columns, Expr.eval, or_imp, Expr.subst_spec hl, Expr.subst_spec hr]
  | func name args =>
    obtain ⟨args', hargs, h⟩ := bind_eq_ok.mp h
    cases h
    simp +contextual [Expr.columns, Expr.eval, Args.subst_spec hargs]
  | cast e type =>
    obtain ⟨x, hx, h⟩ := bind_eq_ok.mp h
    cases h
    simp +contextual [Expr.columns, Expr.eval, Expr.subst_spec hx]
  | extract part e =>
    obtain ⟨x, hx, h⟩ := bind_eq_ok.mp h
    cases h
    simp +contextual [Expr.columns, Expr.eval, Expr.subst_spec hx]
  | dateTrunc grain e =>
    obtain ⟨x, hx, h⟩ := bind_eq_ok.mp h
    cases h
    simp +contextual [Expr.columns, Expr.eval, Expr.subst_spec hx]
  | case c t rest =>
    obtain ⟨c', hc, h⟩ := bind_eq_ok.mp h
    obtain ⟨t', ht, h⟩ := bind_eq_ok.mp h
    obtain ⟨rest', hrest, h⟩ := bind_eq_ok.mp h
    cases h
    simp +contextual [Expr.columns, Expr.eval, or_imp, Cond.subst_spec hc, Expr.subst_spec ht,
      Branches.subst_spec hrest]

theorem Args.subst_spec {es : Args γ} {es' : Args δ} (h : es.subst resolve = .ok es') :
    (∀ n ∈ es.columns, ∃ x, resolve n = .ok x) ∧
    es'.columns = es.columns.flatMap (resolvedColumns resolve) ∧
    ∀ {α : Type} [DecidableEq α] (E : Engine α) (env : δ → Option α),
      es'.eval E env = es.eval E (resolvedValue E env resolve) := by
  cases es with
  | nil =>
    cases h
    simp [Args.columns, Args.eval]
  | cons e es =>
    obtain ⟨e', he, h⟩ := bind_eq_ok.mp h
    obtain ⟨rest, hrest, h⟩ := bind_eq_ok.mp h
    cases h
    simp +contextual [Args.columns, Args.eval, or_imp, Expr.subst_spec he, Args.subst_spec hrest]

theorem Cond.subst_spec {p : Cond γ} {p' : Cond δ} (h : p.subst resolve = .ok p') :
    (∀ n ∈ p.columns, ∃ x, resolve n = .ok x) ∧
    p'.columns = p.columns.flatMap (resolvedColumns resolve) ∧
    ∀ {α : Type} [DecidableEq α] (E : Engine α) (env : δ → Option α),
      p'.eval E env = p.eval E (resolvedValue E env resolve) := by
  cases p with
  | isNull negated l =>
    obtain ⟨x, hx, h⟩ := bind_eq_ok.mp h
    cases h
    simp +contextual [Cond.columns, Cond.eval, Expr.subst_spec hx]
  | cmp op l r =>
    obtain ⟨l', hl, h⟩ := bind_eq_ok.mp h
    obtain ⟨r', hr, h⟩ := bind_eq_ok.mp h
    cases h
    simp +contextual [Cond.columns, Cond.eval, or_imp, Expr.subst_spec hl, Expr.subst_spec hr]
  | logic op l r =>
    obtain ⟨l', hl, h⟩ := bind_eq_ok.mp h
    obtain ⟨r', hr, h⟩ := bind_eq_ok.mp h
    cases h
    simp +contextual [Cond.columns, Cond.eval, or_imp, Cond.subst_spec hl, Cond.subst_spec hr]
  | not p =>
    obtain ⟨x, hx, h⟩ := bind_eq_ok.mp h
    cases h
    simp +contextual [Cond.columns, Cond.eval, Cond.subst_spec hx]

theorem Branches.subst_spec {b : Branches γ} {b' : Branches δ} (h : b.subst resolve = .ok b') :
    (∀ n ∈ b.columns, ∃ x, resolve n = .ok x) ∧
    b'.columns = b.columns.flatMap (resolvedColumns resolve) ∧
    ∀ {α : Type} [DecidableEq α] (E : Engine α) (env : δ → Option α),
      b'.eval E env = b.eval E (resolvedValue E env resolve) := by
  cases b with
  | done =>
    cases h
    simp [Branches.columns, Branches.eval]
  | otherwise e =>
    obtain ⟨x, hx, h⟩ := bind_eq_ok.mp h
    cases h
    simp +contextual [Branches.columns, Branches.eval, Expr.subst_spec hx]
  | when c t rest =>
    obtain ⟨c', hc, h⟩ := bind_eq_ok.mp h
    obtain ⟨t', ht, h⟩ := bind_eq_ok.mp h
    obtain ⟨rest', hrest, h⟩ := bind_eq_ok.mp h
    cases h
    simp +contextual [Branches.columns, Branches.eval, or_imp, Cond.subst_spec hc,
      Expr.subst_spec ht, Branches.subst_spec hrest]

end

theorem Expr.subst_ok {e : Expr γ} {e' : Expr δ} (h : e.subst resolve = .ok e') {n : γ}
    (hn : n ∈ e.columns) : ∃ x, resolve n = .ok x := (Expr.subst_spec h).1 n hn

end Subst

end Windrose.Semantic

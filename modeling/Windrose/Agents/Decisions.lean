/-
  Agents/Decisions.lean --- decision tables.

  Source: services/agent-runtime/app/domain/decisions.py.

  `_cmp` compares two values as numbers if both look like numbers, and else as texts
  without case.  Each pair is compared on its own, so one value may stand between two
  numbers as a text that the numbers themselves have in the other order.
-/
import Mathlib.Data.Char
import Windrose.Foundation.Lexer
import Windrose.Foundation.PyValue

set_option autoImplicit false

namespace Windrose.Agents

open Windrose.Foundation

/-! ## The model -/

/-- `SEVERITIES`. -/
def severities : List String := ["low", "medium", "high", "critical"]

/-- `OPERATORS`. -/
def operators : List String :=
  ["eq", "ne", "gt", "gte", "lt", "lte", "in", "not_in", "between", "contains", "starts_with",
    "ends_with", "matches", "exists", "is_empty"]

/-- One comparison of a rule. -/
structure Condition where
  column : String
  op : String
  value : PyValue

/-- What a rule decides. -/
structure Outcome where
  dispositionCode : String
  severity : String
  deriving DecidableEq

/-- A rule fires when all of its conditions hold. -/
structure Rule where
  when : List Condition
  outcome : Outcome
  note : String

/-- `DecisionModel`, with what `evaluate` reads. -/
structure DecisionModel where
  rules : List Rule
  defaultOutcome : Option Outcome

/-- The answer of `evaluate`. -/
structure Evaluation where
  matched : Bool
  ruleIndex : Option Nat
  outcome : Option Outcome
  explanation : Text
  deriving DecidableEq

/-- The fields of a row. -/
abbrev Fields := List (String × PyValue)

/-- What the evaluator takes from Python: the Unicode database and `re`. -/
structure Python extends Unicode where
  /-- `re.compile`, with the text of its `re.error`. -/
  compile : Text → Except Text Unit
  /-- `re.search` of a pattern that compiles, with `re.IGNORECASE`. -/
  search : Text → Text → Bool

/-- `OverflowError`: an `int` is too large for a `float`. -/
inductive Exn where
  | overflowError
  deriving DecidableEq

/-! ## Comparison -/

/-- `(x > y) - (x < y)`. -/
def signOf (gt lt : Bool) : Int := (if gt then 1 else 0) - (if lt then 1 else 0)

variable (py : Python)

/-- `_num`. -/
def num : PyValue → Except Exn (Option Float64)
  | .num (.int n) =>
    match Double.ofInt n with
    | some x => .ok (some (.finite x))
    | none => .error .overflowError
  | .num (.float x) => .ok (some x)
  | .str s => .ok (Py.float py.toUnicode (strip Py.isSpace s.toList))
  | _ => .ok none

/-- `str(x).strip().lower()`. -/
def folded (v : PyValue) : Text := py.lower (strip Py.isSpace (Py.str py.toUnicode v))

/-- `_cmp` of two texts. -/
def textCmp (left right : PyValue) : Int :=
  signOf (decide (folded py right < folded py left)) (decide (folded py left < folded py right))

/-- `_cmp` of two numbers. -/
def numberCmp (left right : Float64) : Int := signOf (right.lt left) (left.lt right)

/-- `_cmp`. -/
def cmp (left right : PyValue) : Except Exn Int := do
  match ← num py left, ← num py right with
  | some ln, some rn => .ok (numberCmp ln rn)
  | _, _ => .ok (textCmp py left right)

/-! ## Conditions -/

/-- `_blank`. -/
def blank : PyValue → Bool
  | .null => true
  | .str s => (strip Py.isSpace s.toList).isEmpty
  | _ => false

/-- `_truthy`. -/
def truthy (v : PyValue) (absent : Bool) : Bool :=
  match v with
  | .null => absent
  | .bool b => b
  | _ => decide (folded py v ∈ [text "true", text "1", text "yes"])

/-- `p in s`. -/
def isInfix (p s : Text) : Bool := s.tails.any (p.isPrefixOf ·)

/-- The list of `in` and `not_in`. -/
def vals : PyValue → List PyValue
  | .arr vs => vs
  | v => [v]

/-- The two ends of `between`. -/
def ends : PyValue → PyValue × PyValue
  | .arr (lo :: hi :: _) => (lo, hi)
  | .arr [lo] => (lo, .null)
  | _ => (.null, .null)

/-- `_condition_holds` of a column that is there. -/
def compares (cond : Condition) (left : PyValue) : Except Exn Bool :=
  if cond.op = "eq" then (cmp py left cond.value).map (decide <| · = 0)
  else if cond.op = "ne" then (cmp py left cond.value).map (decide <| · ≠ 0)
  else if cond.op = "gt" then (cmp py left cond.value).map (decide <| 0 < ·)
  else if cond.op = "gte" then (cmp py left cond.value).map (decide <| 0 ≤ ·)
  else if cond.op = "lt" then (cmp py left cond.value).map (decide <| · < 0)
  else if cond.op = "lte" then (cmp py left cond.value).map (decide <| · ≤ 0)
  else if cond.op = "in" then
    (vals cond.value).anyM fun v => (cmp py left v).map (decide <| · = 0)
  else if cond.op = "not_in" then
    (vals cond.value).allM fun v => (cmp py left v).map (decide <| · ≠ 0)
  else if cond.op = "between" then
    (cmp py left (ends cond.value).1).bind fun r =>
      if 0 ≤ r then (cmp py left (ends cond.value).2).map (decide <| · ≤ 0) else .ok false
  else if cond.op = "contains" then .ok (isInfix (folded py cond.value) (folded py left))
  else if cond.op = "starts_with" then
    .ok ((folded py cond.value).isPrefixOf (folded py left))
  else if cond.op = "ends_with" then
    .ok ((folded py cond.value).isSuffixOf (folded py left))
  else if cond.op = "matches" then
    match py.compile (Py.str py.toUnicode cond.value) with
    | .ok _ => .ok (py.search (Py.str py.toUnicode cond.value) (Py.str py.toUnicode left))
    | .error _ => .ok false
  else .ok false

/-- The value of a column that is there and not null. -/
def present (fields : Fields) (column : String) : Option PyValue :=
  match fields.lookup column with
  | some .null => none
  | v => v

/-- `_condition_holds`. -/
def conditionHolds (cond : Condition) (fields : Fields) : Except Exn Bool :=
  let left := present fields cond.column
  if cond.op = "exists" then .ok (if truthy py cond.value true then left.isSome else left.isNone)
  else if cond.op = "is_empty" then
    let empty := match left with
      | some v => blank v
      | none => true
    .ok (if truthy py cond.value true then empty else !empty)
  else match left with
    | some v => compares py cond v
    | none => .ok false

/-- `all(_condition_holds(c, fields) for c in rule.when)`. -/
def fires (fields : Fields) (when : List Condition) : Except Exn Bool :=
  when.allM fun c => conditionHolds py c fields

/-! ## Evaluation -/

/-- What the explanation says of the rule that fired. -/
def firedText (i : Nat) (rule : Rule) : Text :=
  let conds := (text " AND ").intercalate (rule.when.map fun c =>
    text c.column ++ ' ' :: text c.op ++ ' ' :: Py.str py.toUnicode c.value)
  text "rule #" ++ Py.ascii (itoa i) ++ text " fired [" ++
    (if conds.isEmpty then text "(always)" else conds) ++ text "]" ++
    (if rule.note = "" then [] else text " — " ++ text rule.note)

/-- The loop of `evaluate`, from rule `i` on. -/
def firstMatch (fields : Fields) : Nat → List Rule → Except Exn (Option Evaluation)
  | _, [] => .ok none
  | i, rule :: rules => do
      if ← fires py fields rule.when then
        .ok (some ⟨true, some i, some rule.outcome, firedText py i rule⟩)
      else firstMatch fields (i + 1) rules

/-- `evaluate`. -/
def evaluate (model : DecisionModel) (fields : Fields) : Except Exn Evaluation := do
  match ← firstMatch py fields 0 model.rules with
  | some evaluation => .ok evaluation
  | none =>
    match model.defaultOutcome with
    | some outcome =>
      .ok ⟨true, none, some outcome, text "no rule matched — applied the default outcome"⟩
    | none => .ok ⟨false, none, none, text "no rule matched and no default outcome configured"⟩

/-! ## Validation -/

/-- `{s!r}`. -/
def quoted (s : String) : Text := Py.reprText py.toUnicode s.toList

/-- `_check_outcome`. -/
def checkOutcome (validCodes : Option (List String)) (o : Outcome) (place : Text) :
    Except Text Unit :=
  if o.severity ∉ severities then
    .error (place ++ text ": severity " ++ quoted py o.severity ++
      text " not in ('low', 'medium', 'high', 'critical')")
  else match validCodes with
    | some codes =>
      if o.dispositionCode ∈ codes then .ok ()
      else .error (place ++ text ": disposition_code " ++ quoted py o.dispositionCode ++
        text " not in the workspace catalog")
    | none => .ok ()

/-- The value has the shape its operator needs. -/
def checkValue (place : Text) (c : Condition) : Except Text Unit :=
  match c.op, c.value with
  | "between", .arr [_, _] => .ok ()
  | "between", _ => .error (place ++ text ": 'between' needs a [low, high] value")
  | "in", .arr _ => .ok ()
  | "not_in", .arr _ => .ok ()
  | "in", _ => .error (place ++ text ": 'in' needs a list value")
  | "not_in", _ => .error (place ++ text ": 'not_in' needs a list value")
  | "matches", v =>
    match py.compile (Py.str py.toUnicode v) with
    | .ok _ => .ok ()
    | .error exc => .error (place ++ text ": invalid regex " ++ Py.repr py.toUnicode v ++
        text " (" ++ exc ++ text ")")
  | _, _ => .ok ()

/-- The column is one of the schema. -/
def checkColumn (schemaColumns : Option (List String)) (place : Text) (c : Condition) :
    Except Text Unit :=
  match schemaColumns with
  | some columns =>
    if c.column ∈ columns then .ok ()
    else .error (place ++ text ": column " ++ quoted py c.column ++
      text " not in the dataset schema")
  | none => .ok ()

/-- The checks of one condition. -/
def checkCondition (schemaColumns : Option (List String)) (place : Text) (c : Condition) :
    Except Text Unit :=
  if c.op ∉ operators then .error (place ++ text ": unknown operator " ++ quoted py c.op)
  else do
    checkValue py place c
    checkColumn py schemaColumns place c

/-- `rule #i`. -/
def place (i : Nat) : Text := text "rule #" ++ Py.ascii (itoa i)

/-- The checks of rule `i`. -/
def checkRule (validCodes schemaColumns : Option (List String)) (i : Nat) (rule : Rule) :
    Except Text Unit :=
  if rule.when.isEmpty then .error (place i ++ text ": at least one condition is required")
  else do
    rule.when.forM (checkCondition py schemaColumns (place i))
    checkOutcome py validCodes rule.outcome (place i)

/-- `validate_model`; the error is the text of `DecisionModelInvalid`. -/
def validateModel (name : String) (rules : List Rule) (defaultOutcome : Option Outcome)
    (validCodes schemaColumns : Option (List String)) : Except Text Unit :=
  if (strip Py.isSpace name.toList).isEmpty then .error (text "name is required")
  else if rules.isEmpty then .error (text "at least one rule is required")
  else do
    rules.zipIdx.forM fun (rule, i) => checkRule py validCodes schemaColumns i rule
    match defaultOutcome with
    | some o => checkOutcome py validCodes o (text "default_outcome")
    | none => .ok ()

/-! ## Signs -/

theorem signOf_swap (gt lt : Bool) : signOf lt gt = -signOf gt lt := by
  unfold signOf
  omega

section Order

variable {α : Type} [LinearOrder α]

/-- The sign of a comparison in a linear order. -/
def orderSign (x y : α) : Int := signOf (decide (y < x)) (decide (x < y))

theorem orderSign_nonpos_iff {x y : α} : orderSign x y ≤ 0 ↔ x ≤ y := by
  unfold orderSign signOf
  rcases lt_trichotomy x y with h | h | h
  · simp [h, h.le, not_lt.mpr h.le]
  · simp [h]
  · simp [h, not_lt.mpr h.le]

theorem orderSign_nonneg_iff {x y : α} : 0 ≤ orderSign x y ↔ y ≤ x := by
  rw [← orderSign_nonpos_iff (x := y), orderSign, orderSign, signOf_swap (decide (x < y))]
  omega

theorem orderSign_neg_iff {x y : α} : orderSign x y < 0 ↔ x < y := by
  rw [← not_le, orderSign_nonneg_iff, not_le]

end Order

variable {py : Python}

theorem numberCmp_eq {x y : Float64} (hx : x ≠ .nan) (hy : y ≠ .nan) :
    numberCmp x y = orderSign x.rank y.rank := by
  unfold numberCmp orderSign
  rw [Bool.eq_iff_iff.mpr ((Float64.lt_iff_rank_lt hy hx).trans decide_eq_true_iff.symm),
    Bool.eq_iff_iff.mpr ((Float64.lt_iff_rank_lt hx hy).trans decide_eq_true_iff.symm)]

theorem textCmp_eq (a b : PyValue) : textCmp py a b = orderSign (folded py a) (folded py b) := by
  unfold textCmp orderSign
  congr

theorem cmp_swap (a b : PyValue) : cmp py b a = (cmp py a b).map (-·) := by
  unfold cmp
  cases ha : num py a with
  | error e =>
    cases hb : num py b with
    | error e' =>
      cases e
      cases e'
      rfl
    | ok y => rfl
  | ok x =>
    cases hb : num py b with
    | error e => rfl
    | ok y =>
      match x, y with
      | some x, some y => exact congrArg Except.ok (signOf_swap _ _)
      | some x, none => exact congrArg Except.ok (signOf_swap _ _)
      | none, some y => exact congrArg Except.ok (signOf_swap _ _)
      | none, none => exact congrArg Except.ok (signOf_swap _ _)

variable {a b : PyValue}

theorem cmp_of_num {x y : Float64} (ha : num py a = .ok (some x))
    (hb : num py b = .ok (some y)) : cmp py a b = .ok (numberCmp x y) := by
  unfold cmp
  rw [ha, hb]
  rfl

theorem cmp_of_text {i j : Option Float64} (ha : num py a = .ok i)
    (hb : num py b = .ok j) (hnone : i = none ∨ j = none) : cmp py a b = .ok (textCmp py a b) := by
  unfold cmp
  rw [ha, hb]
  match i, j with
  | some x, some y => simp at hnone
  | some x, none => rfl
  | none, some y => rfl
  | none, none => rfl

/-! ## Coherent values -/

/-- The value looks like a number that is not NaN. -/
def isNumber (py : Python) (v : PyValue) : Bool :=
  match num py v with
  | .ok (some .nan) => false
  | .ok (some _) => true
  | _ => false

/-- If both values look like numbers, these are ordered as the texts are. -/
def agrees (py : Python) (v w : PyValue) : Bool :=
  match num py v, num py w with
  | .ok (some x), .ok (some y) => numberCmp x y = textCmp py v w
  | .ok _, .ok _ => true
  | _, _ => false

/-- All look like numbers, or those that do are ordered as their texts are. -/
def Coherent (py : Python) (vs : List PyValue) : Prop :=
  (∀ v ∈ vs, isNumber py v = true) ∨ ∀ v ∈ vs, ∀ w ∈ vs, agrees py v w = true

instance (py : Python) (vs : List PyValue) : Decidable (Coherent py vs) :=
  inferInstanceAs (Decidable (_ ∨ _))

variable {v : PyValue} {fields : Fields} {c : Condition} {rules : List Rule}
  {codes columns : Option (List String)} {rule : Rule}

theorem exists_of_isNumber (h : isNumber py v = true) :
    ∃ x, num py v = .ok (some x) ∧ x ≠ .nan := by
  unfold isNumber at h
  split at h
  · cases h
  · next x hnan hx => exact ⟨x, hx, hnan⟩
  · cases h

variable {w : PyValue}

theorem cmp_of_agrees (h : agrees py v w = true) : cmp py v w = .ok (textCmp py v w) := by
  unfold agrees at h
  split at h
  · next x y hx hy => rw [cmp_of_num hx hy, of_decide_eq_true h]
  · next i j hnot hi hj =>
    refine cmp_of_text hi hj ?_
    match i, j with
    | some x, some y => exact (hnot x y rfl rfl).elim
    | none, _ => exact .inl rfl
    | _, none => exact .inr rfl
  · cases h

/-- Where a number stands among the numbers. -/
def rankOf (py : Python) (v : PyValue) : WithBot (WithTop Int) :=
  match num py v with
  | .ok (some x) => x.rank
  | _ => ⊥

theorem Coherent.exists_key {vs : List PyValue} (h : Coherent py vs) :
    ∃ (α : Type) (_ : LinearOrder α) (key : PyValue → α),
      ∀ v ∈ vs, ∀ w ∈ vs, cmp py v w = .ok (orderSign (key v) (key w)) := by
  obtain hnumbers | hagrees := h
  · refine ⟨WithBot (WithTop Int), inferInstance, rankOf py, fun v hv w hw => ?_⟩
    obtain ⟨x, hx, hxnan⟩ := exists_of_isNumber (hnumbers v hv)
    obtain ⟨y, hy, hynan⟩ := exists_of_isNumber (hnumbers w hw)
    rw [cmp_of_num hx hy, numberCmp_eq hxnan hynan]
    simp only [rankOf, hx, hy]
  · refine ⟨Text, inferInstance, folded py, fun v hv w hw => ?_⟩
    rw [← textCmp_eq]
    exact cmp_of_agrees (hagrees v hv w hw)

/-- `left <= right` for `_cmp`. -/
def AtMost (py : Python) (left right : PyValue) : Prop := ∃ r, cmp py left right = .ok r ∧ r ≤ 0

theorem atMost_iff {α : Type} [LinearOrder α] {key : PyValue → α}
    (h : cmp py a b = .ok (orderSign (key a) (key b))) : AtMost py a b ↔ key a ≤ key b := by
  unfold AtMost
  rw [h, ← orderSign_nonpos_iff]
  exact ⟨fun ⟨r, hr, hle⟩ => Except.ok.inj hr ▸ hle, fun hle => ⟨_, rfl, hle⟩⟩

theorem AtMost.trans {a b c : PyValue} (h : Coherent py [a, b, c]) (hab : AtMost py a b)
    (hbc : AtMost py b c) : AtMost py a c := by
  obtain ⟨α, _, key, hkey⟩ := h.exists_key
  have ha : a ∈ [a, b, c] := by simp
  have hb : b ∈ [a, b, c] := by simp
  have hc : c ∈ [a, b, c] := by simp
  rw [atMost_iff (hkey a ha b hb)] at hab
  rw [atMost_iff (hkey b hb c hc)] at hbc
  rw [atMost_iff (hkey a ha c hc)]
  exact hab.trans hbc

/-! ## Conditions over an order -/

section Holds

variable {fields : Fields} {column : String} {v : PyValue}

theorem conditionHolds_sign (py : Python) (h : present fields column = some v) (w : PyValue) :
    conditionHolds py ⟨column, "eq", w⟩ fields = (cmp py v w).map (decide <| · = 0) ∧
      conditionHolds py ⟨column, "gt", w⟩ fields = (cmp py v w).map (decide <| 0 < ·) ∧
      conditionHolds py ⟨column, "gte", w⟩ fields = (cmp py v w).map (decide <| 0 ≤ ·) ∧
      conditionHolds py ⟨column, "lt", w⟩ fields = (cmp py v w).map (decide <| · < 0) ∧
      conditionHolds py ⟨column, "lte", w⟩ fields = (cmp py v w).map (decide <| · ≤ 0) := by
  simp [conditionHolds, compares, h]

theorem conditionHolds_gte (h : present fields column = some v) (w : PyValue) :
    conditionHolds py ⟨column, "gte", w⟩ fields = (cmp py v w).map (decide <| 0 ≤ ·) :=
  (conditionHolds_sign py h w).2.2.1

theorem conditionHolds_lt (h : present fields column = some v) (w : PyValue) :
    conditionHolds py ⟨column, "lt", w⟩ fields = (cmp py v w).map (decide <| · < 0) :=
  (conditionHolds_sign py h w).2.2.2.1

theorem conditionHolds_lte (h : present fields column = some v) (w : PyValue) :
    conditionHolds py ⟨column, "lte", w⟩ fields = (cmp py v w).map (decide <| · ≤ 0) :=
  (conditionHolds_sign py h w).2.2.2.2

/-- The operator among `lt`, `eq` and `gt` that a sign has. -/
def signOp (r : Int) : String := if r < 0 then "lt" else if r = 0 then "eq" else "gt"

theorem conditionHolds_iff_signOp (h : present fields column = some v) {r : Int}
    (hcmp : cmp py v w = .ok r) {op : String} (hop : op ∈ ["lt", "eq", "gt"]) :
    conditionHolds py ⟨column, op, w⟩ fields = .ok true ↔ op = signOp r := by
  obtain ⟨heq, hgt, -, hlt, -⟩ := conditionHolds_sign py h w
  rw [hcmp] at heq hgt hlt
  unfold signOp
  simp only [List.mem_cons, List.not_mem_nil, or_false] at hop
  obtain rfl | rfl | rfl := hop
  · rw [hlt]
    simp only [Except.map, Except.ok.injEq, decide_eq_true_eq]
    split_ifs <;> simp [*]
  · rw [heq]
    simp only [Except.map, Except.ok.injEq, decide_eq_true_eq]
    split_ifs <;> simp <;> omega
  · rw [hgt]
    simp only [Except.map, Except.ok.injEq, decide_eq_true_eq]
    split_ifs <;> simp <;> omega

theorem existsUnique_sign (h : present fields column = some v) {r : Int}
    (hcmp : cmp py v w = .ok r) :
    ∃! op, op ∈ ["lt", "eq", "gt"] ∧ conditionHolds py ⟨column, op, w⟩ fields = .ok true := by
  have hmem : signOp r ∈ ["lt", "eq", "gt"] := by
    unfold signOp
    split_ifs <;> simp
  exact ⟨signOp r, ⟨hmem, (conditionHolds_iff_signOp h hcmp hmem).mpr rfl⟩,
    fun op hop => (conditionHolds_iff_signOp h hcmp hop.1).mp hop.2⟩

end Holds

theorem fires_nil (fields : Fields) : fires py fields [] = .ok true := rfl

theorem fires_cons (fields : Fields) (c : Condition) (cs : List Condition) :
    fires py fields (c :: cs) =
      (conditionHolds py c fields).bind fun b => if b then fires py fields cs else .ok false := by
  unfold fires
  rw [List.allM]
  cases conditionHolds py c fields with
  | error e => rfl
  | ok b => cases b <;> rfl

theorem fires_one {b : Bool}
    (h : conditionHolds py c fields = .ok b) : fires py fields [c] = .ok b := by
  rw [fires_cons, h, fires_nil]
  cases b <;> rfl

theorem fires_two {c' : Condition} {b b' : Bool}
    (h : conditionHolds py c fields = .ok b) (h' : conditionHolds py c' fields = .ok b') :
    fires py fields [c, c'] = .ok (b && b') := by
  rw [fires_cons, h, fires_one h']
  cases b <;> rfl

/-- `between` is `gte` and `lte`, also where a comparison raises. -/
theorem conditionHolds_between (py : Python) (fields : Fields) (column : String) (lo hi : PyValue) :
    conditionHolds py ⟨column, "between", .arr [lo, hi]⟩ fields =
      fires py fields [⟨column, "gte", lo⟩, ⟨column, "lte", hi⟩] := by
  simp only [fires_cons, fires_nil]
  cases hleft : present fields column with
  | none => simp [conditionHolds, hleft, Except.bind]
  | some v =>
    rw [conditionHolds_gte hleft, conditionHolds_lte hleft]
    have hbetween : conditionHolds py ⟨column, "between", .arr [lo, hi]⟩ fields =
        (cmp py v lo).bind fun r =>
          if 0 ≤ r then (cmp py v hi).map (decide <| · ≤ 0) else .ok false := by
      simp [conditionHolds, compares, ends, hleft]
    rw [hbetween]
    cases cmp py v lo with
    | error e => rfl
    | ok r =>
      by_cases hr : 0 ≤ r
      · cases cmp py v hi with
        | error e => simp [Except.bind, Except.map, hr]
        | ok r' =>
          by_cases hr' : r' ≤ 0
          · simp [Except.bind, Except.map, hr, hr']
          · simp [Except.bind, Except.map, hr, hr']
      · simp [Except.bind, Except.map, hr]

/-! ## Validated tables -/

theorem checkRule_of_validateModel {name : String} {default : Option Outcome}
    (h : validateModel py name rules default codes columns = .ok ()) :
    ∀ rule ∈ rules, ∃ i, checkRule py codes columns i rule = .ok () := by
  unfold validateModel at h
  split at h
  · cases h
  · split at h
    · cases h
    · obtain ⟨_, hrules, -⟩ := bind_eq_ok.mp h
      intro rule hrule
      obtain ⟨i, hi⟩ := List.mem_iff_getElem?.mp hrule
      exact ⟨i, forM_ok hrules (rule, i) (List.mk_mem_zipIdx_iff_getElem?.mpr hi)⟩

variable {i : Nat}

theorem checkValue_of_checkRule
    (h : checkRule py codes columns i rule = .ok ()) (hc : c ∈ rule.when) :
    checkValue py (place i) c = .ok () := by
  unfold checkRule at h
  split at h
  · cases h
  · obtain ⟨_, hwhen, -⟩ := bind_eq_ok.mp h
    have hcheck := forM_ok hwhen c hc
    unfold checkCondition at hcheck
    split at hcheck
    · cases hcheck
    · obtain ⟨_, hvalue, -⟩ := bind_eq_ok.mp hcheck
      exact hvalue

theorem between_of_validateModel {name : String} {default : Option Outcome}
    (h : validateModel py name rules default codes columns = .ok ())
    (hrule : rule ∈ rules) (hc : c ∈ rule.when) (hop : c.op = "between") :
    ∃ lo hi, c.value = .arr [lo, hi] := by
  obtain ⟨i, hi⟩ := checkRule_of_validateModel h rule hrule
  have hvalue := checkValue_of_checkRule hi hc
  unfold checkValue at hvalue
  rw [hop] at hvalue
  match hshape : c.value with
  | .arr [lo, hi] => exact ⟨lo, hi, rfl⟩
  | .arr [] | .arr [_] | .arr (_ :: _ :: _ :: _) | .null | .bool _ | .num _ | .str _ | .obj _ =>
    rw [hshape] at hvalue
    cases hvalue

/-! ## Tables of ranges -/

/-- From `bound` on, one range up to each next bound and one without an end. -/
def ranges (column : String) : PyValue → List PyValue → List (List Condition)
  | bound, [] => [[⟨column, "gte", bound⟩]]
  | bound, next :: bounds =>
    [⟨column, "gte", bound⟩, ⟨column, "lt", next⟩] :: ranges column next bounds

/-- The conditions of a table of contiguous ranges. -/
def contiguous (column : String) (bound : PyValue) (bounds : List PyValue) :
    List (List Condition) :=
  [⟨column, "lt", bound⟩] :: ranges column bound bounds

section Ranges

variable {fields : Fields} {column : String} {v : PyValue} {α : Type} [LinearOrder α]
  {key : PyValue → α}

theorem length_ranges (column : String) (bound : PyValue) (bounds : List PyValue) :
    (ranges column bound bounds).length = bounds.length + 1 := by
  induction bounds generalizing bound with
  | nil => rfl
  | cons next bounds ih => rw [ranges, List.length_cons, ih next, List.length_cons]

theorem holds_gte_of_key (h : present fields column = some v)
    (hkey : cmp py v w = .ok (orderSign (key v) (key w))) :
    conditionHolds py ⟨column, "gte", w⟩ fields = .ok (decide (key w ≤ key v)) := by
  rw [conditionHolds_gte h, hkey]
  exact congrArg Except.ok (decide_eq_decide.mpr orderSign_nonneg_iff)

theorem holds_lt_of_key (h : present fields column = some v)
    (hkey : cmp py v w = .ok (orderSign (key v) (key w))) :
    conditionHolds py ⟨column, "lt", w⟩ fields = .ok (decide (key v < key w)) := by
  rw [conditionHolds_lt h, hkey]
  exact congrArg Except.ok (decide_eq_decide.mpr orderSign_neg_iff)

variable {bounds : List PyValue}

theorem countP_eq_zero_of_lt (hsorted : bounds.Pairwise (key · ≤ key ·))
    {first : PyValue} (hfirst : bounds.head? = some first) {x : α} :
    bounds.countP (fun w => decide (key w ≤ x)) = 0 ↔ x < key first := by
  obtain ⟨rest, rfl⟩ := List.head?_eq_some_iff.mp hfirst
  rw [List.countP_eq_zero]
  constructor
  · intro h
    simpa using h first (List.mem_cons_self ..)
  · rintro h w (_ | ⟨_, hw⟩)
    · simpa using h
    · have hle := List.rel_of_pairwise_cons hsorted hw
      simpa using h.trans_le hle

/-- The range that fires is the one behind as many bounds as the value reaches. -/
theorem fires_ranges (h : present fields column = some v) {bound : PyValue}
    (hsorted : (bound :: bounds).Pairwise (key · ≤ key ·))
    (hkey : ∀ w ∈ bound :: bounds, cmp py v w = .ok (orderSign (key v) (key w)))
    {when : List Condition} (hi : (ranges column bound bounds)[i]? = some when) :
    fires py fields when = .ok (decide (key bound ≤ key v ∧
      i = bounds.countP fun w => decide (key w ≤ key v))) := by
  have hbound := holds_gte_of_key h (hkey bound (List.mem_cons_self ..))
  induction bounds generalizing bound i with
  | nil =>
    match i with
    | 0 =>
      obtain rfl := Option.some.inj hi
      rw [fires_one hbound]
      simp
    | i + 1 => simp [ranges] at hi
  | cons next bounds ih =>
    have hnext := hkey next (List.mem_cons_of_mem _ (List.mem_cons_self ..))
    have hle : key bound ≤ key next := List.rel_of_pairwise_cons hsorted (List.mem_cons_self ..)
    have htail := hsorted.of_cons
    have hzero := countP_eq_zero_of_lt htail rfl (x := key v)
    match i with
    | 0 =>
      obtain rfl := Option.some.inj hi
      rw [fires_two hbound (holds_lt_of_key h hnext), ← Bool.decide_and]
      exact congrArg Except.ok (decide_eq_decide.mpr
        (and_congr_right' (hzero.symm.trans eq_comm)))
    | i + 1 =>
      rw [ih htail (fun w hw => hkey w (List.mem_cons_of_mem _ hw)) hi
        (holds_gte_of_key h hnext)]
      refine congrArg Except.ok (decide_eq_decide.mpr ?_)
      rw [List.countP_cons]
      constructor
      · rintro ⟨hn, rfl⟩
        exact ⟨hle.trans hn, by simp [hn]⟩
      · rintro ⟨-, heq⟩
        by_cases hn : key next ≤ key v
        · exact ⟨hn, by simpa [hn] using heq⟩
        · rw [← not_lt, not_not, ← hzero, List.countP_cons] at hn
          omega

theorem fires_contiguous (h : present fields column = some v) {bound : PyValue}
    (hsorted : (bound :: bounds).Pairwise (key · ≤ key ·))
    (hkey : ∀ w ∈ bound :: bounds, cmp py v w = .ok (orderSign (key v) (key w)))
    {when : List Condition} (hi : (contiguous column bound bounds)[i]? = some when) :
    fires py fields when = .ok (decide
      (i = (bound :: bounds).countP fun w => decide (key w ≤ key v))) := by
  have hzero := countP_eq_zero_of_lt hsorted rfl (x := key v)
  match i with
  | 0 =>
    obtain rfl := Option.some.inj hi
    rw [fires_one (holds_lt_of_key h (hkey bound (List.mem_cons_self ..)))]
    exact congrArg Except.ok (decide_eq_decide.mpr (hzero.symm.trans eq_comm))
  | i + 1 =>
    rw [fires_ranges h hsorted hkey hi]
    refine congrArg Except.ok (decide_eq_decide.mpr ?_)
    constructor
    · rintro ⟨hle, rfl⟩
      rw [List.countP_cons_of_pos (by simpa using hle)]
    · intro heq
      have hle : key bound ≤ key v := by
        rw [← not_lt, ← hzero]
        omega
      rw [List.countP_cons_of_pos (by simpa using hle)] at heq
      exact ⟨hle, by omega⟩

end Ranges

theorem length_contiguous (column : String) (bound : PyValue) (bounds : List PyValue) :
    (contiguous column bound bounds).length = (bound :: bounds).length + 1 := by
  rw [contiguous, List.length_cons, length_ranges, List.length_cons]

/-! ## The first rule that fires -/

theorem firstMatch_of_fires (hrule : rules[i]? = some rule)
    (hfires : ∀ j other, rules[j]? = some other →
      fires py fields other.when = .ok (decide (j = i))) (k : Nat) : firstMatch py fields k rules =
      .ok (some ⟨true, some (k + i), some rule.outcome, firedText py (k + i) rule⟩) := by
  induction rules generalizing i k with
  | nil => simp at hrule
  | cons first rest ih =>
    have hfirst := hfires 0 first rfl
    unfold firstMatch
    rw [hfirst]
    match i with
    | 0 =>
      obtain rfl := Option.some.inj hrule
      rfl
    | i + 1 =>
      have hrest := ih hrule (fun j other hj => by
        rw [hfires (j + 1) other hj, decide_eq_decide.mpr (Nat.succ_inj ..)]) (k + 1)
      rw [Nat.add_right_comm, Nat.add_assoc] at hrest
      exact hrest

/-! ## The order of the comparisons -/

theorem atMost_of_fires {column : String} {lo hi : PyValue} (hv : present fields column = some v)
    (h : fires py fields [⟨column, "gte", lo⟩, ⟨column, "lte", hi⟩] = .ok true) :
    AtMost py lo v ∧ AtMost py v hi := by
  rw [fires_cons, fires_cons, fires_nil, conditionHolds_gte hv, conditionHolds_lte hv] at h
  cases hlo : cmp py v lo with
  | error e =>
    rw [hlo] at h
    cases h
  | ok r =>
    rw [hlo] at h
    by_cases hr : 0 ≤ r
    · cases hhi : cmp py v hi with
      | error e =>
        rw [hhi] at h
        simp [Except.map, Except.bind, hr] at h
      | ok r' =>
        rw [hhi] at h
        have hr' : r' ≤ 0 := by
          by_contra hneg
          simp [Except.map, Except.bind, hr, hneg] at h
        refine ⟨⟨-r, ?_, by omega⟩, ⟨r', hhi, hr'⟩⟩
        rw [cmp_swap v lo, hlo]
        rfl
    · simp [Except.map, Except.bind, hr] at h

/-- A table of contiguous ranges covers each value by exactly one rule. -/
theorem evaluate_contiguous {column : String} {bound : PyValue}
    {bounds : List PyValue} (hrules : rules.map Rule.when = contiguous column bound bounds)
    (hsorted : (bound :: bounds).IsChain (AtMost py))
    (hv : present fields column = some v) (hcoherent : Coherent py (v :: bound :: bounds))
    (default : Option Outcome) : ∃ (i : Nat) (rule : Rule), rules[i]? = some rule ∧
      evaluate py ⟨rules, default⟩ fields =
        .ok ⟨true, some i, some rule.outcome, firedText py i rule⟩ ∧
      ∀ j other, rules[j]? = some other → fires py fields other.when = .ok (decide (j = i)) := by
  obtain ⟨α, _, key, hkey⟩ := hcoherent.exists_key
  have hpairwise : (bound :: bounds).Pairwise (key · ≤ key ·) := by
    rw [← List.isChain_iff_pairwise]
    refine hsorted.imp_of_mem_imp fun x y hx hy hle => ?_
    exact (atMost_iff (hkey x (List.mem_cons_of_mem _ hx) y (List.mem_cons_of_mem _ hy))).mp hle
  have hcmp : ∀ w ∈ bound :: bounds, cmp py v w = .ok (orderSign (key v) (key w)) :=
    fun w hw => hkey v (List.mem_cons_self ..) w (List.mem_cons_of_mem _ hw)
  have hfires : ∀ j other, rules[j]? = some other → fires py fields other.when =
      .ok (decide (j = (bound :: bounds).countP fun w => decide (key w ≤ key v))) := by
    intro j other hj
    refine fires_contiguous hv hpairwise hcmp ?_
    rw [← hrules, List.getElem?_map, hj]
    rfl
  have hlength : rules.length = (bound :: bounds).length + 1 := by
    rw [← length_contiguous column, ← hrules, List.length_map]
  obtain ⟨rule, hrule⟩ : ∃ rule, rules[(bound :: bounds).countP fun w =>
      decide (key w ≤ key v)]? = some rule := by
    refine ⟨_, List.getElem?_eq_getElem ?_⟩
    rw [hlength]
    exact Nat.lt_succ_of_le List.countP_le_length
  refine ⟨_, rule, hrule, ?_, hfires⟩
  unfold evaluate
  rw [firstMatch_of_fires hrule hfires 0, Nat.zero_add]
  rfl

/-- **Decision tables compare by an order.**  `_cmp` is antisymmetric, and transitive on
coherent values.  Of `lt`, `eq` and `gt` one holds of every pair that is compared.  In a
table that was accepted `between` is `gte` and `lte`, it holds of a value coherent with
its ends only if these are in order, and contiguous ranges cover such a value by exactly
one rule, which is the one that `evaluate` returns. -/
theorem comparisons_order (py : Python) : (∀ a b, cmp py b a = (cmp py a b).map (-·)) ∧
      (∀ a b c, Coherent py [a, b, c] → AtMost py a b → AtMost py b c → AtMost py a c) ∧
      (∀ (fields : Fields) column v w r, present fields column = some v →
        cmp py v w = .ok r → ∃! op, op ∈ ["lt", "eq", "gt"] ∧
          conditionHolds py ⟨column, op, w⟩ fields = .ok true) ∧
      ∀ name rules default codes columns,
        validateModel py name rules default codes columns = .ok () →
        (∀ rule ∈ rules, ∀ c ∈ rule.when, c.op = "between" →
          ∃ lo hi, c.value = .arr [lo, hi] ∧ ∀ fields : Fields,
            conditionHolds py c fields =
              fires py fields [⟨c.column, "gte", lo⟩, ⟨c.column, "lte", hi⟩] ∧
            ∀ v, present fields c.column = some v → Coherent py [lo, v, hi] →
              conditionHolds py c fields = .ok true → AtMost py lo hi) ∧
        ∀ column bound bounds, rules.map Rule.when = contiguous column bound bounds →
          (bound :: bounds).IsChain (AtMost py) →
          ∀ (fields : Fields) v, present fields column = some v →
            Coherent py (v :: bound :: bounds) →
            ∃ (i : Nat) (rule : Rule), rules[i]? = some rule ∧
              evaluate py ⟨rules, default⟩ fields =
                .ok ⟨true, some i, some rule.outcome, firedText py i rule⟩ ∧
              ∀ j other, rules[j]? = some other →
                fires py fields other.when = .ok (decide (j = i)) := by
  refine ⟨cmp_swap, fun a b c h hab hbc => hab.trans h hbc,
    fun fields column v w r hv hr => existsUnique_sign hv hr,
    fun name rules default codes columns hvalid => ⟨fun rule hrule c hc hop => ?_,
      fun column bound bounds hrules hsorted fields v hv hcoherent =>
        evaluate_contiguous hrules hsorted hv hcoherent default⟩⟩
  obtain ⟨lo, hi, hvalue⟩ := between_of_validateModel hvalid hrule hc hop
  refine ⟨lo, hi, hvalue, fun fields => ?_⟩
  obtain ⟨column, op, value⟩ := c
  obtain rfl : op = "between" := hop
  obtain rfl : value = .arr [lo, hi] := hvalue
  have hboth := conditionHolds_between py fields column lo hi
  refine ⟨hboth, fun v hv hcoherent hholds => ?_⟩
  obtain ⟨hlo, hhi⟩ := atMost_of_fires hv (hboth.symm.trans hholds)
  exact hlo.trans hcoherent hhi

/-- Python on texts of ASCII; a pattern is searched for as it stands. -/
def asciiPython : Python where
  lower := List.map Char.toLower
  decimal _ := none
  isPrintable _ := false
  compile _ := .ok ()
  search p s := isInfix (p.map Char.toLower) (s.map Char.toLower)

def sampleRule (when : List Condition) : Rule := ⟨when, ⟨"review", "low"⟩, ""⟩

/-- One range of "10" to "9", and three contiguous ones from "9" and "10" on. -/
def mixedRules : List Rule :=
  sampleRule [⟨"code", "between", .arr [.str "10", .str "9"]⟩] ::
    (contiguous "code" (.str "9") [.str "10"]).map sampleRule

/-- The text "1a" stands behind "10" and before "9": it is between two ends that are not in
order, and two of three contiguous ranges hold of it. -/
theorem comparisons_not_transitive :
    AtMost asciiPython (.str "10") (.str "1a") ∧ AtMost asciiPython (.str "1a") (.str "9") ∧
      ¬ AtMost asciiPython (.str "10") (.str "9") ∧
      validateModel asciiPython "codes" mixedRules none none none = .ok () ∧
      (mixedRules.map fun rule => fires asciiPython [("code", .str "1a")] rule.when) =
        [.ok true, .ok true, .ok false, .ok true] := by
  refine ⟨⟨-1, by decide +kernel, by decide⟩, ⟨-1, by decide +kernel, by decide⟩, ?_,
    by decide +kernel, by decide +kernel⟩
  rintro ⟨r, hr, hle⟩
  have hcmp : cmp asciiPython (.str "10") (.str "9") = .ok 1 := by decide +kernel
  cases hcmp.symm.trans hr
  omega

/-- Amounts from 9 to 10, and the contiguous ones around them. -/
def amountRules : List Rule := [sampleRule [⟨"amount", "between", .arr [.str "9", .str "10"]⟩]]

def amountRanges : List Rule := (contiguous "amount" (.str "9") [.num (.int 10)]).map sampleRule

theorem comparisons_order_sample :
    cmp asciiPython (.str "10") (.str "9") = (cmp asciiPython (.str "9") (.str "10")).map (-·) ∧
      AtMost asciiPython (.str "9") (.num (.int 11)) ∧
      (∃! op, op ∈ ["lt", "eq", "gt"] ∧
        conditionHolds asciiPython ⟨"amount", op, .str "9"⟩ [("amount", .str "9.50")] = .ok true) ∧
      AtMost asciiPython (.str "9") (.str "10") ∧
      ∃ (i : Nat) (rule : Rule), amountRanges[i]? = some rule ∧
        evaluate asciiPython ⟨amountRanges, none⟩ [("amount", .str "9.50")] =
          .ok ⟨true, some i, some rule.outcome, firedText asciiPython i rule⟩ ∧
        ∀ j other, amountRanges[j]? = some other →
          fires asciiPython [("amount", .str "9.50")] other.when = .ok (decide (j = i)) := by
  obtain ⟨hswap, htrans, hsign, hvalid⟩ := comparisons_order asciiPython
  have hamounts : validateModel asciiPython "amounts" amountRules none none none = .ok () := by
    decide +kernel
  have hranges : validateModel asciiPython "amounts" amountRanges none none none = .ok () := by
    decide +kernel
  obtain ⟨lo, hi, hvalue, hbetween⟩ := (hvalid _ _ _ _ _ hamounts).1 _ (List.mem_singleton_self _)
    ⟨"amount", "between", .arr [.str "9", .str "10"]⟩ (by simp [sampleRule]) rfl
  cases hvalue
  refine ⟨hswap _ _, htrans _ (.num (.int 10)) _ (by decide +kernel)
    ⟨-1, by decide +kernel, by decide⟩ ⟨-1, by decide +kernel, by decide⟩,
    hsign _ _ (.str "9.50") _ 1 rfl (by decide +kernel),
    (hbetween [("amount", .str "9.50")]).2 _ rfl (by decide +kernel) (by decide +kernel),
    (hvalid _ _ _ _ _ hranges).2 _ _ _ rfl (.cons_cons ⟨-1, by decide +kernel, by decide⟩
      (.singleton _)) _ _ rfl (by decide +kernel)⟩

end Windrose.Agents

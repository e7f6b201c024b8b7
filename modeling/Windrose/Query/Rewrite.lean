/-
  Query/Rewrite.lean --- safe substitution.

  Source: services/query-service/internal/sqlsafe/rewrite.go (Rewritten,
  Rewrite, RewriteBinds).

  `rewrite` follows the source: a loop over the tokens of `scan` with the text
  written so far, the ordered arguments, the expression already emitted for each
  name, and the offset up to which the text is copied.  A binding map is a
  partial function, and so is the map of resolved dataset identifiers.
-/
import Windrose.Query.Scan

set_option autoImplicit false

namespace Windrose.Query

open Windrose.Foundation

/-- `Rewritten`. -/
structure Rewritten (V : Type) where
  sql : Bytes
  args : List V
  paramNames : List Bytes
  deriving DecidableEq

/-- The local variables of the loop of `Rewrite`. -/
structure RewriteState (V : Type) where
  out : Bytes
  args : List V
  paramNames : List Bytes
  exprByName : Bytes → Option Bytes
  problems : List VariableProblem
  pos : Nat

/-- `sql[i:j]`. -/
def slice (sql : Bytes) (i j : Nat) : Bytes := (sql.drop i).take (j - i)

/-- The placeholder of the `n`-th argument. -/
def dollar (n : Nat) : Bytes := bytes "$" ++ itoa n

/-- The key of a dataset reference in the map of identifiers. -/
def refKey (name : Bytes) (version : Nat) : Bytes := name ++ bytes "@" ++ itoa version

section

variable {V : Type}

/-- `next`: append a value and return its placeholder. -/
def next (st : RewriteState V) (name : Bytes) (v : V) : RewriteState V × Bytes :=
  ({ st with args := st.args ++ [v], paramNames := st.paramNames ++ [name] },
    dollar (st.args.length + 1))

/-- `next` for every element of a list. -/
def nextAll (st : RewriteState V) (name : Bytes) : List V → RewriteState V × List Bytes
  | [] => (st, [])
  | v :: vs =>
    let (st, part) := next st name v
    let (st, parts) := nextAll st name vs
    (st, part :: parts)

/-- The expression of a name that is met for the first time. -/
def bindExpr (st : RewriteState V) (name : Bytes) (bv : BoundValue V) : RewriteState V × Bytes :=
  if bv.isList then
    if bv.list.isEmpty then (st, bytes "(NULL)")
    else
      let (st, parts) := nextAll st name bv.list
      (st, bytes "(" ++ (bytes ",").intercalate parts ++ bytes ")")
  else next st name bv.value

variable (sql : Bytes) (bindings : Bytes → Option (BoundValue V))
    (datasetIdents : Bytes → Option Bytes)

/-- The error of a reference that is not in the map. -/
def notResolved (t : Token) : Error :=
  eDatasetNotFound [.text (bytes "dataset "), .quoted t.name,
    .text (bytes " (version " ++ itoa t.version ++ bytes ") is not resolved")]

/-- One turn of the loop of `Rewrite`. -/
def rewriteStep (st : RewriteState V) (t : Token) : Except Error (RewriteState V) :=
  let st := { st with out := st.out ++ slice sql st.pos t.start, pos := t.stop }
  match t.kind with
  | .placeholder =>
    match st.exprByName t.name with
    | some expr => .ok (if expr = bytes "$0" then st else { st with out := st.out ++ expr })
    | none =>
      match bindings t.name with
      | none =>
        -- The text "$0" keeps the problem from being reported again.
        .ok { st with
          problems := st.problems ++ [⟨t.name, bytes "no value bound for placeholder"⟩]
          exprByName := Function.update st.exprByName t.name (some (bytes "$0")) }
      | some bv =>
        let (st, expr) := bindExpr st t.name bv
        .ok { st with
          exprByName := Function.update st.exprByName t.name (some expr)
          out := if expr = bytes "$0" then st.out else st.out ++ expr }
  | .datasetRef =>
    match datasetIdents (refKey t.name t.version) with
    | none => .error (notResolved t)
    | some ident => .ok { st with out := st.out ++ ident }
  | .positional => .ok st

/-- `Rewrite`. -/
def rewrite : Except Error (Rewritten V) := do
  let toks ← scan sql false
  let st ← toks.foldlM (rewriteStep sql bindings datasetIdents) ⟨[], [], [], fun _ => none, [], 0⟩
  if st.problems ≠ [] then .error (eVariableInvalid st.problems)
  else .ok ⟨st.out ++ sql.drop st.pos, st.args, st.paramNames⟩

/-- One turn of the loop of `RewriteBinds`: the text, the offset and the indices
seen. -/
def rewriteBindsStep (binds : List V) (st : Bytes × Nat × List Nat) (t : Token) :
    Except Error (Bytes × Nat × List Nat) :=
  let out := st.1 ++ slice sql st.2.1 t.start
  match t.kind with
  | .placeholder =>
    .error (eValidation (bytes "named :" ++ t.name ++
      bytes " placeholders cannot be combined with binds; use one parameter style"))
  | .positional =>
    if t.index > binds.length then
      .error (eValidationDetails (bytes "bind count mismatch")
        [(bytes "placeholder", dollar t.index), (bytes "binds", itoa binds.length)])
    else .ok (out ++ slice sql t.start t.stop, t.stop, t.index :: st.2.2)
  | .datasetRef =>
    match datasetIdents (refKey t.name t.version) with
    | none => .error (notResolved t)
    | some ident => .ok (out ++ ident, t.stop, st.2.2)

/-- `RewriteBinds`. -/
def rewriteBinds (binds : List V) : Except Error (Rewritten V) := do
  let toks ← scan sql true
  let (out, pos, seen) ← toks.foldlM (rewriteBindsStep sql datasetIdents binds) ([], 0, [])
  match (List.range' 1 binds.length).find? (fun i => !seen.contains i) with
  | some i =>
    .error (eValidationDetails (bytes "bind count mismatch")
      [(bytes "unreferenced_bind", dollar i), (bytes "binds", itoa binds.length)])
  | none => .ok ⟨out ++ sql.drop pos, binds, (List.range' 1 binds.length).map dollar⟩

end

/-! ## One turn of the loop -/

section Turn

variable {V : Type}

/-- The values behind a variable, in order. -/
def BoundValue.values (bv : BoundValue V) : List V := if bv.isList then bv.list else [bv.value]

/-- The expression of a variable at the given argument numbers. -/
def placeholderExpr (isList : Bool) (numbers : List Nat) : Bytes :=
  if isList then
    if numbers.isEmpty then bytes "(NULL)"
    else bytes "(" ++ (bytes ",").intercalate (numbers.map dollar) ++ bytes ")"
  else numbers.flatMap dollar

/-- The argument numbers of a variable whose block starts behind `base`. -/
def numbersAt (base : Nat) (bv : BoundValue V) : List Nat := List.range' (base + 1) bv.values.length

/-- Copy the gap before a token and write its replacement. -/
def RewriteState.write (st : RewriteState V) (sql : Bytes) (t : Token) (w : Bytes) :
    RewriteState V :=
  { st with out := st.out ++ slice sql st.pos t.start ++ w, pos := t.stop }

/-- Give a variable the next block of arguments. -/
def RewriteState.bind (st : RewriteState V) (name : Bytes) (bv : BoundValue V) : RewriteState V :=
  { st with
    args := st.args ++ bv.values
    paramNames := st.paramNames ++ bv.values.map fun _ => name
    exprByName := Function.update st.exprByName name
      (some (placeholderExpr bv.isList (numbersAt st.args.length bv))) }

theorem nextAll_eq (name : Bytes) (vs : List V) : ∀ st : RewriteState V, nextAll st name vs =
      ({ st with args := st.args ++ vs, paramNames := st.paramNames ++ vs.map fun _ => name },
        (List.range' (st.args.length + 1) vs.length).map dollar) := by
  induction vs with
  | nil => intro st; simp [nextAll]
  | cons v vs ih =>
    intro st
    simp only [nextAll, next, ih, List.length_append, List.length_nil, Nat.zero_add,
      List.append_assoc, List.singleton_append, List.map_cons, List.length_cons,
      List.range'_succ]

theorem bindExpr_eq (st : RewriteState V) (name : Bytes) (bv : BoundValue V) : bindExpr st name bv =
      ({ st with args := st.args ++ bv.values,
                 paramNames := st.paramNames ++ bv.values.map fun _ => name },
        placeholderExpr bv.isList (numbersAt st.args.length bv)) := by
  unfold bindExpr BoundValue.values numbersAt placeholderExpr BoundValue.values
  cases hlist : bv.isList with
  | true =>
    cases hvals : bv.list with
    | nil => simp
    | cons v vs => simp [nextAll_eq, List.range'_succ]
  | false => simp [next]

theorem dollar_ne_zero {n : Nat} (hn : n ≠ 0) : dollar n ≠ bytes "$0" := by
  intro h
  refine hn (itoa_injective ?_)
  have hzero : bytes "$0" = bytes "$" ++ itoa 0 := by decide
  rw [hzero, dollar] at h
  exact List.append_cancel_left h

theorem placeholderExpr_ne_zero (base : Nat) (bv : BoundValue V) :
    placeholderExpr bv.isList (numbersAt base bv) ≠ bytes "$0" := by
  unfold placeholderExpr numbersAt BoundValue.values
  cases bv.isList with
  | true =>
    simp only [if_true]
    split
    · decide
    · intro h
      have hhead := congrArg List.head? h
      have hparen : (bytes "(").head? = some 40 := rfl
      have hdollar : (bytes "$0").head? = some 36 := rfl
      rw [List.append_assoc, List.head?_append, hparen, hdollar] at hhead
      exact absurd hhead (by simp)
  | false => simpa using dollar_ne_zero (Nat.succ_ne_zero base)

variable {bindings : Bytes → Option (BoundValue V)} {datasetIdents : Bytes → Option Bytes}

/-- **What a turn does** when it reports no problem. -/
theorem rewriteStep_cases {sql : Bytes}
    {st st' : RewriteState V} {t : Token}
    (hexpr : ∀ n, st.exprByName n ≠ some (bytes "$0"))
    (h : rewriteStep sql bindings datasetIdents st t = .ok st') (hnone : st'.problems = []) :
    st.problems = [] ∧
    ((t.kind = .placeholder ∧ ∃ e, st.exprByName t.name = some e ∧ st' = st.write sql t e) ∨
     (t.kind = .placeholder ∧ st.exprByName t.name = none ∧ ∃ bv, bindings t.name = some bv ∧
       st' = (st.bind t.name bv).write sql t
         (placeholderExpr bv.isList (numbersAt st.args.length bv))) ∨
     (t.kind = .datasetRef ∧ ∃ ident, datasetIdents (refKey t.name t.version) = some ident ∧
       st' = st.write sql t ident) ∨
     (t.kind = .positional ∧ st' = st.write sql t [])) := by
  unfold rewriteStep at h
  cases hkind : t.kind with
  | placeholder =>
    simp only [hkind] at h
    cases hknown : st.exprByName t.name with
    | some e =>
      have hne : e ≠ bytes "$0" := fun he => hexpr t.name (by rw [hknown, he])
      simp only [hknown, if_neg hne] at h
      cases h
      exact ⟨hnone, .inl ⟨rfl, e, rfl, rfl⟩⟩
    | none =>
      simp only [hknown] at h
      cases hbound : bindings t.name with
      | none =>
        simp only [hbound] at h
        cases h
        exact absurd hnone (by simp)
      | some bv =>
        simp only [hbound, bindExpr_eq, if_neg (placeholderExpr_ne_zero _ bv)] at h
        cases h
        exact ⟨hnone, .inr (.inl ⟨rfl, rfl, bv, rfl, rfl⟩)⟩
  | datasetRef =>
    simp only [hkind] at h
    cases hident : datasetIdents (refKey t.name t.version) with
    | none => simp only [hident] at h; cases h
    | some ident =>
      simp only [hident] at h
      cases h
      exact ⟨hnone, .inr (.inr (.inl ⟨rfl, ident, rfl, rfl⟩))⟩
  | positional =>
    simp only [hkind] at h
    cases h
    refine ⟨hnone, .inr (.inr (.inr ⟨rfl, ?_⟩))⟩
    simp [RewriteState.write]

theorem rewriteStep_problems {sql : Bytes}
    {st st' : RewriteState V} {t : Token}
    (h : rewriteStep sql bindings datasetIdents st t = .ok st') (hnone : st'.problems = []) :
    st.problems = [] := by
  unfold rewriteStep at h
  dsimp only at h
  split at h
  · split at h
    · cases h
      split at hnone
      · exact hnone
      · exact hnone
    · split at h
      · cases h
        exact absurd hnone (by simp)
      · rw [bindExpr_eq] at h
        cases h
        exact hnone
  · split at h
    · cases h
    · cases h
      exact hnone
  · cases h
    exact hnone

theorem foldlM_problems {sql : Bytes}
    {st' : RewriteState V} (toks : List Token) :
    ∀ {st : RewriteState V}, toks.foldlM (rewriteStep sql bindings datasetIdents) st = .ok st' →
      st'.problems = [] → st.problems = [] := by
  induction toks with
  | nil =>
    intro st h hnone
    cases h
    exact hnone
  | cons t toks ih =>
    intro st h hnone
    rw [List.foldlM_cons] at h
    obtain ⟨st₁, h₁, h₂⟩ := bind_eq_ok.mp h
    exact rewriteStep_problems h₁ (ih h₂ hnone)

end Turn

/-! ## The invariant of the loop -/

section Loop

variable {V : Type} {sql : Bytes} {bindings : Bytes → Option (BoundValue V)}
  {datasetIdents : Bytes → Option Bytes}

/-- The names with an expression have blocks of argument slots, which start
behind `base`, hold their values, and cover all slots. -/
structure RewriteInv (bindings : Bytes → Option (BoundValue V)) (base : Bytes → Nat)
    (st : RewriteState V) : Prop where
  lengths : st.paramNames.length = st.args.length
  block : ∀ n e, st.exprByName n = some e → ∃ bv, bindings n = some bv ∧
    e = placeholderExpr bv.isList (numbersAt (base n) bv) ∧
    ∀ j v, bv.values[j]? = some v →
      st.args[base n + j]? = some v ∧ st.paramNames[base n + j]? = some n
  cover : ∀ k < st.args.length, ∃ n bv, st.exprByName n ≠ none ∧ bindings n = some bv ∧
    base n ≤ k ∧ k < base n + bv.values.length

namespace RewriteInv

variable {base : Bytes → Nat} {st st' : RewriteState V}

theorem exprByName_ne (h : RewriteInv bindings base st) (n : Bytes) :
    st.exprByName n ≠ some (bytes "$0") := by
  intro he
  obtain ⟨bv, -, he, -⟩ := h.block n _ he
  exact placeholderExpr_ne_zero _ bv he.symm

theorem write (h : RewriteInv bindings base st) (t : Token) (w : Bytes) :
    RewriteInv bindings base (st.write sql t w) :=
  ⟨h.lengths, h.block, h.cover⟩

theorem bind (h : RewriteInv bindings base st) {name : Bytes} {bv : BoundValue V}
    (hnew : st.exprByName name = none) (hbound : bindings name = some bv) :
    RewriteInv bindings (Function.update base name st.args.length) (st.bind name bv) := by
  refine ⟨?_, fun n e he => ?_, fun k hk => ?_⟩
  · show (st.paramNames ++ _).length = (st.args ++ _).length
    rw [List.length_append, List.length_append, List.length_map, h.lengths]
  · by_cases hn : n = name
    · subst hn
      refine ⟨bv, hbound, ?_, fun j v hv => ?_⟩
      · have hself : (st.bind n bv).exprByName n =
            some (placeholderExpr bv.isList (numbersAt st.args.length bv)) :=
          Function.update_self ..
        rw [hself] at he
        rw [Function.update_self]
        exact (Option.some.inj he).symm
      · rw [Function.update_self]
        constructor
        · show (st.args ++ bv.values)[st.args.length + j]? = some v
          rw [List.getElem?_append_right (Nat.le_add_right _ _), Nat.add_sub_cancel_left, hv]
        · show (st.paramNames ++ bv.values.map fun _ => n)[st.args.length + j]? = some n
          rw [← h.lengths, List.getElem?_append_right (Nat.le_add_right _ _),
            Nat.add_sub_cancel_left, List.getElem?_map, hv]
          rfl
    · have hold : st.exprByName n = some e := by
        rw [← he]
        exact (Function.update_of_ne hn _ _).symm
      obtain ⟨bv', hbv', hexpr, hslots⟩ := h.block n e hold
      refine ⟨bv', hbv', by rw [Function.update_of_ne hn]; exact hexpr, fun j v hv => ?_⟩
      rw [Function.update_of_ne hn]
      obtain ⟨harg, hname⟩ := hslots j v hv
      exact ⟨List.getElem?_append_left (List.getElem?_eq_some_iff.mp harg).1 ▸ harg,
        List.getElem?_append_left (List.getElem?_eq_some_iff.mp hname).1 ▸ hname⟩
  · have hlen : k < st.args.length + bv.values.length := by
      rw [← List.length_append]
      exact hk
    by_cases hold : k < st.args.length
    · obtain ⟨n, bv', hn, hbv', hle, hlt⟩ := h.cover k hold
      have hne : n ≠ name := fun heq => hn (heq ▸ hnew)
      refine ⟨n, bv', ?_, hbv', ?_, ?_⟩
      · show Function.update st.exprByName name _ n ≠ none
        rw [Function.update_of_ne hne]
        exact hn
      · rw [Function.update_of_ne hne]
        exact hle
      · rw [Function.update_of_ne hne]
        exact hlt
    · refine ⟨name, bv, ?_, hbound, ?_, ?_⟩
      · show Function.update st.exprByName name _ name ≠ none
        rw [Function.update_self]
        simp
      · rw [Function.update_self]
        omega
      · rw [Function.update_self]
        exact hlen

end RewriteInv

/-- **The step lemma**: the invariant is kept, the gap and a replacement are
written, and the replacement of a name is its expression. -/
theorem rewriteStep_inv {base : Bytes → Nat} {st st' : RewriteState V} {t : Token}
    (hinv : RewriteInv bindings base st)
    (h : rewriteStep sql bindings datasetIdents st t = .ok st') (hnone : st'.problems = []) :
    ∃ base' w, RewriteInv bindings base' st' ∧
      st'.out = st.out ++ slice sql st.pos t.start ++ w ∧ st'.pos = t.stop ∧
      (∀ n e, st.exprByName n = some e → st'.exprByName n = some e) ∧
      (∀ n, st'.exprByName n ≠ none ↔
        st.exprByName n ≠ none ∨ (t.kind = .placeholder ∧ n = t.name)) ∧
      (t.kind = .placeholder → st'.exprByName t.name = some w) ∧
      (t.kind = .datasetRef → datasetIdents (refKey t.name t.version) = some w) := by
  obtain ⟨-, hcases⟩ := rewriteStep_cases hinv.exprByName_ne h hnone
  rcases hcases with ⟨hkind, e, he, rfl⟩ | ⟨hkind, hnew, bv, hbv, rfl⟩ |
    ⟨hkind, ident, hident, rfl⟩ |
    ⟨hkind, rfl⟩
  · refine ⟨base, e, hinv.write t e, rfl, rfl, fun n e h => h, fun n => ?_, fun _ => he, ?_⟩
    · refine ⟨.inl, ?_⟩
      rintro (hn | ⟨-, rfl⟩)
      · exact hn
      · show st.exprByName t.name ≠ none
        rw [he]
        simp
    · rw [hkind]
      exact nofun
  · refine ⟨_, _, (hinv.bind hnew hbv).write t _, rfl, rfl, fun n e he => ?_, fun n => ?_,
      fun _ => Function.update_self .., ?_⟩
    · have hne : n ≠ t.name := by
        rintro rfl
        rw [hnew] at he
        exact absurd he (by simp)
      exact (Function.update_of_ne hne _ _).trans he
    · show Function.update st.exprByName t.name _ n ≠ none ↔ _
      by_cases hn : n = t.name
      · rw [hn, Function.update_self]
        simp [hkind]
      · rw [Function.update_of_ne hn]
        simp [hn]
    · rw [hkind]
      exact nofun
  · refine ⟨base, ident, hinv.write t ident, rfl, rfl, fun n e h => h, fun n => ?_, ?_,
      fun _ => hident⟩
    · show st.exprByName n ≠ none ↔ _
      simp [hkind]
    · rw [hkind]
      exact nofun
  · refine ⟨base, [], hinv.write t [], by simp [RewriteState.write], rfl, fun n e h => h,
      fun n => ?_, ?_, ?_⟩
    · show st.exprByName n ≠ none ↔ _
      simp [hkind]
    · rw [hkind]
      exact nofun
    · rw [hkind]
      exact nofun

/-- The names of the placeholders among the pieces. -/
def placeholderNames (ps : List (Finding × Bytes)) : List Bytes :=
  ps.filterMap fun p =>
    match p.1 with
    | .placeholder name => some name
    | _ => none

/-- What is written for a piece: the expression of a name, the identifier of a
dataset, and any other piece as it is. -/
def emit (expr : Bytes → Bytes) (datasetIdents : Bytes → Option Bytes) : Finding × Bytes → Bytes
  | (.placeholder name, _) => expr name
  | (.datasetRef name version, _) => (datasetIdents (refKey name version)).getD []
  | (_, w) => w

theorem slice_self (i : Nat) : slice sql i i = [] := by simp [slice]

theorem slice_append {pre w rest : Bytes} {i : Nat} (hi : i ≤ pre.length) :
    slice (pre ++ (w ++ rest)) i (pre.length + w.length) =
      slice (pre ++ (w ++ rest)) i pre.length ++ w := by
  have hlen : (pre.drop i).length = pre.length - i := List.length_drop
  have hfst : (pre.drop i).take (pre.length + w.length - i) = pre.drop i :=
    List.take_of_length_le (by omega)
  have hsnd : (w ++ rest).take (pre.length + w.length - i - (pre.length - i)) = w := by
    rw [show pre.length + w.length - i - (pre.length - i) = w.length by omega]
    exact List.take_left
  have htake : ∀ n, (pre.drop i ++ (w ++ rest)).take n =
      (pre.drop i).take n ++ (w ++ rest).take (n - (pre.length - i)) := by
    intro n
    rw [List.take_append, hlen]
  rw [slice, slice, List.drop_append_of_le_length hi, htake, htake, hfst, hsnd, Nat.sub_self,
    List.take_zero, List.append_nil, List.take_of_length_le (Nat.le_of_eq hlen)]

theorem rewriteLoop_inv {rest : Bytes} {ps : List (Finding × Bytes)}
    (hlex : (scanRule false).Lexes rest ps) :
    ∀ {pre : Bytes} {base : Bytes → Nat} {st st' : RewriteState V}, sql = pre ++ rest →
      st.pos ≤ pre.length → RewriteInv bindings base st →
      (tokensFrom pre.length ps).foldlM (rewriteStep sql bindings datasetIdents) st = .ok st' →
      st'.problems = [] →
      ∃ base', RewriteInv bindings base' st' ∧
        (∀ n e, st.exprByName n = some e → st'.exprByName n = some e) ∧
        (∀ n, st'.exprByName n ≠ none ↔ st.exprByName n ≠ none ∨ n ∈ placeholderNames ps) ∧
        (∀ p ∈ ps, ∀ name version, p.1 = .datasetRef name version →
          datasetIdents (refKey name version) ≠ none) ∧
        st'.out ++ sql.drop st'.pos = st.out ++ slice sql st.pos pre.length ++
          ps.flatMap (emit (fun n => (st'.exprByName n).getD []) datasetIdents) := by
  induction hlex with
  | nil =>
    intro pre base st st' hsql hpos hinv h hnone
    cases h
    refine ⟨base, hinv, fun n e h => h, fun n => by simp [placeholderNames], by simp, ?_⟩
    rw [List.append_nil] at hsql
    rw [List.flatMap_nil, List.append_nil, slice, hsql,
      List.take_of_length_le (by rw [List.length_drop])]
  | @cons rest f k ps hne hstep hrest ih =>
    intro pre base st st' hsql hpos hinv h hnone
    have hsplit : sql = (pre ++ rest.take k) ++ rest.drop k := by
      rw [List.append_assoc, List.take_append_drop, hsql]
    have hlen : (pre ++ rest.take k).length = pre.length + (rest.take k).length :=
      List.length_append
    have hpiece : slice sql st.pos (pre.length + (rest.take k).length) =
        slice sql st.pos pre.length ++ rest.take k := by
      rw [hsplit, List.append_assoc]
      exact slice_append hpos
    rw [tokensFrom, ← hlen] at h
    rw [← hlen] at hpiece
    -- A token is written with its gap; what follows starts behind it.
    have htoken : ∀ t : Token, f.token pre.length (pre ++ rest.take k).length = some t →
        t.start = pre.length → t.stop = (pre ++ rest.take k).length →
        ∃ base' w, RewriteInv bindings base' st' ∧
          (∀ n e, st.exprByName n = some e → st'.exprByName n = some e) ∧
          (∀ n, st'.exprByName n ≠ none ↔ st.exprByName n ≠ none ∨
            (t.kind = .placeholder ∧ n = t.name) ∨ n ∈ placeholderNames ps) ∧
          (∀ p ∈ ps, ∀ name version, p.1 = .datasetRef name version →
            datasetIdents (refKey name version) ≠ none) ∧
          (t.kind = .placeholder → st'.exprByName t.name = some w) ∧
          (t.kind = .datasetRef → datasetIdents (refKey t.name t.version) = some w) ∧
          st'.out ++ sql.drop st'.pos = st.out ++ slice sql st.pos pre.length ++
            (w ++ ps.flatMap (emit (fun n => (st'.exprByName n).getD []) datasetIdents)) := by
      intro t ht hstart hstop
      rw [ht, Option.toList_some, List.singleton_append, List.foldlM_cons] at h
      obtain ⟨st₁, h₁, h₂⟩ := bind_eq_ok.mp h
      obtain ⟨base₁, w, hinv₁, hout, hpos₁, hmono, hnames, hexpr, hident⟩ :=
        rewriteStep_inv hinv h₁ (foldlM_problems _ h₂ hnone)
      rw [hstop] at hpos₁
      obtain ⟨base', hinv', hmono', hnames', hidents, htext⟩ :=
        ih hsplit (Nat.le_of_eq hpos₁) hinv₁ h₂ hnone
      refine ⟨base', w, hinv', fun n e he => hmono' n e (hmono n e he), fun n => ?_, hidents,
        fun hk => hmono' _ _ (hexpr hk), hident, ?_⟩
      · rw [hnames', hnames, or_assoc]
      · rw [htext, hpos₁, slice_self, hout, hstart]
        simp only [List.append_assoc, List.nil_append]
    cases f with
    | skip =>
      obtain ⟨base', hinv', hmono, hnames, hidents, htext⟩ :=
        ih hsplit (by rw [hlen]; omega) hinv h hnone
      refine ⟨base', hinv', hmono, hnames, fun p hp => ?_, ?_⟩
      · rcases List.mem_cons.mp hp with rfl | hp
        · exact nofun
        · exact hidents p hp
      · rw [htext, hpiece, List.flatMap_cons]
        simp only [emit, List.append_assoc]
    | placeholder name =>
      obtain ⟨base', w, hinv', hmono, hnames, hidents, hexpr, -, htext⟩ := htoken _ rfl rfl rfl
      refine ⟨base', hinv', hmono, fun n => ?_, fun p hp => ?_, ?_⟩
      · rw [hnames]
        simp [placeholderNames]
      · rcases List.mem_cons.mp hp with rfl | hp
        · exact nofun
        · exact hidents p hp
      · rw [htext, List.flatMap_cons, emit, hexpr rfl]
        rfl
    | datasetRef name version =>
      obtain ⟨base', w, hinv', hmono, hnames, hidents, -, hident, htext⟩ := htoken _ rfl rfl rfl
      refine ⟨base', hinv', hmono, fun n => ?_, fun p hp => ?_, ?_⟩
      · rw [hnames]
        simp [placeholderNames]
      · rcases List.mem_cons.mp hp with rfl | hp
        · intro name' version' heq
          cases heq
          rw [show datasetIdents (refKey name version) = some w from hident rfl]
          simp
        · exact hidents p hp
      · rw [htext, List.flatMap_cons, emit,
          show datasetIdents (refKey name version) = some w from hident rfl]
        rfl
    | positional idx =>
      -- `Scan` does not emit positional tokens.
      obtain ⟨c, s, rfl⟩ := List.exists_cons_of_ne_nil hne
      rcases scanStep_cases hstep with ⟨hf, -⟩ | ⟨-, hf, -⟩ | ⟨_, _, _, -, -, -, hf, -⟩ |
        ⟨_, -, -, hallow, -⟩
      · cases hf
      · cases hf
      · cases hf
      · cases hallow

theorem lexeme_placeholder {allow : Bool} {s : Bytes} {ps : List (Finding × Bytes)}
    (hlex : (scanRule allow).Lexes s ps) :
    ∀ p ∈ ps, ∀ name, p.1 = .placeholder name → p.2 = bytes ":" ++ name := by
  induction hlex with
  | nil => exact nofun
  | @cons s f k ps hne hstep hrest ih =>
    intro p hp name hname
    rcases List.mem_cons.mp hp with rfl | hp
    · obtain ⟨c, s, rfl⟩ := List.exists_cons_of_ne_nil hne
      obtain rfl : f = .placeholder name := hname
      rcases scanStep_cases hstep with ⟨hf, -⟩ | ⟨rfl, hf, -, rfl⟩ | ⟨_, _, _, -, -, -, hf, -⟩ |
        ⟨_, -, hf, -⟩
      · cases hf
      · obtain rfl : name = s.takeWhile isIdentChar := Finding.placeholder.inj hf
        rw [Nat.add_comm, List.take_succ_cons, ← List.prefix_iff_eq_take.mp
          (List.takeWhile_prefix isIdentChar)]
        rfl
      · cases hf
      · cases hf
    · exact ih p hp name hname

end Loop

/-! ## Two runs with other values -/

section Values

variable {V : Type} {sql : Bytes} {bindings bindings' : Bytes → Option (BoundValue V)}
  {datasetIdents : Bytes → Option Bytes}

/-- The same keys, list flags and list lengths. -/
def SameShape (bindings bindings' : Bytes → Option (BoundValue V)) : Prop :=
  ∀ n, (bindings n).map (fun bv => (bv.isList, bv.values.length)) =
    (bindings' n).map fun bv => (bv.isList, bv.values.length)

/-- Two states that differ at most in the argument values. -/
structure SameButValues (st st' : RewriteState V) : Prop where
  out : st.out = st'.out
  args : st.args.length = st'.args.length
  paramNames : st.paramNames = st'.paramNames
  exprByName : st.exprByName = st'.exprByName
  problems : st.problems = st'.problems
  pos : st.pos = st'.pos

theorem map_const_eq {A : Type} {l l' : List V} (h : l.length = l'.length) (a : A) :
    (l.map fun _ => a) = l'.map fun _ => a := by
  rw [List.map_const', List.map_const', h]

theorem rewriteStep_sameButValues (hshape : SameShape bindings bindings')
    {s₁ s₂ s₁' : RewriteState V}
    {t : Token} (hsame : SameButValues s₁ s₂)
    (h : rewriteStep sql bindings datasetIdents s₁ t = .ok s₁') :
    ∃ s₂', rewriteStep sql bindings' datasetIdents s₂ t = .ok s₂' ∧ SameButValues s₁' s₂' := by
  obtain ⟨out₁, args₁, names₁, expr, problems, pos⟩ := s₁
  obtain ⟨out₂, args₂, names₂, expr₂, problems₂, pos₂⟩ := s₂
  obtain ⟨rfl, hargs, rfl, rfl, rfl, rfl⟩ := hsame
  unfold rewriteStep at h ⊢
  cases hkind : t.kind with
  | placeholder =>
    simp only [hkind] at h ⊢
    cases hknown : expr t.name with
    | some e =>
      simp only [hknown] at h ⊢
      cases h
      refine ⟨_, rfl, ?_⟩
      split
      · exact ⟨rfl, hargs, rfl, rfl, rfl, rfl⟩
      · exact ⟨rfl, hargs, rfl, rfl, rfl, rfl⟩
    | none =>
      simp only [hknown] at h ⊢
      have hname := hshape t.name
      cases hbound : bindings t.name with
      | none =>
        rw [hbound, Option.map_none, eq_comm, Option.map_eq_none_iff] at hname
        simp only [hbound] at h
        cases h
        simp only [hname]
        exact ⟨_, rfl, rfl, hargs, rfl, rfl, rfl, rfl⟩
      | some bv =>
        rw [hbound, Option.map_some, eq_comm, Option.map_eq_some_iff] at hname
        obtain ⟨bv', hbound', heq⟩ := hname
        obtain ⟨hlist, hlen⟩ := Prod.mk.inj heq
        -- The expression depends on the flag, the length and the slot only.
        have hexpr : placeholderExpr bv'.isList (numbersAt args₂.length bv') =
            placeholderExpr bv.isList (numbersAt args₁.length bv) := by
          rw [numbersAt, numbersAt, hlist, hlen, hargs]
        simp only [hbound, bindExpr_eq] at h
        cases h
        simp only [hbound', bindExpr_eq]
        refine ⟨_, rfl, by rw [hexpr], ?_, ?_, by rw [hexpr], rfl, rfl⟩
        · show (args₁ ++ bv.values).length = (args₂ ++ bv'.values).length
          rw [List.length_append, List.length_append, hargs, hlen]
        · show names₁ ++ _ = names₁ ++ _
          rw [map_const_eq hlen t.name]
  | datasetRef =>
    simp only [hkind] at h ⊢
    cases hident : datasetIdents (refKey t.name t.version) with
    | none => simp only [hident] at h; cases h
    | some ident =>
      simp only [hident] at h ⊢
      cases h
      exact ⟨_, rfl, rfl, hargs, rfl, rfl, rfl, rfl⟩
  | positional =>
    simp only [hkind] at h ⊢
    cases h
    exact ⟨_, rfl, rfl, hargs, rfl, rfl, rfl, rfl⟩

theorem foldlM_sameButValues (hshape : SameShape bindings bindings') (toks : List Token) :
    ∀ {s₁ s₂ s₁' : RewriteState V}, SameButValues s₁ s₂ →
      toks.foldlM (rewriteStep sql bindings datasetIdents) s₁ = .ok s₁' →
      ∃ s₂', toks.foldlM (rewriteStep sql bindings' datasetIdents) s₂ = .ok s₂' ∧
        SameButValues s₁' s₂' := by
  induction toks with
  | nil =>
    intro s₁ s₂ s₁' hsame h
    cases h
    exact ⟨s₂, rfl, hsame⟩
  | cons t toks ih =>
    intro s₁ s₂ s₁' hsame h
    rw [List.foldlM_cons] at h
    obtain ⟨u₁, h₁, h₂⟩ := bind_eq_ok.mp h
    obtain ⟨u₂, hu₂, hsame'⟩ := rewriteStep_sameButValues hshape hsame h₁
    obtain ⟨s₂', hs₂', hsame''⟩ := ih hsame' h₂
    exact ⟨s₂', by rw [List.foldlM_cons]; exact bind_eq_ok.mpr ⟨u₂, hu₂, hs₂'⟩, hsame''⟩

end Values

/-! ## Safe substitution -/

section Safe

variable {V : Type}

/-- `r` is the text with the tokens replaced: `ps` are the pieces of the text as
scanned, `expr` the expression of each name and `numbers` the argument numbers
in it. -/
structure SafelySubstituted (sql : Bytes) (bindings : Bytes → Option (BoundValue V))
    (datasetIdents : Bytes → Option Bytes) (r : Rewritten V) (ps : List (Finding × Bytes))
    (expr : Bytes → Bytes) (numbers : Bytes → List Nat) : Prop where
  tokens : scan sql false = .ok (tokensFrom 0 ps)
  text : ps.flatMap Prod.snd = sql
  names : ∀ p ∈ ps, ∀ name, p.1 = .placeholder name → p.2 = bytes ":" ++ name
  resolved : ∀ p ∈ ps, ∀ name version, p.1 = .datasetRef name version →
    datasetIdents (refKey name version) ≠ none
  output : r.sql = ps.flatMap (emit expr datasetIdents)
  params : r.paramNames.length = r.args.length
  bound : ∀ n ∈ placeholderNames ps, ∃ bv, bindings n = some bv ∧
    expr n = placeholderExpr bv.isList (numbers n) ∧ (numbers n).length = bv.values.length ∧
    ∀ j k : Nat, (numbers n)[j]? = some k →
      0 < k ∧ r.args[k - 1]? = bv.values[j]? ∧ r.paramNames[k - 1]? = some n
  used : ∀ k, (∃ n ∈ placeholderNames ps, k ∈ numbers n) ↔ 1 ≤ k ∧ k ≤ r.args.length

theorem rewrite_ok_iff {sql : Bytes} {bindings : Bytes → Option (BoundValue V)}
    {datasetIdents : Bytes → Option Bytes} {r : Rewritten V} :
    rewrite sql bindings datasetIdents = .ok r ↔
      ∃ ps st, (scanRule false).Lexes sql ps ∧
        (tokensFrom 0 ps).foldlM (rewriteStep sql bindings datasetIdents)
          ⟨[], [], [], fun _ => none, [], 0⟩ = .ok st ∧
        st.problems = [] ∧ r = ⟨st.out ++ sql.drop st.pos, st.args, st.paramNames⟩ := by
  unfold rewrite
  rw [bind_eq_ok]
  constructor
  · rintro ⟨toks, hscan, h⟩
    obtain ⟨ps, hlex, rfl⟩ := scan_ok_iff.mp hscan
    obtain ⟨st, hloop, h⟩ := bind_eq_ok.mp h
    split at h
    · cases h
    · rename_i hnone
      cases h
      exact ⟨ps, st, hlex, hloop, not_not.mp hnone, rfl⟩
  · rintro ⟨ps, st, hlex, hloop, hnone, rfl⟩
    refine ⟨_, scan_ok_iff.mpr ⟨ps, hlex, rfl⟩, bind_eq_ok.mpr ⟨st, hloop, ?_⟩⟩
    rw [if_neg (not_not.mpr hnone)]

theorem numbersAt_getElem? {base j k : Nat} {bv : BoundValue V}
    (h : (numbersAt base bv)[j]? = some k) : k = base + 1 + j ∧ j < bv.values.length := by
  obtain ⟨hlt, heq⟩ := List.getElem?_eq_some_iff.mp h
  rw [numbersAt, List.length_range'] at hlt
  rw [← heq]
  exact ⟨by simp [numbersAt], hlt⟩

theorem mem_numbersAt {base k : Nat} {bv : BoundValue V} :
    k ∈ numbersAt base bv ↔ base < k ∧ k ≤ base + bv.values.length := by
  rw [numbersAt, List.mem_range'_1]
  omega

theorem rewrite_substituted {sql : Bytes} {bindings : Bytes → Option (BoundValue V)}
    {datasetIdents : Bytes → Option Bytes} {r : Rewritten V}
    (h : rewrite sql bindings datasetIdents = .ok r) :
    ∃ ps expr numbers, SafelySubstituted sql bindings datasetIdents r ps expr numbers := by
  obtain ⟨ps, st, hlex, hloop, hnone, rfl⟩ := rewrite_ok_iff.mp h
  have hinit : RewriteInv bindings (fun _ => 0)
      (⟨[], [], [], fun _ => none, [], 0⟩ : RewriteState V) :=
    ⟨rfl, nofun, fun k hk => absurd hk (Nat.not_lt_zero k)⟩
  obtain ⟨base, hinv, -, hnames, hidents, htext⟩ :=
    rewriteLoop_inv hlex (List.nil_append sql).symm (Nat.le_refl _) hinit hloop hnone
  refine ⟨ps, fun n => (st.exprByName n).getD [],
    fun n => match bindings n with
      | some bv => numbersAt (base n) bv
      | none => [],
    scan_ok_iff.mpr ⟨ps, hlex, rfl⟩, hlex.join, lexeme_placeholder hlex, hidents, ?_, hinv.lengths,
    fun n hn => ?_, fun k => ⟨?_, ?_⟩⟩
  · simpa [slice_self] using htext
  · obtain ⟨e, he⟩ := Option.ne_none_iff_exists'.mp ((hnames n).mpr (.inr hn))
    obtain ⟨bv, hbv, hexpr, hslots⟩ := hinv.block n e he
    refine ⟨bv, hbv, by simp only [he, hbv]; exact hexpr, ?_, fun j k hk => ?_⟩
    · simp only [hbv, numbersAt, List.length_range']
    · simp only [hbv] at hk
      obtain ⟨rfl, hj⟩ := numbersAt_getElem? hk
      obtain ⟨harg, hname⟩ := hslots j _ (List.getElem?_eq_getElem hj)
      rw [show base n + 1 + j - 1 = base n + j by omega, List.getElem?_eq_getElem hj]
      exact ⟨by omega, harg, hname⟩
  · rintro ⟨n, hn, hk⟩
    obtain ⟨e, he⟩ := Option.ne_none_iff_exists'.mp ((hnames n).mpr (.inr hn))
    obtain ⟨bv, hbv, -, hslots⟩ := hinv.block n e he
    simp only [hbv] at hk
    obtain ⟨hlt, hle⟩ := mem_numbersAt.mp hk
    have hj : k - 1 - base n < bv.values.length := by omega
    have harg := (List.getElem?_eq_some_iff.mp
      (hslots _ _ (List.getElem?_eq_getElem hj)).1).1
    exact ⟨by omega, show k ≤ st.args.length by omega⟩
  · rintro ⟨hpos, hle⟩
    have hle' : k ≤ st.args.length := hle
    obtain ⟨n, bv, hn, hbv, hlow, hhigh⟩ := hinv.cover (k - 1) (by omega)
    refine ⟨n, ((hnames n).mp hn).resolve_left (fun h => h rfl), ?_⟩
    simp only [hbv]
    exact mem_numbersAt.mpr (by omega)

/-- **Safe substitution.**  A rewrite that succeeds replaces exactly the tokens,
its arguments are the values of its variables slot by slot, and neither the text
nor the names depend on the values. -/
theorem rewrite_safe (sql : Bytes) (bindings : Bytes → Option (BoundValue V))
    (datasetIdents : Bytes → Option Bytes) (r : Rewritten V)
    (h : rewrite sql bindings datasetIdents = .ok r) :
    (∃ ps expr numbers, SafelySubstituted sql bindings datasetIdents r ps expr numbers) ∧
    ∀ bindings', SameShape bindings bindings' →
      ∃ r', rewrite sql bindings' datasetIdents = .ok r' ∧ r'.sql = r.sql ∧
        r'.paramNames = r.paramNames := by
  refine ⟨rewrite_substituted h, fun bindings' hshape => ?_⟩
  obtain ⟨ps, st, hlex, hloop, hnone, rfl⟩ := rewrite_ok_iff.mp h
  obtain ⟨st', hloop', hsame⟩ :=
    foldlM_sameButValues hshape _ ⟨rfl, rfl, rfl, rfl, rfl, rfl⟩ hloop
  refine ⟨_, rewrite_ok_iff.mpr ⟨ps, st', hlex, hloop', hsame.problems ▸ hnone, rfl⟩, ?_,
    hsame.paramNames.symm⟩
  rw [hsame.out, hsame.pos]

/-- The bindings of a scalar `x` and a list `l`. -/
def sampleBindings (x : Nat) (l : List Nat) : Bytes → Option (BoundValue Nat) := fun n =>
  if n = bytes "x" then some ⟨false, x, []⟩
  else if n = bytes "l" then some ⟨true, 0, l⟩
  else none

/-- A text with a repeated name, a list and a name inside a literal, with two
choices of values. -/
theorem rewrite_safe_sample :
    rewrite (bytes "a=:x AND b IN :l AND c<:x -- ':y'") (sampleBindings 7 [1, 2])
        (fun _ => none) =
      .ok ⟨bytes "a=$1 AND b IN ($2,$3) AND c<$1 -- ':y'", [7, 1, 2],
        [bytes "x", bytes "l", bytes "l"]⟩ ∧
    ∃ r', rewrite (bytes "a=:x AND b IN :l AND c<:x -- ':y'") (sampleBindings 8 [3, 4])
        (fun _ => none) = .ok r' ∧
      r'.sql = bytes "a=$1 AND b IN ($2,$3) AND c<$1 -- ':y'" ∧
      r'.paramNames = [bytes "x", bytes "l", bytes "l"] := by
  have h : rewrite (bytes "a=:x AND b IN :l AND c<:x -- ':y'") (sampleBindings 7 [1, 2])
      (fun _ => none) =
      .ok ⟨bytes "a=$1 AND b IN ($2,$3) AND c<$1 -- ':y'", [7, 1, 2],
        [bytes "x", bytes "l", bytes "l"]⟩ := by decide
  refine ⟨h, (rewrite_safe _ _ _ _ h).2 (sampleBindings 8 [3, 4]) fun n => ?_⟩
  unfold sampleBindings
  split
  · rfl
  · split
    · rfl
    · rfl

end Safe

end Windrose.Query

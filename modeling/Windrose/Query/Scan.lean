/-
  Query/Scan.lean --- the placeholder scanner.

  Source: services/query-service/internal/sqlsafe/scan.go (Token, scan, Scan,
  ScanBinds, parseDatasetRef, PlaceholderNames, DatasetRefs).

  The loop of `scan` is a rule of `Foundation.Lexer`: one turn looks at the rest
  of the text, and either skips some bytes or finds a token.  The offsets of a
  token are those of its lexeme in the text.
-/
import Windrose.Foundation.Lexer
import Windrose.Query.Domain

set_option autoImplicit false

namespace Windrose.Query

open Windrose.Foundation

/-! ## Characters -/

/-- `isIdentStart`. -/
def isIdentStart (c : UInt8) : Bool := c == 95 || (97 ≤ c && c ≤ 122) || (65 ≤ c && c ≤ 90)

/-- `isIdentChar`. -/
def isIdentChar (c : UInt8) : Bool := isIdentStart c || isDigit c

/-- What `skipWS` skips: space, tab, newline, carriage return. -/
def isWS (c : UInt8) : Bool := c == 32 || c == 9 || c == 10 || c == 13

/-- `strconv.Atoi` on a text of digits: it fails on the empty text and above the
largest 64-bit integer. -/
def atoi (ds : Bytes) : Option Nat :=
  if ds ≠ [] ∧ ds.all isDigit ∧ decVal ds < 2 ^ 63 then some (decVal ds) else none

/-- `strings.Index`: the offset of the first occurrence. -/
def index (pat : Bytes) : Bytes → Option Nat
  | [] => if pat.isPrefixOf [] then some 0 else none
  | c :: s => if pat.isPrefixOf (c :: s) then some 0 else (index pat s).map (· + 1)

/-! ## Regions that hold no token

Each function takes the text behind the opening delimiter and counts the bytes
up to and including the closing one, or to the end. -/

/-- A literal or quoted identifier; a doubled quote is an escape. -/
def skipQuoted (q : UInt8) : Bytes → Nat
  | [] => 0
  | [_] => 1
  | c :: c' :: s =>
    if c = q then (if c' = q then 2 + skipQuoted q s else 1) else 1 + skipQuoted q (c' :: s)

/-- A block comment at the given depth; comments nest. -/
def skipBlock : Nat → Bytes → Nat
  | 0, _ => 0
  | _ + 1, [] => 0
  | _ + 1, [_] => 1
  | d + 1, c :: c' :: s =>
    if c = 47 ∧ c' = 42 then 2 + skipBlock (d + 2) s
    else if c = 42 ∧ c' = 47 then 2 + skipBlock d s
    else 1 + skipBlock (d + 1) (c' :: s)

/-! ## One turn of the loop -/

/-- What a turn finds. -/
inductive Finding where
  | skip
  | placeholder (name : Bytes)
  | datasetRef (name : Bytes) (version : Nat)
  | positional (index : Nat)
  deriving DecidableEq

def skipWS (s : Bytes) : Bytes := s.dropWhile isWS

/-- The error of `parseDatasetRef`. -/
def badRef (msg : Bytes) : Error := eValidation (bytes "invalid dataset reference: " ++ msg)

/-- Read a fixed text. -/
def expect (lit msg s : Bytes) : Except Error Bytes :=
  if lit.isPrefixOf s then .ok (s.drop lit.length) else .error (badRef msg)

/-- The optional `, version=<n>` of a reference. -/
def parseVersion (s : Bytes) : Except Error (Nat × Bytes) :=
  if (bytes ",").isPrefixOf s then do
    let s ← expect (bytes "version") (bytes "expected version=<n>") (skipWS (s.drop 1))
    let s ← expect (bytes "=") (bytes "expected version=<n>") (skipWS s)
    let s := skipWS s
    match atoi (s.takeWhile isDigit) with
    | none => .error (badRef (bytes "version must be a positive integer"))
    | some v =>
      if v = 0 then .error (badRef (bytes "version must be a positive integer"))
      else .ok (v, skipWS (s.dropWhile isDigit))
  else .ok (0, s)

/-- `parseDatasetRef`, from behind the two opening braces: the name, the version
and the rest of the text. -/
def parseDatasetRef (s : Bytes) : Except Error (Bytes × Nat × Bytes) := do
  let s ← expect (bytes "dataset") (bytes "expected dataset('<name>')") (skipWS s)
  let s ← expect (bytes "(") (bytes "expected (") (skipWS s)
  let s ← expect [39] (bytes "expected quoted dataset name") (skipWS s)
  let name := s.takeWhile (· != 39)
  let s ← expect [39] (bytes "unterminated dataset name") (s.dropWhile (· != 39))
  let (version, s) ← parseVersion (skipWS s)
  let s ← expect (bytes ")") (bytes "expected )") s
  let s ← expect [125, 125] (bytes "expected \x7d\x7d") (skipWS s)
  if name = [] then .error (badRef (bytes "empty dataset name")) else .ok (name, version, s)

/-- The turn at a dollar sign, from behind it. -/
def scanDollar (allowPositional : Bool) (s : Bytes) : Except Error (Finding × Nat) :=
  let digits := s.takeWhile isDigit
  if digits ≠ [] then
    if !allowPositional then
      .error (eValidation
        (bytes "positional parameters ($n) are not allowed; declare typed variables and reference them as :name"))
    else
      match atoi digits with
      | none => .error (eValidation (bytes "invalid positional parameter $" ++ digits))
      | some idx =>
        if idx = 0 then .error (eValidation (bytes "invalid positional parameter $" ++ digits))
        else .ok (.positional idx, 1 + digits.length)
  else
    let tag := s.takeWhile isIdentChar
    match s.dropWhile isIdentChar with
    | c :: body =>
      if c = 36 then
        match index ([36] ++ tag ++ [36]) body with
        | none => .error (eValidation (bytes "unterminated dollar-quoted string"))
        | some k => .ok (.skip, 1 + tag.length + 1 + k + (tag.length + 2))
      else .ok (.skip, 1)
    | [] => .ok (.skip, 1)

/-- The turn at a single opening brace, from behind it: the legacy placeholder
is refused. -/
def scanLegacy (s : Bytes) : Except Error (Finding × Nat) :=
  let name := s.takeWhile isIdentChar
  if name ≠ [] ∧ (s.dropWhile isIdentChar).head? = some 125 then
    .error (eValidationDetails (bytes "legacy \x7bvar\x7d placeholder syntax is not supported")
      [(bytes "placeholder", [123] ++ name ++ [125]),
       (bytes "hint", bytes "declare a typed variable and reference it as :" ++ name)])
  else .ok (.skip, 1)

/-- One turn of the loop of `scan`. -/
def scanStep (allowPositional : Bool) : Bytes → Except Error (Finding × Nat)
  | [] => .ok (.skip, 1)
  | c :: s =>
    if c = 39 then .ok (.skip, 1 + skipQuoted 39 s)
    else if c = 34 then .ok (.skip, 1 + skipQuoted 34 s)
    else if c = 45 ∧ s.head? = some 45 then
      .ok (.skip, ((c :: s).takeWhile (· != 10)).length)
    else if c = 47 ∧ s.head? = some 42 then .ok (.skip, 2 + skipBlock 1 s.tail)
    else if c = 36 then scanDollar allowPositional s
    else if c = 63 then
      .error (eValidation
        (bytes "positional parameters (?) are not allowed; declare typed variables and reference them as :name"))
    else if c = 58 then
      match s with
      | [] => .ok (.skip, 1)
      | c' :: _ =>
        if c' = 58 then .ok (.skip, 2)
        else if isIdentStart c' then
          .ok (.placeholder (s.takeWhile isIdentChar), 1 + (s.takeWhile isIdentChar).length)
        else .ok (.skip, 1)
    else if c = 123 then
      if s.head? = some 123 then
        match parseDatasetRef s.tail with
        | .error e => .error e
        | .ok (name, version, rest) => .ok (.datasetRef name version, (c :: s).length - rest.length)
      else scanLegacy s
    else .ok (.skip, 1)

/-! ## Every turn takes at least one byte -/

theorem skipQuoted_le (q : UInt8) (s : Bytes) : skipQuoted q s ≤ s.length := by
  fun_induction skipQuoted q s with
  | case1 => exact Nat.zero_le _
  | case2 c => exact Nat.le_refl _
  | case3 s ih => simp only [List.length_cons]; omega
  | case4 c' s hc => simp only [List.length_cons]; omega
  | case5 c c' s hc ih => simp only [List.length_cons] at ih ⊢; omega

theorem skipBlock_le (d : Nat) (s : Bytes) : skipBlock d s ≤ s.length := by
  fun_induction skipBlock d s with
  | case1 s => exact Nat.zero_le _
  | case2 d => exact Nat.le_refl _
  | case3 d c => exact Nat.le_refl _
  | case4 d s ih => simp only [List.length_cons]; omega
  | case5 d s ih => simp only [List.length_cons]; omega
  | case6 d c c' s h h' ih => simp only [List.length_cons] at ih ⊢; omega

theorem length_takeWhile_le (p : UInt8 → Bool) (s : Bytes) : (s.takeWhile p).length ≤ s.length :=
  (List.takeWhile_prefix p).length_le

theorem index_le {pat : Bytes} : ∀ {s : Bytes} {k : Nat}, index pat s = some k →
    k + pat.length ≤ s.length := by
  intro s
  induction s with
  | nil =>
    intro k h
    unfold index at h
    split at h
    · rename_i hpre
      have := ( List.isPrefixOf_iff_prefix.mp hpre).length_le
      cases h
      simpa using this
    · cases h
  | cons c s ih =>
    intro k h
    unfold index at h
    split at h
    · rename_i hpre
      have := ( List.isPrefixOf_iff_prefix.mp hpre).length_le
      cases h
      simpa using this
    · obtain ⟨j, hj, rfl⟩ := Option.map_eq_some_iff.mp h
      have := ih hj
      rw [List.length_cons]
      omega

variable {s r : Bytes} {allow : Bool}

theorem expect_ok {lit msg : Bytes} (h : expect lit msg s = .ok r) : s = lit ++ r := by
  unfold expect at h
  split at h
  · rename_i hpre
    obtain ⟨t, rfl⟩ := List.isPrefixOf_iff_prefix.mp hpre
    cases h
    simp
  · cases h

theorem skipWS_suffix (s : Bytes) : skipWS s <:+ s := List.dropWhile_suffix _

theorem expect_suffix {lit msg : Bytes} (h : expect lit msg (skipWS s) = .ok r) : r <:+ s :=
  List.IsSuffix.trans ⟨lit, (expect_ok h).symm⟩ (skipWS_suffix s)

theorem parseVersion_suffix {v : Nat} (h : parseVersion s = .ok (v, r)) : r <:+ s := by
  unfold parseVersion at h
  split at h
  · obtain ⟨s₁, h₁, h⟩ := bind_eq_ok.mp h
    obtain ⟨s₂, h₂, h⟩ := bind_eq_ok.mp h
    have hs₂ : s₂ <:+ s :=
      ((expect_suffix h₂).trans (expect_suffix h₁)).trans (List.drop_suffix 1 s)
    dsimp only at h
    split at h
    · cases h
    · split at h
      · cases h
      · cases h
        exact (((skipWS_suffix _).trans (List.dropWhile_suffix _)).trans
          (skipWS_suffix _)).trans hs₂
  · cases h
    exact List.suffix_refl s

theorem parseDatasetRef_suffix {name : Bytes} {v : Nat}
    (h : parseDatasetRef s = .ok (name, v, r)) : r <:+ s := by
  unfold parseDatasetRef at h
  obtain ⟨s₁, h₁, h⟩ := bind_eq_ok.mp h
  obtain ⟨s₂, h₂, h⟩ := bind_eq_ok.mp h
  obtain ⟨s₃, h₃, h⟩ := bind_eq_ok.mp h
  obtain ⟨s₄, h₄, h⟩ := bind_eq_ok.mp h
  obtain ⟨⟨version, s₅⟩, h₅, h⟩ := bind_eq_ok.mp h
  obtain ⟨s₆, h₆, h⟩ := bind_eq_ok.mp h
  obtain ⟨s₇, h₇, h⟩ := bind_eq_ok.mp h
  have hs₃ : s₃ <:+ s := ((expect_suffix h₃).trans (expect_suffix h₂)).trans (expect_suffix h₁)
  have hs₄ : s₄ <:+ s₃ := List.IsSuffix.trans ⟨[39], (expect_ok h₄).symm⟩ (List.dropWhile_suffix _)
  have hs₅ : s₅ <:+ s₄ := (parseVersion_suffix h₅).trans (skipWS_suffix _)
  have hs₆ : s₆ <:+ s₅ := ⟨_, (expect_ok h₆).symm⟩
  split at h
  · cases h
  · cases h
    exact ((((expect_suffix h₇).trans hs₆).trans hs₅).trans hs₄).trans hs₃

variable {f : Finding} {k : Nat}

theorem scanDollar_cases (h : scanDollar allow s = .ok (f, k)) :
    (f = .skip ∧ 0 < k ∧ k ≤ s.length + 1) ∨
    (∃ idx, f = .positional idx ∧ allow = true ∧ atoi (s.takeWhile isDigit) = some idx ∧
      0 < idx ∧ k = 1 + (s.takeWhile isDigit).length) := by
  have hsplit : (s.takeWhile isIdentChar).length + (s.dropWhile isIdentChar).length = s.length := by
    rw [← List.length_append, List.takeWhile_append_dropWhile]
  unfold scanDollar at h
  dsimp only at h
  split at h
  · split at h
    · cases h
    · rename_i hallow
      split at h
      · cases h
      · rename_i idx hidx
        split at h
        · cases h
        · rename_i hpos
          cases h
          exact .inr ⟨idx, rfl, by simpa using hallow, hidx, Nat.pos_of_ne_zero hpos, rfl⟩
  · left
    split at h
    · rename_i c body hbody
      rw [hbody, List.length_cons] at hsplit
      split at h
      · split at h
        · cases h
        · rename_i j hj
          have := index_le hj
          simp only [List.length_append, List.length_singleton] at this
          cases h
          exact ⟨rfl, by omega, by omega⟩
      · cases h
        exact ⟨rfl, by omega, by omega⟩
    · cases h
      exact ⟨rfl, by omega, by omega⟩

/-- **What a turn can find**, with the bytes it takes. -/
theorem scanStep_cases {c : UInt8}
    (h : scanStep allow (c :: s) = .ok (f, k)) : (f = .skip ∧ 0 < k ∧ k ≤ (c :: s).length) ∨
    (c = 58 ∧ f = .placeholder (s.takeWhile isIdentChar) ∧ s.takeWhile isIdentChar ≠ [] ∧
      k = 1 + (s.takeWhile isIdentChar).length) ∨
    (∃ name version rest, c = 123 ∧ s.head? = some 123 ∧
      parseDatasetRef s.tail = .ok (name, version, rest) ∧ f = .datasetRef name version ∧
      k = (c :: s).length - rest.length) ∨
    (∃ idx, c = 36 ∧ f = .positional idx ∧ allow = true ∧ 0 < idx ∧
      atoi (s.takeWhile isDigit) = some idx ∧ k = 1 + (s.takeWhile isDigit).length) := by
  have hone : (Finding.skip = .skip ∧ 0 < 1 ∧ 1 ≤ (c :: s).length) := ⟨rfl, by simp, by simp⟩
  simp only [scanStep] at h
  split at h
  · cases h
    exact .inl ⟨rfl, by omega, by have := skipQuoted_le 39 s; rw [List.length_cons]; omega⟩
  split at h
  · cases h
    exact .inl ⟨rfl, by omega, by have := skipQuoted_le 34 s; rw [List.length_cons]; omega⟩
  split at h
  · rename_i hc
    cases h
    exact .inl ⟨rfl, by rw [hc.1]; simp, length_takeWhile_le _ _⟩
  split at h
  · rename_i hc
    have hblock := skipBlock_le 1 s.tail
    rw [List.length_tail] at hblock
    have hpos : 0 < s.length := List.length_pos_iff.mpr (fun hs => by simp [hs] at hc)
    cases h
    exact .inl ⟨rfl, by omega, by rw [List.length_cons]; omega⟩
  split at h
  · rename_i hc
    rcases scanDollar_cases h with hskip | ⟨idx, hf, hallow, hidx, hpos, hk⟩
    · exact .inl hskip
    · exact .inr (.inr (.inr ⟨idx, hc, hf, hallow, hpos, hidx, hk⟩))
  split at h
  · cases h
  split at h
  · rename_i hc
    cases s with
    | nil =>
      cases h
      exact .inl hone
    | cons c' s =>
      dsimp only at h
      split at h
      · cases h
        exact .inl ⟨rfl, by simp, by simp⟩
      split at h
      · rename_i hstart
        cases h
        refine .inr (.inl ⟨hc, rfl, ?_, rfl⟩)
        rw [List.takeWhile_cons, if_pos (by simp [isIdentChar, hstart])]
        exact List.cons_ne_nil _ _
      · cases h
        exact .inl hone
  split at h
  · rename_i hc
    split at h
    · rename_i hbrace
      split at h
      · cases h
      · rename_i name version rest hparse
        cases h
        exact .inr (.inr (.inl ⟨name, version, rest, hc, hbrace, hparse, rfl, rfl⟩))
    · unfold scanLegacy at h
      dsimp only at h
      split at h
      · cases h
      · cases h
        exact .inl hone
  · cases h
    exact .inl hone

theorem scanStep_progress (hne : s ≠ [])
    (h : scanStep allow s = .ok (f, k)) : 0 < k ∧ k ≤ s.length := by
  cases s with
  | nil => exact absurd rfl hne
  | cons c s =>
    rcases scanStep_cases h with ⟨-, hpos, hle⟩ | ⟨-, -, -, rfl⟩ |
      ⟨name, version, rest, -, hbrace, hparse, -, rfl⟩ | ⟨idx, -, -, -, -, -, rfl⟩
    · exact ⟨hpos, hle⟩
    · have := length_takeWhile_le isIdentChar s
      rw [List.length_cons]
      omega
    · have hrest := (parseDatasetRef_suffix hparse).length_le
      have hpos : 0 < s.length := List.length_pos_iff.mpr (fun hs => by simp [hs] at hbrace)
      rw [List.length_tail] at hrest
      rw [List.length_cons]
      omega
    · have := length_takeWhile_le isDigit s
      rw [List.length_cons]
      omega

/-- The rule of `scan`. -/
def scanRule (allowPositional : Bool) : Rule UInt8 Error Finding where
  step := scanStep allowPositional
  progress hne h := scanStep_progress hne h

/-! ## Tokens -/

/-- `tokenKind`. -/
inductive TokenKind where
  | placeholder
  | datasetRef
  | positional
  deriving DecidableEq

/-- `Token`: a finding with its byte offsets. -/
structure Token where
  kind : TokenKind
  start : Nat
  stop : Nat
  name : Bytes
  version : Nat
  index : Nat
  deriving DecidableEq

/-- The token of a finding between two offsets, if it is one. -/
def Finding.token (start stop : Nat) : Finding → Option Token
  | .skip => none
  | .placeholder name => some ⟨.placeholder, start, stop, name, 0, 0⟩
  | .datasetRef name version => some ⟨.datasetRef, start, stop, name, version, 0⟩
  | .positional index => some ⟨.positional, start, stop, [], 0, index⟩

/-- The tokens of the pieces behind an offset. -/
def tokensFrom (i : Nat) : List (Finding × Bytes) → List Token
  | [] => []
  | (f, w) :: ps => (f.token i (i + w.length)).toList ++ tokensFrom (i + w.length) ps

/-- `scan`. -/
def scan (sql : Bytes) (allowPositional : Bool) : Except Error (List Token) :=
  match (scanRule allowPositional).lex sql with
  | .error e => .error e
  | .ok ps => .ok (tokensFrom 0 ps)

theorem scan_ok_iff {sql : Bytes} {toks : List Token} :
    scan sql allow = .ok toks ↔ ∃ ps, (scanRule allow).Lexes sql ps ∧ toks = tokensFrom 0 ps := by
  unfold scan
  cases hlex : (scanRule allow).lex sql with
  | error e =>
    refine ⟨nofun, fun ⟨ps, hps, _⟩ => ?_⟩
    rw [Rule.lex_ok_iff.mpr hps] at hlex
    cases hlex
  | ok ps =>
    constructor
    · intro h
      cases h
      exact ⟨ps, Rule.lex_ok_iff.mp hlex, rfl⟩
    · rintro ⟨qs, hqs, rfl⟩
      rw [(Rule.lex_ok_iff.mp hlex).unique hqs]

/-- `DatasetRefs` and `DatasetRefsBinds`: the references in order of first
appearance. -/
def datasetRefs (sql : Bytes) (allowPositional : Bool) : Except Error (List DatasetRef) :=
  match scan sql allowPositional with
  | .error e => .error e
  | .ok toks =>
    .ok ((toks.filterMap fun t =>
      if t.kind = .datasetRef then some ⟨t.name, t.version⟩ else none).eraseDups)

example : (scan (bytes "a = :x AND b = ':y' -- :z") false).toOption =
    some [⟨.placeholder, 4, 6, bytes "x", 0, 0⟩] := by decide

end Windrose.Query

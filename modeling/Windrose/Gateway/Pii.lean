/-
  Gateway/Pii.lean --- the redaction of messages.

  Source: services/ai-gateway/app/adapters/guardrail_models.py (_PATTERNS, _luhn_ok,
  RegexPIIAnalyzer), domain/guardrails.py (_pii_pass) and config.py
  (DEFAULT_GUARDRAIL_POLICY).

  What `\d`, `\s`, `\w` and `re.I` make of a character is a table that comes with the
  interpreter; it is a parameter.  The list `out` of `_pii_pass` is a list of pieces here,
  each of which knows whether it was copied and from where.
-/
import Mathlib.Data.List.Sort
import Windrose.Foundation.Regex
import Windrose.Gateway.Chat

set_option autoImplicit false

namespace Windrose.Gateway

open Windrose.Foundation

/-! ## Characters -/

/-- What `re` knows about characters. -/
structure CharTable where
  /-- `\d`, with `int(c)` -/
  digit : Char → Option Nat
  /-- `\s` -/
  space : Char → Bool
  /-- `\w` -/
  word : Char → Bool
  /-- `re.I` takes one for the other -/
  alike : Char → Char → Bool

/-- The table as far as ASCII goes. -/
def asciiTable : CharTable where
  digit c := if c.isDigit then some (c.toNat - 48) else none
  space c := c ∈ [' ', '\t', '\n', '\r', Char.ofNat 11, Char.ofNat 12]
  word c := c.isAlphanum || c = '_'
  alike c d := c.toLower = d.toLower

/-! ## Patterns -/

section Patterns

variable (t : CharTable)

/-- One of the characters. -/
def oneOf (cs : String) : Regex Char := .one fun c => c ∈ cs.toList

/-- A sequence. -/
def inOrder (rs : List (Regex Char)) : Regex Char := rs.foldr .seq .empty

/-- The text, in any case. -/
def anyCase (s : String) : Regex Char := inOrder (s.toList.map fun d => .one (t.alike · d))

/-- One of the texts. -/
def oneText (of : String → Regex Char) : List String → Regex Char
  | [] => .one fun _ => false
  | [s] => of s
  | s :: ss => .alt (of s) (oneText of ss)

def exactly (s : String) : Regex Char := inOrder (s.toList.map fun d => .one (· = d))

/-- `\d` -/
def digitOf : Regex Char := .one fun c => (t.digit c).isSome

def optional (r : Regex Char) : Regex Char := .rep r 0 (some 1)

/-- `r+` -/
def several (r : Regex Char) : Regex Char := .rep r 1 none

/-- `r{n}` -/
def times (n : Nat) (r : Regex Char) : Regex Char := .rep r n (some 0)

/-- `_STREET_SUFFIXES` -/
def streetSuffixes : List String :=
  ["Street", "St", "Avenue", "Ave", "Boulevard", "Blvd", "Road", "Rd", "Lane", "Ln", "Drive",
    "Dr", "Court", "Ct", "Circle", "Cir", "Way", "Place", "Pl", "Terrace", "Ter", "Highway",
    "Hwy", "Parkway", "Pkwy", "Square", "Sq", "Trail", "Trl"]

def emailPattern : Regex Char :=
  inOrder
    [several (.one fun c => c.isAlphanum || c ∈ ['.', '_', '%', '+', '-']), exactly "@",
      several (.one fun c => c.isAlphanum || c ∈ ['.', '-']), exactly ".",
      .rep (.one Char.isAlpha) 2 none]

def phonePattern : Regex Char :=
  inOrder
    [.notBehind fun c => (t.digit c).isSome,
      optional (inOrder
        [optional (exactly "+"), .rep (digitOf t) 1 (some 2), optional (oneOf " .-")]),
      .alt (inOrder [exactly "(", times 3 (digitOf t), exactly ")"]) (times 3 (digitOf t)),
      optional (oneOf " .-"), times 3 (digitOf t), optional (oneOf " .-"), times 4 (digitOf t),
      .notAhead fun c => (t.digit c).isSome]

def creditCardPattern : Regex Char :=
  inOrder
    [.notBehind fun c => (t.digit c).isSome,
      .rep (inOrder [digitOf t, optional (oneOf " -")]) 13 (some 6),
      .notBehind fun c => c = ' ' || c = '-', .notAhead fun c => (t.digit c).isSome]

def ssnPattern : Regex Char :=
  inOrder
    [.notBehind fun c => (t.digit c).isSome, times 3 (digitOf t), exactly "-",
      times 2 (digitOf t), exactly "-", times 4 (digitOf t),
      .notAhead fun c => (t.digit c).isSome]

def ibanPattern : Regex Char :=
  inOrder
    [.boundary t.word, times 2 (.one Char.isUpper), times 2 (digitOf t),
      .rep (.one fun c => c.isUpper || c.isDigit) 11 (some 19), .boundary t.word]

/-- `re.I` also widens the class of letters. -/
def addressPattern : Regex Char :=
  let letterOrDigit := fun c => c.isDigit ||
    "ABCDEFGHIJKLMNOPQRSTUVWXYZabcdefghijklmnopqrstuvwxyz".toList.any (t.alike c)
  inOrder
    [.boundary t.word, .rep (digitOf t) 1 (some 5), several (.one t.space),
      .rep (inOrder [several (.one letterOrDigit), .one t.space]) 0 (some 4),
      oneText (anyCase t) streetSuffixes, optional (exactly "."), .boundary t.word]

def personPattern : Regex Char :=
  let name := inOrder
    [several (.one t.space), .one Char.isUpper,
      several (.one fun c => c.isAlpha || c = '\'' || c = '-')]
  inOrder
    [.boundary t.word, oneText exactly ["Mr", "Mrs", "Ms", "Miss", "Dr", "Prof", "Rev"],
      optional (exactly "."), name, .rep name 0 (some 2), .boundary t.word]

/-- `_PATTERNS`. -/
def patterns : List (String × Regex Char) :=
  [("EMAIL", emailPattern), ("PHONE", phonePattern t), ("CREDIT_CARD", creditCardPattern t),
    ("SSN", ssnPattern t), ("IBAN", ibanPattern t), ("ADDRESS", addressPattern t),
    ("PERSON", personPattern t)]

end Patterns

/-- `_luhn_ok`, of the digits' values. -/
def luhnOk (digits : List Nat) : Bool :=
  let r := digits.reverse.foldl
    (fun (s : Nat × Bool) d =>
      let doubled := if 9 < d * 2 then d * 2 - 9 else d * 2
      (s.1 + if s.2 then doubled else d, !s.2))
    (0, false)
  r.1 % 10 = 0

/-! ## The analyzer -/

/-- A span that a recognizer found. -/
structure PIIEntity where
  kind : String
  span : Span
  text : List Char
  deriving DecidableEq

/-- `content[start:stop]`. -/
def slice (content : List Char) (s : Span) : List Char := (content.take s.stop).drop s.start

section Analyzer

variable (t : CharTable)

/-- A match counts, unless it is for a card and no card number. -/
def counts (kind : String) (value : List Char) : Bool :=
  if kind = "CREDIT_CARD" then
    let digits := value.filter fun c => c ≠ ' ' ∧ c ≠ '-'
    13 ≤ digits.length && digits.length ≤ 19 && luhnOk (digits.map fun c => (t.digit c).getD 0)
  else true

/-- The matches of one kind. -/
def matchesOf (content : List Char) (kind : String) : List PIIEntity :=
  match (patterns t).lookup kind with
  | none => []
  | some pattern =>
    ((pattern.finditer 0 none content 0).map fun s => ⟨kind, s, slice content s⟩).filter
      fun e => counts t kind e.text

/-- `found`. -/
def findAll (content : List Char) (entities : List String) : List PIIEntity :=
  entities.flatMap (matchesOf t content)

/-- `e.start, -(e.end - e.start)`. -/
def sooner (a b : PIIEntity) : Prop :=
  a.span.start < b.span.start ∨
    a.span.start = b.span.start ∧ b.span.stop - b.span.start ≤ a.span.stop - a.span.start

instance : DecidableRel sooner := fun _ _ => inferInstanceAs (Decidable (_ ∨ _))

/-- The sweep of `analyze`, behind the end of the last entity. -/
def withoutOverlaps : Nat → List PIIEntity → List PIIEntity
  | _, [] => []
  | lastEnd, e :: found =>
    if lastEnd ≤ e.span.start then e :: withoutOverlaps e.span.stop found
    else withoutOverlaps lastEnd found

/-- `analyze`. -/
def analyze (content : List Char) (entities : List String) : List PIIEntity :=
  withoutOverlaps 0 ((findAll t content entities).insertionSort sooner)

end Analyzer

/-! ## `_pii_pass` -/

/-- The variables that are shared by all messages. -/
structure Redactor where
  counters : List (String × Nat) := []
  byValue : List (List Char × String) := []
  redactionMap : List (String × String) := []
  kinds : List String := []
  deriving DecidableEq

/-- `d[key] = value`. -/
def setItem {κ V : Type} [DecidableEq κ] : List (κ × V) → κ → V → List (κ × V)
  | [], key, value => [(key, value)]
  | (k, v) :: d, key, value => if k = key then (key, value) :: d else (k, v) :: setItem d key value

/-- `<PII:KIND:n>`. -/
def placeholderText (kind : String) (n : Nat) : String :=
  "<PII:" ++ kind ++ ":" ++ toString n ++ ">"

namespace Redactor

/-- The placeholder of an entity, a new one for a new text. -/
def placeholder (r : Redactor) (e : PIIEntity) : String × Redactor :=
  match r.byValue.lookup e.text with
  | some p => (p, r)
  | none =>
    let n := (r.counters.lookup e.kind).getD 0 + 1
    let p := placeholderText e.kind n
    (p,
      { r with
        counters := setItem r.counters e.kind n
        byValue := setItem r.byValue e.text p
        redactionMap := setItem r.redactionMap p (String.ofList e.text) })

end Redactor

/-- A part of what is redacted. -/
inductive Piece where
  /-- `content[start:stop]` -/
  | copied (s : Span)
  | placeholder (p : String)
  deriving DecidableEq

def Piece.text (content : List Char) : Piece → List Char
  | .copied s => slice content s
  | .placeholder p => p.toList

/-- The loop over the entities of a content, behind `pos`. -/
def redactEntities (length : Nat) : List PIIEntity → Nat → Redactor → List Piece × Redactor
  | [], pos, r => ([.copied ⟨pos, length⟩], r)
  | e :: found, pos, r =>
    if e.span.start < pos then redactEntities length found pos r
    else
      let put := r.placeholder e
      let more := redactEntities length found e.span.stop
        { put.2 with kinds := put.2.kinds ++ [e.kind] }
      (.copied ⟨pos, e.span.start⟩ :: .placeholder put.1 :: more.1, more.2)

/-- The entities as `_pii_pass` sorts them. -/
def sortedEntities (t : CharTable) (content : List Char) (entities : List String) :
    List PIIEntity :=
  (analyze t content entities).insertionSort fun a b => a.span.start ≤ b.span.start

/-- The text of the pieces. -/
def joined (content : List Char) (pieces : List Piece) : String :=
  String.ofList (pieces.flatMap (Piece.text content))

/-- A message; one without a text or without entities is left alone. -/
def redactMessage (t : CharTable) (entities : List String) (msg : Fields) (r : Redactor) :
    Fields × Redactor :=
  match msg.get "content" with
  | .str content =>
    if sortedEntities t content.toList entities = [] then (msg, r)
    else
      let redacted := redactEntities content.length
        (sortedEntities t content.toList entities) 0 r
      (setItem msg "content" (.str (joined content.toList redacted.1)), redacted.2)
  | _ => (msg, r)

def redactMessages (t : CharTable) (entities : List String) :
    List Fields → Redactor → List Fields × Redactor
  | [], r => ([], r)
  | msg :: messages, r =>
    let first := redactMessage t entities msg r
    let more := redactMessages t entities messages first.2
    (first.1 :: more.1, more.2)

/-- `DEFAULT_GUARDRAIL_POLICY["pii"]["entities"]`. -/
def defaultEntities : List String := ["EMAIL", "PHONE", "CREDIT_CARD", "SSN", "IBAN"]

/-- `cfg["pii"]`. -/
structure PiiConfig where
  mode : String := "redact"
  entities : List String := []
  deriving DecidableEq

/-- `pii_cfg.get("entities") or DEFAULT_GUARDRAIL_POLICY["pii"]["entities"]`. -/
def PiiConfig.kinds (cfg : PiiConfig) : List String :=
  if cfg.entities = [] then defaultEntities else cfg.entities

/-- `_pii_pass`: the messages, the redaction map and the kinds. -/
def piiPass (t : CharTable) (cfg : PiiConfig) (messages : List Fields) :
    List Fields × List (String × String) × List String :=
  if cfg.mode = "off" then (messages, [], [])
  else
    let r := redactMessages t cfg.kinds messages {}
    (r.1, r.2.redactionMap, r.2.kinds)

/-! ## Dictionaries -/

theorem setItem_setItem {κ V : Type} [DecidableEq κ] {d : List (κ × V)} {key : κ} {v w : V} :
    setItem (setItem d key v) key w = setItem d key w := by
  induction d with
  | nil => simp [setItem]
  | cons p d ih =>
    obtain ⟨k, u⟩ := p
    by_cases hk : k = key
    · simp [setItem, hk]
    · simp [setItem, hk, ih]

section Items

variable {κ V : Type} [BEq κ] [LawfulBEq κ] [DecidableEq κ]
variable {d : List (κ × V)} {key : κ} {v : V}

theorem lookup_setItem : (setItem d key v).lookup key = some v := by
  induction d with
  | nil => simp [setItem]
  | cons p d ih =>
    obtain ⟨k, u⟩ := p
    rw [setItem]
    split_ifs with hk
    · simp
    · rw [List.lookup_cons, beq_false_of_ne (Ne.symm hk)]
      exact ih

theorem setItem_self (h : d.lookup key = some v) : setItem d key v = d := by
  induction d with
  | nil => cases h
  | cons p d ih =>
    obtain ⟨k, u⟩ := p
    rw [setItem]
    split_ifs with hk
    · subst hk
      rw [List.lookup_cons, beq_self_eq_true] at h
      rw [Option.some.inj h]
    · rw [List.lookup_cons, beq_false_of_ne (Ne.symm hk)] at h
      rw [ih h]

theorem setItem_new (h : d.lookup key = none) : setItem d key v = d ++ [(key, v)] := by
  induction d with
  | nil => rfl
  | cons p d ih =>
    obtain ⟨k, u⟩ := p
    rw [List.lookup_cons] at h
    split at h
    · cases h
    · next hk =>
      rw [setItem, if_neg (Ne.symm (ne_of_beq_false hk)), ih h]
      rfl

end Items

end Windrose.Gateway

/-
  Query/Variables.lean --- declared variables and the values bound to them.

  Source: services/query-service/internal/domain/variables.go (VariableDecl, ValidateDecls,
  BindValues, coerce, asInt64, numericOf, jsonKind, canonicalJSON).

  A `RawMessage` is its text with the value that the text is of; numbers stand by their
  texts, as after `UseNumber`.  A message is a list of fragments.  `time.Parse` with the two
  layouts and `strconv.ParseFloat` on texts other than JSON numbers enter as any functions.
-/
import Windrose.Foundation.Time
import Windrose.Foundation.Holds
import Windrose.Foundation.Float64
import Windrose.Foundation.JsonTree

set_option autoImplicit false

namespace Windrose.Query.Variables

open Windrose.Foundation

/-! ## Declarations -/

/-- `VariableType`. -/
inductive VariableType where
  | string
  | integer
  | decimal
  | boolean
  | date
  | timestamp
  | stringList
  | integerList
  | other (name : String)
  deriving DecidableEq

/-- A value whose numbers are texts. -/
abbrev JsonText : Type := JsonTree String

/-- `json.RawMessage`: the value is none if the text is not JSON. -/
structure Raw where
  text : Bytes
  value : Option JsonText

/-- `VariableDecl`. -/
structure VariableDecl where
  name : String
  type : VariableType
  required : Option Bool
  default : Option Raw
  allowedValues : List Raw
  min : Option Double
  max : Option Double

/-- `IsRequired`. -/
def VariableDecl.isRequired (d : VariableDecl) : Bool := d.required.getD true

/-- A fragment of a message: a text, a text with `%q`, or a number with `%v`. -/
inductive Frag where
  | text (s : String)
  | quoted (s : String)
  | float (x : Double)
  deriving DecidableEq

/-- A text with numbers in it. -/
abbrev Message : Type := List Frag

/-- A problem of a variable. -/
structure VariableProblem where
  name : String
  problem : Message
  deriving DecidableEq

/-! ## Values -/

/-- A driver value. -/
inductive Scalar where
  | text (s : String)
  | int (n : Int)
  | bool (b : Bool)
  | time (t : Time)
  deriving DecidableEq

/-- `BoundValue`; `value` is none where Go has nil. -/
structure BoundValue where
  name : String
  type : VariableType
  isList : Bool
  value : Option Scalar
  list : List Scalar
  display : JsonTree Int

/-- What is called of the standard library on texts. -/
structure Parsers where
  parseFloat : String → Option Float64
  parseDate : String → Option Time
  parseTimestamp : String → Option Time

/-- `jsonKind`. -/
def jsonKind : JsonText → String
  | .str _ => "string"
  | .num _ => "number"
  | .bool _ => "boolean"
  | .arr _ => "array"
  | .obj _ => "object"
  | .null => "null"

def expected (what : String) (v : JsonText) : Message :=
  [.text ("expected " ++ what ++ ", got " ++ jsonKind v)]

/-- `strconv.ParseInt` to base 10 with 64 bits. -/
def parseInt64 (t : Bytes) : Option Int :=
  let neg := t.head? = some 45
  let digits := if neg ∨ t.head? = some 43 then t.tail else t
  if digits = [] ∨ ¬ digits.all isDigit then none
  else
    let n : Int := if neg then -(decVal digits : Int) else decVal digits
    if -2 ^ 63 ≤ n ∧ n < 2 ^ 63 then some n else none

/-- `asInt64`. -/
def asInt64 : JsonText → Except Message Int
  | .num t =>
    match parseInt64 (bytes t) with
    | some n => .ok n
    | none => .error [.text "expected integer, got ", .quoted t]
  | v => .error (expected "integer" v)

/-- `decimalRe`. -/
def isDecimal (t : Bytes) : Bool :=
  let t := if t.head? = some 45 then t.tail else t
  let whole := t.takeWhile isDigit
  let rest := t.dropWhile isDigit
  !whole.isEmpty &&
    (rest.isEmpty || rest.head? = some 46 && !rest.tail.isEmpty && rest.tail.all isDigit)

/-- `numericOf`. -/
def numericOf (p : Parsers) : Option Scalar → Option Float64
  | some (.int n) => (Double.ofInt n).map .finite
  | some (.text s) => p.parseFloat s
  | _ => none

/-! ## Canonical JSON -/

/-- The `float64` of a number: `strconv.ParseFloat` on a JSON number. -/
def readFloat (t : String) : Option Double :=
  parseFloat ((bytes t).map fun c => if c = 69 then 101 else c)

def floatNumber (x : Double) : Number := ⟨goFloat x, goFloat_ne_nil x, numberBytes_goFloat x⟩

def keyLE (s t : String) : Bool := !(t < s)

/-- `canonicalJSON`. -/
def canonicalJSON (raw : Raw) : Bytes :=
  match raw.value.bind (JsonTree.traverse readFloat) with
  | some v => ((v.sorted keyLE).toJson floatNumber).encode
  | none => raw.text

/-! ## Coercion -/

/-- One element of a list value. -/
def coerceElement (strings : Bool) (el : JsonText) : Except Message (Scalar × JsonTree Int) :=
  if strings then
    match el with
    | .str s => .ok (.text s, .str s)
    | v => .error (expected "string" v)
  else (asInt64 el).map fun n => (.int n, .num n)

/-- The elements from the `i`-th on. -/
def coerceElements (strings : Bool) :
    Nat → List JsonText → Except Message (List (Scalar × JsonTree Int))
  | _, [] => .ok []
  | i, el :: els =>
    match coerceElement strings el with
    | .error e => .error (.text ("element " ++ toString i ++ ": ") :: e)
    | .ok x => (coerceElements strings (i + 1) els).map (x :: ·)

section

variable (p : Parsers)

/-- The `switch` of `coerce`: the value by its type. -/
def coerceType (d : VariableDecl) (v : JsonText) : Except Message BoundValue :=
  let scalar (val : Scalar) (display : JsonTree Int) : Except Message BoundValue :=
    .ok ⟨d.name, d.type, false, some val, [], display⟩
  let list (strings : Bool) : Except Message BoundValue :=
    match v with
    | .arr els => (coerceElements strings 0 els).map fun xs =>
      ⟨d.name, d.type, true, none, xs.map Prod.fst, .arr (xs.map Prod.snd)⟩
    | v => .error (expected "array" v)
  match d.type with
  | .string =>
    match v with
    | .str s => scalar (.text s) (.str s)
    | v => .error (expected "string" v)
  | .integer => (asInt64 v).bind fun n => scalar (.int n) (.num n)
  | .decimal =>
    match v with
    | .num t => scalar (.text t) (.str t)
    | .str t =>
      if isDecimal (bytes t) then scalar (.text t) (.str t)
      else .error [.text "expected decimal, got non-numeric string"]
    | v => .error (expected "decimal number" v)
  | .boolean =>
    match v with
    | .bool b => scalar (.bool b) (.bool b)
    | v => .error (expected "boolean" v)
  | .date =>
    match v with
    | .str s =>
      match p.parseDate s with
      | some t =>
        if (bytes s).length = 10 then scalar (.time t) (.str s)
        else .error [.text "expected ISO-8601 date (YYYY-MM-DD), got ", .quoted s]
      | none => .error [.text "expected ISO-8601 date (YYYY-MM-DD), got ", .quoted s]
    | v => .error (expected "ISO-8601 date string" v)
  | .timestamp =>
    match v with
    | .str s =>
      match p.parseTimestamp s with
      | some t => scalar (.time t.utc) (.str s)
      | none => .error [.text "expected ISO-8601 timestamp, got ", .quoted s]
    | v => .error (expected "ISO-8601 timestamp string" v)
  | .stringList => list true
  | .integerList => list false
  | .other name => .error [.text "unknown type ", .quoted name]

/-- The check of `allowed_values`. -/
def checkAllowed (d : VariableDecl) (raw : Raw) (bv : BoundValue) : Except Message Unit :=
  if d.allowedValues ≠ [] ∧ ¬ bv.isList ∧
      ¬ d.allowedValues.any (fun av => canonicalJSON av = canonicalJSON raw) then
    .error [.text "value not in allowed_values"]
  else .ok ()

/-- The check of `min` and `max`. -/
def checkRange (d : VariableDecl) (bv : BoundValue) : Except Message Unit :=
  match numericOf p bv.value with
  | none => .ok ()
  | some n =>
    match d.min.filter fun m => n.lt (.finite m) with
    | some m => .error [.text "value below min ", .float m]
    | none =>
      match d.max.filter fun m => Float64.lt (.finite m) n with
      | some m => .error [.text "value above max ", .float m]
      | none => .ok ()

/-- `coerce`. -/
def coerce (d : VariableDecl) (raw : Raw) : Except Message BoundValue := do
  let v ← raw.value.elim (.error [.text "invalid JSON value"]) .ok
  let bv ← coerceType p d v
  checkAllowed d raw bv
  checkRange p d bv
  return bv

/-! ## Declarations and bindings -/

/-- `varNameRe`. -/
def isVarName (name : String) : Bool :=
  match bytes name with
  | [] => false
  | c :: cs =>
    let letter (c : UInt8) : Bool := 65 ≤ c && c ≤ 90 || 97 ≤ c && c ≤ 122 || c == 95
    letter c && cs.all fun c => letter c || isDigit c

/-- The type as its declaration has it. -/
def VariableType.text : VariableType → String
  | .string => "string"
  | .integer => "integer"
  | .decimal => "decimal"
  | .boolean => "boolean"
  | .date => "date"
  | .timestamp => "timestamp"
  | .stringList => "string_list"
  | .integerList => "integer_list"
  | .other name => name

/-- `knownVarTypes`. -/
def VariableType.known : VariableType → Bool
  | .other _ => false
  | _ => true

def problemOf (d : VariableDecl) (label : String) (raw : Raw) : List VariableProblem :=
  match coerce p d raw with
  | .error e => [⟨d.name, .text label :: e⟩]
  | .ok _ => []

/-- The problems of one declaration behind the names `seen`. -/
def declProblems (seen : List String) (d : VariableDecl) : List VariableProblem :=
  if !isVarName d.name then [⟨d.name, [.text "invalid variable name"]⟩]
  else if d.name ∈ seen then [⟨d.name, [.text "duplicate declaration"]⟩]
  else if !d.type.known then [⟨d.name, [.text ("unknown type " ++ d.type.text)]⟩]
  else
    (d.default.toList.flatMap fun raw => problemOf p d "default: " raw) ++
      d.allowedValues.flatMap fun av => problemOf p d "allowed_values: " av

/-- The loop of `ValidateDecls`. -/
def declsProblems : List String → List VariableDecl → List VariableProblem
  | _, [] => []
  | seen, d :: ds => declProblems p seen d ++ declsProblems (d.name :: seen) ds

/-- `ValidateDecls`; the error is `EVariableInvalid` of the problems. -/
def validateDecls (decls : List VariableDecl) : Except (List VariableProblem) Unit :=
  if declsProblems p [] decls ≠ [] then .error (declsProblems p [] decls) else .ok ()

/-- The value that a declaration takes: what is supplied, unless that is null, or its
default. -/
def supplied (d : VariableDecl) (values : Dict String Raw) : Option Raw :=
  match values.lookup d.name with
  | some raw => if raw.text = bytes "null" then d.default else some raw
  | none => d.default

/-- One turn of the loop of `BindValues`. -/
def bindStep (values : Dict String Raw) (st : List VariableProblem × Dict String BoundValue)
    (d : VariableDecl) : List VariableProblem × Dict String BoundValue :=
  match supplied d values with
  | none =>
    if d.isRequired then (st.1 ++ [⟨d.name, [.text "required variable missing"]⟩], st.2) else st
  | some raw =>
    match coerce p d raw with
    | .error e => (st.1 ++ [⟨d.name, e⟩], st.2)
    | .ok bv => (st.1, st.2.insert d.name bv)

/-- The supplied names that are not declared, in order. -/
def extras (decls : List VariableDecl) (values : Dict String Raw) : List String :=
  (values.keys.filter fun name => name ∉ decls.map (·.name)).insertionSort fun s t => keyLE s t

/-- `BindValues`; the error is `EVariableInvalid` of the problems. -/
def bindValues (decls : List VariableDecl) (values : Dict String Raw) :
    Except (List VariableProblem) (Dict String BoundValue) :=
  let notDeclared := (extras decls values).map fun name => ⟨name, [Frag.text "not declared"]⟩
  let st := decls.foldl (bindStep p values) (notDeclared, ∅)
  if st.1 ≠ [] then .error st.1 else .ok st.2

end

end Windrose.Query.Variables

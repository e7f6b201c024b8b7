/-
  ToolPlane/Schema.lean --- input schemas: the check of arguments and the resources they name.

  Source: services/tool-plane/internal/domain/schema.go (ValidateSchemaDoc, ValidateArgs,
  AffectedURNs, AffectedOboURNs) and urn.go (ToolURN, URNTenant, IsURN).

  Schemas and arguments are decoded JSON objects, with doubles for numbers.  Go visits a
  map in any order; here that is the order of the fields.
-/
import Windrose.Foundation.Time
import Windrose.ToolPlane.ArgsDigest

set_option autoImplicit false

namespace Windrose.ToolPlane

open Windrose.Foundation

/-! ## Decoded JSON -/

/-- `any`, as `encoding/json` fills it. -/
abbrev Value : Type := JsonTree Double

/-- `map[string]any`. -/
abbrev Object : Type := List (String × Value)

def asObject : Value → Option Object
  | .obj fs => some fs
  | _ => none

def asArray : Value → Option (List Value)
  | .arr vs => some vs
  | _ => none

def asString : Value → Option String
  | .str s => some s
  | _ => none

def asBool : Value → Option Bool
  | .bool b => some b
  | _ => none

/-- `numeric`. -/
def numeric : Value → Option Double
  | .num x => some x
  | _ => none

/-- A double in units of 2^-1074, with its sign. -/
def scaled (x : Double) : Int := if x.neg then -x.mag else x.mag

/-- `float64` of a length. -/
def ofLen (n : Nat) : Int := n * magOne

/-- `int` of a double: the fraction is dropped. -/
def truncated (x : Double) : Int := (scaled x).tdiv magOne

/-- Whether `float64(int64(n))` is the number itself. -/
def isInt64 (x : Double) : Bool := x.mag % magOne = 0 ∧ -2 ^ 63 ≤ truncated x ∧ truncated x < 2 ^ 63

/-! ## RFC 3339 -/

def daysIn (month : Nat) (year : Int) : Nat :=
  if month = 2 then (if isLeap year then 29 else 28)
  else if month = 4 ∨ month = 6 ∨ month = 9 ∨ month = 11 then 30 else 31

/-- `getnum`: two digits, or one where that is allowed. -/
def getnum (fixed : Bool) : Bytes → Option (Nat × Bytes)
  | c :: d :: s =>
    if !isDigit c then none
    else if isDigit d then some (decVal [c, d], s)
    else if fixed then none else some (decVal [c], d :: s)
  | [c] => if isDigit c ∧ !fixed then some (decVal [c], []) else none
  | [] => none

/-- The byte that a layout asks for. -/
def expect (c : UInt8) : Bytes → Option Bytes
  | d :: s => if d = c then some s else none
  | [] => none

/-- The zone at the end: `Z`, or an offset of hours and minutes. -/
def isZone : Bytes → Bool
  | [90] => true
  | sign :: s =>
    (sign = 43 ∨ sign = 45) ∧
      (do
        let (hour, s) ← getnum true s
        let s ← expect 58 s
        let (minute, s) ← getnum true s
        if hour ≤ 24 ∧ minute ≤ 60 ∧ s = [] then some () else none).isSome
  | [] => false

/-- Fractional seconds may follow the seconds of any layout. -/
def dropFraction : Bytes → Bytes
  | c :: d :: s => if (c = 46 ∨ c = 44) ∧ isDigit d then s.dropWhile isDigit else c :: d :: s
  | s => s

/-- Whether `time.Parse(time.RFC3339, s)` succeeds. -/
def isRFC3339 (s : Bytes) : Bool :=
  (do
    let year := s.take 4
    if year.length = 4 ∧ year.all isDigit then
      let s ← expect 45 (s.drop 4)
      let (month, s) ← getnum true s
      let s ← expect 45 s
      let (day, s) ← getnum true s
      let s ← expect 84 s
      let (hour, s) ← getnum false s
      let s ← expect 58 s
      let (minute, s) ← getnum true s
      let s ← expect 58 s
      let (second, s) ← getnum true s
      if 1 ≤ month ∧ month ≤ 12 ∧ 1 ≤ day ∧ day ≤ daysIn month (decVal year) ∧ hour < 24 ∧
          minute < 60 ∧ second < 60 ∧ isZone (dropFraction s) then some () else none
    else none).isSome

example : isRFC3339 (bytes "2024-02-29T5:04:05.25+01:00") = true ∧
    isRFC3339 (bytes "2023-02-29T05:04:05Z") = false := by
  decide

/-! ## Validation -/

/-- A problem with one field. -/
structure FieldError where
  field : String
  message : Bytes
  deriving DecidableEq

/-- `inEnum`. -/
def inEnum (s : String) (enum : List Value) : Bool := enum.any fun e => asString e = some s

/-- A problem, if there is one. -/
def problem (name : String) (bad : Bool) (message : Bytes) : List FieldError :=
  if bad then [⟨name, message⟩] else []

/-- `validateField`. -/
def validateField (name : String) (p : Object) (val : Value) : List FieldError :=
  let typ := ((p.lookup "type").bind asString).getD ""
  if typ = "string" then
    match asString val with
    | none => [⟨name, bytes "must be a string"⟩]
    | some s =>
      (match (p.lookup "maxLength").bind numeric with
        | some ml => problem name (scaled ml < ofLen (bytes s).length)
            (bytes "exceeds maxLength " ++ intText (truncated ml))
        | none => []) ++
      (match (p.lookup "enum").bind asArray with
        | some enum => problem name (!inEnum s enum) (bytes "not an allowed value")
        | none => []) ++
      (if (p.lookup "format").bind asString = some "date-time" then
        problem name (!isRFC3339 (bytes s)) (bytes "must be RFC3339 date-time")
      else [])
  else if typ = "integer" ∨ typ = "number" then
    match numeric val with
    | none => [⟨name, bytes "must be a number"⟩]
    | some n =>
      problem name (typ = "integer" ∧ !isInt64 n) (bytes "must be an integer") ++
      (match (p.lookup "minimum").bind numeric with
        | some mn => problem name (scaled n < scaled mn) (bytes "below minimum " ++ goVerb mn)
        | none => []) ++
      (match (p.lookup "maximum").bind numeric with
        | some mx => problem name (scaled mx < scaled n) (bytes "above maximum " ++ goVerb mx)
        | none => [])
  else if typ = "array" then
    match asArray val with
    | none => [⟨name, bytes "must be an array"⟩]
    | some arr =>
      match (p.lookup "maxItems").bind numeric with
      | some mi => problem name (scaled mi < ofLen arr.length)
          (bytes "exceeds maxItems " ++ intText (truncated mi))
      | none => []
  else if typ = "boolean" then
    problem name (asBool val).isNone (bytes "must be a boolean")
  else []

/-- The declared fields of a schema. -/
def properties (schema : Object) : Object := ((schema.lookup "properties").bind asObject).getD []

/-- `ValidateSchemaDoc`; a schema is `none` when it is nil. -/
def validateSchemaDoc : Option Object → List FieldError
  | none => [⟨"$", bytes "schema is required"⟩]
  | some schema =>
    problem "type" ((schema.lookup "type").bind asString ≠ some "object")
      (bytes "root schema type must be \"object\"") ++
    (match schema.lookup "additionalProperties" with
      | some ap => problem "additionalProperties" (asBool ap ≠ some false)
          (bytes "must be false (unknown fields rejected)")
      | none => [⟨"additionalProperties", bytes "must be present and false"⟩]) ++
    match (schema.lookup "properties").bind asObject with
    | none => [⟨"properties", bytes "object schema must declare properties"⟩]
    | some props =>
      (((schema.lookup "required").bind asArray).getD []).flatMap (fun r =>
        let name := (asString r).getD ""
        problem ("required." ++ name) (props.lookup name).isNone
          (bytes "required field not declared in properties")) ++
      props.flatMap fun f =>
        match asObject f.2 with
        | none => [⟨"properties." ++ f.1, bytes "property schema must be an object"⟩]
        | some p => problem ("properties." ++ f.1) (p.lookup "type").isNone
            (bytes "property must declare a type")

/-- `ValidateArgs`. -/
def validateArgs (schema args : Object) : List FieldError :=
  let props := properties schema
  let required := ((schema.lookup "required").bind asArray).getD []
  required.flatMap (fun r =>
    let name := (asString r).getD ""
    problem name (args.lookup name).isNone (bytes "required")) ++
  (if (schema.lookup "additionalProperties").bind asBool = some false then
    args.flatMap fun f => problem f.1 (props.lookup f.1).isNone
      (bytes "unknown field (additionalProperties:false)")
  else []) ++
  args.flatMap fun f =>
    match (props.lookup f.1).bind asObject with
    | some p => validateField f.1 p f.2
    | none => []

/-! ## Resources -/

/-- `strings.ReplaceAll` of a nonempty text; so many bytes are passed over. -/
def replaceAll (old new : Bytes) : Bytes → Nat → Bytes
  | [], _ => []
  | _ :: s, passed + 1 => replaceAll old new s passed
  | c :: s, 0 =>
    if old.isPrefixOf (c :: s) then new ++ replaceAll old new s (old.length - 1)
    else c :: replaceAll old new s 0

/-- `URNTenant`: empty for a malformed URN. -/
def urnTenant (urn : Bytes) : Bytes :=
  match urn.splitOn 58 with
  | scheme :: tenant :: _ :: _ :: _ => if scheme = bytes "wr" then tenant else []
  | _ => []

/-- `IsURN`. -/
def isURN (s : Bytes) : Bool := (bytes "wr:").isPrefixOf s ∧ 3 ≤ s.count 58

/-- `urnFields`: the fields that name resources, with their templates. -/
def urnFields (schema : Object) (oboOnly : Bool) : List (String × String) :=
  (properties schema).filterMap fun f =>
    match asObject f.2 with
    | none => none
    | some p =>
      match (p.lookup "x-datacern-urn").bind asString with
      | none => none
      | some tmpl =>
        if oboOnly ∧ (p.lookup "x-datacern-urn-obo").bind asBool = some false then none
        else some (f.1, tmpl)

/-- `resolveURNs`. -/
def resolveURNs (fields : List (String × String)) (args : Object) (tenant : Bytes) : List Bytes :=
  fields.filterMap fun f =>
    match (args.lookup f.1).bind asString with
    | none => none
    | some v =>
      if v = "" then none
      else if isURN (bytes v) then some (bytes v)
      else
        let urn := replaceAll (bytes "\x7btenant\x7d") tenant (bytes f.2) 0
        some (replaceAll (bytes "\x7bvalue\x7d") (bytes v) urn 0)

/-- `AffectedURNs`. -/
def affectedURNs (schema args : Object) (tenant : Bytes) : List Bytes :=
  resolveURNs (urnFields schema false) args tenant

/-- `AffectedOboURNs`. -/
def affectedOboURNs (schema args : Object) (tenant : Bytes) : List Bytes :=
  resolveURNs (urnFields schema true) args tenant

end Windrose.ToolPlane

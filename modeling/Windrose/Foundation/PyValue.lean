/-
  Foundation/PyValue.lean --- values of Python that were read from JSON.

  `str` writes such a value and `float` reads a number from a text.  The tables of Unicode
  (case, decimal digits, printable characters) are a parameter; for ASCII they are never
  asked for digits.
-/
import Windrose.Foundation.Float64
import Windrose.Foundation.JsonTree
import Windrose.Foundation.Strip

set_option autoImplicit false

namespace Windrose.Foundation

/-- A text, as its characters. -/
abbrev Text := List Char

def text (s : String) : Text := s.toList

/-- `int` or `float`. -/
inductive PyNum where
  | int (n : Int)
  | float (x : Float64)

/-- What `json.loads` returns. -/
abbrev PyValue := JsonTree PyNum

/-- The tables of the Unicode database. -/
structure Unicode where
  lower : Text → Text
  decimal : Char → Option Nat
  isPrintable : Char → Bool

namespace Py

/-! ## Spaces -/

/-- `str.isspace` of one character. -/
def isSpace (c : Char) : Bool :=
  let n := c.toNat
  9 ≤ n && n ≤ 13 || 28 ≤ n && n ≤ 32 || n = 133 || n = 160 || n = 5760 ||
    8192 ≤ n && n ≤ 8202 || n = 8232 || n = 8233 || n = 8239 || n = 8287 || n = 12288

/-- `Py_ISSPACE`. -/
def isAsciiSpace (c : Char) : Bool := 9 ≤ c.toNat && c.toNat ≤ 13 || c.toNat = 32

/-! ## Writing -/

def ascii (b : Bytes) : Text := b.map fun c => Char.ofNat c.toNat

def floatText : Float64 → Text
  | .finite x => ascii (pyFloat x)
  | .nan => text "nan"
  | .inf neg => text (if neg then "-inf" else "inf")

def numberText : PyNum → Text
  | .int n => ascii (intText n)
  | .float x => floatText x

def hexDigit (n : Nat) : Char := Char.ofNat (if n < 10 then 48 + n else 87 + n)

/-- The last `places` hexadecimal digits. -/
def hexText : Nat → Nat → Text
  | 0, _ => []
  | places + 1, n => hexText places (n / 16) ++ [hexDigit (n % 16)]

/-- One character of `repr`. -/
def reprChar (unicode : Unicode) (quote c : Char) : Text :=
  if c = quote ∨ c = '\\' then ['\\', c]
  else if c = '\n' then text "\\n"
  else if c = '\r' then text "\\r"
  else if c = '\t' then text "\\t"
  else if c.toNat < 32 ∨ c.toNat = 127 then text "\\x" ++ hexText 2 c.toNat
  else if c.toNat < 127 ∨ unicode.isPrintable c = true then [c]
  else if c.toNat < 256 then text "\\x" ++ hexText 2 c.toNat
  else if c.toNat < 65536 then text "\\u" ++ hexText 4 c.toNat
  else text "\\U" ++ hexText 8 c.toNat

/-- `str.__repr__`: in double quotes if there are only single ones in it. -/
def reprText (unicode : Unicode) (s : Text) : Text :=
  let quote := if '\'' ∈ s ∧ '"' ∉ s then '"' else '\''
  quote :: s.flatMap (reprChar unicode quote) ++ [quote]

mutual

def repr (unicode : Unicode) : PyValue → Text
  | .null => text "None"
  | .bool b => text (if b then "True" else "False")
  | .num n => numberText n
  | .str s => reprText unicode s.toList
  | .arr vs => '[' :: (text ", ").intercalate (reprItems unicode vs) ++ [']']
  | .obj fs => '{' :: (text ", ").intercalate (reprFields unicode fs) ++ ['}']

def reprItems (unicode : Unicode) : List PyValue → List Text
  | [] => []
  | v :: vs => repr unicode v :: reprItems unicode vs

def reprFields (unicode : Unicode) : List (String × PyValue) → List Text
  | [] => []
  | (k, v) :: fs =>
    (reprText unicode k.toList ++ text ": " ++ repr unicode v) :: reprFields unicode fs

end

def str (unicode : Unicode) : PyValue → Text
  | .str s => s.toList
  | v => repr unicode v

/-! ## Reading -/

def isDigit (c : Char) : Bool := 48 ≤ c.toNat && c.toNat ≤ 57

def digitsValue (s : Text) : Nat := s.foldl (fun n c => 10 * n + (c.toNat - 48)) 0

/-- `_PyUnicode_TransformDecimalAndSpaceToASCII`. -/
def toAscii (unicode : Unicode) (s : Text) : Text :=
  s.map fun c =>
    if c.toNat < 127 then c
    else if isSpace c then ' '
    else match unicode.decimal c with
      | some d => Char.ofNat (48 + d)
      | none => '?'

/-- `_Py_string_to_number_with_underscores`: an underscore stands between two digits. -/
def dropUnderscores : Char → Text → Option Text
  | last, [] => if last = '_' then none else some []
  | last, c :: s =>
    if c = '_' then if isDigit last then dropUnderscores c s else none
    else if last = '_' ∧ isDigit c = false then none
    else (dropUnderscores c s).map (c :: ·)

def readSign : Text → Bool × Text
  | '-' :: s => (true, s)
  | '+' :: s => (false, s)
  | s => (false, s)

/-- Behind the digits there is nothing, or an exponent. -/
def readExponent : Text → Option Int
  | [] => some 0
  | c :: s =>
    if c = 'e' ∨ c = 'E' then
      let (neg, ds) := readSign s
      if ds ≠ [] ∧ ds.all isDigit = true then
        some (if neg then -(digitsValue ds : Int) else digitsValue ds)
      else none
    else none

/-- The digits behind the point, and the rest. -/
def readFraction : Text → Text × Text
  | '.' :: s => (s.takeWhile isDigit, s.dropWhile isDigit)
  | s => ([], s)

def readDecimal (s : Text) : Option Decimal :=
  let whole := s.takeWhile isDigit
  let (fraction, rest) := readFraction (s.dropWhile isDigit)
  if whole = [] ∧ fraction = [] then none
  else (readExponent rest).map fun e => ⟨digitsValue (whole ++ fraction), e - fraction.length⟩

/-- The nearest double; too large a number is infinite. -/
def rounded (neg : Bool) (d : Decimal) : Float64 :=
  match Double.read neg d with
  | some x => .finite x
  | none => .inf neg

/-- `_Py_parse_inf_or_nan` and `_Py_dg_strtod`. -/
def readNumber (s : Text) : Option Float64 :=
  let (neg, t) := readSign s
  let name := t.map Char.toLower
  if name = text "inf" ∨ name = text "infinity" then some (.inf neg)
  else if name = text "nan" then some .nan
  else (readDecimal t).map (rounded neg)

/-- `float` of a text; `none` is a `ValueError`. -/
def float (unicode : Unicode) (s : Text) : Option Float64 :=
  (dropUnderscores '\x00' (strip isAsciiSpace (toAscii unicode s))).bind readNumber

end Py

end Windrose.Foundation

/-
  Query/Results.lean --- the result store: rows in, sealed parts, pages out.

  Source: services/query-service/internal/results/store.go (Writer, Manifest, ReadPage,
  readPart) and json.go (MapValue, Cursor).

  A directory holds files by name and the manifest, which is not written out as JSON; its
  `created_at` is left out.  A Go map is the list of its fields; `json.Marshal` sorts it.
  `int` is unbounded, as it counts rows and parts that are there.
-/
import Windrose.Foundation.Time
import Windrose.Foundation.Float64
import Windrose.Foundation.Holds
import Windrose.Foundation.Base64
import Windrose.Foundation.JsonRead
import Windrose.Foundation.Lines

set_option autoImplicit false

namespace Windrose.Query.Results

open Windrose.Foundation

/-! ## Edge JSON -/

/-- A canonical engine value; `other` is one that only `fmt.Sprint` knows, by its text. -/
inductive Value where
  | null
  | bool (b : Bool)
  | int (n : Int)
  | float (x : Float64)
  | str (s : String)
  | binary (bs : Bytes)
  | time (t : Time)
  | list (vs : List Value)
  | struct (fs : List (String × Value))
  | other (text : String)

/-- A number in a mapped value: a whole number that a double holds, or a finite double. -/
inductive Num where
  | int (n : Int) (small : n.natAbs < 2 ^ 53)
  | float (x : Double)

/-- A value at the edge of the service. -/
abbrev Edge : Type := JsonTree Num

/-- A text of ASCII bytes. -/
def ascii (bs : Bytes) : String := String.ofList (bs.map fun b => Char.ofNat b.toNat)

/-- The layout `2006-01-02`. -/
def dateText (t : Time) : Bytes :=
  let c := civil (t.sec + t.zone)
  yearText c.year ++ bytes "-" ++ pad 2 c.month ++ bytes "-" ++ pad 2 c.day

/-- `WarnNaNReplaced`. -/
def warnNaNReplaced : String := "non_finite_float_replaced_with_null"

mutual

/-- `MapValue`: the value and a warning, empty if there is none. -/
def mapValue (logicalType : String) : Value → Edge × String
  | .null => (.null, "")
  | .bool b => (.bool b, "")
  | .int n =>
    if h : n.natAbs < 2 ^ 53 then (.num (.int n h), "") else (.str (ascii (intText n)), "")
  | .float (.finite x) => (.num (.float x), "")
  | .float _ => (.null, warnNaNReplaced)
  | .str s => (.str s, "")
  | .binary bs => (.str (ascii (Alphabet.std.encodePadded bs)), "")
  | .time t =>
    if logicalType = "date" then (.str (ascii (dateText t.utc)), "")
    else (.str (ascii (formatRFC3339Nano t.utc)), "")
  | .list vs =>
    let (es, w) := mapItems vs
    (.arr es, w)
  | .struct fs =>
    let (es, w) := mapFields fs
    (.obj es, w)
  | .other text => (.str text, "")

/-- The elements of a list, and the first warning. -/
def mapItems : List Value → List Edge × String
  | [] => ([], "")
  | v :: vs =>
    let (e, w) := mapValue "" v
    let (es, w') := mapItems vs
    (e :: es, if w = "" then w' else w)

def mapFields : List (String × Value) → List (String × Edge) × String
  | [] => ([], "")
  | (k, v) :: fs =>
    let (e, w) := mapValue "" v
    let (es, w') := mapFields fs
    ((k, e) :: es, if w = "" then w' else w)

end

/-- How `json.Marshal` writes a number. -/
def Num.number : Num → Number
  | .int n _ => ⟨intText n, signText_append_ne_nil (leads_itoa _) _, numberBytes_intText n⟩
  | .float x => ⟨goFloat x, goFloat_ne_nil x, numberBytes_goFloat x⟩

/-- `json.Marshal` writes the keys of a map in the order of their bytes. -/
def keyLE (s t : String) : Bool := !(t < s)

/-- The JSON value of a mapped row. -/
def rowJson (mapped : List Edge) : Json := ((JsonTree.arr mapped).sorted keyLE).toJson Num.number

/-! ## Writer -/

/-- `engine.Column`. -/
structure Column where
  name : String
  type : String
  deriving DecidableEq

/-- `PartInfo`. -/
structure PartInfo where
  file : Bytes
  rows : Nat
  deriving DecidableEq

/-- `Manifest`. -/
structure Manifest where
  columns : List Column
  parts : List PartInfo
  totalRows : Nat
  warnings : List String
  deriving DecidableEq

/-- The directory of one execution. -/
structure Dir where
  files : Dict Bytes Bytes
  manifest : Option Manifest

/-- `os.Create` and what is written until the file is closed. -/
def Dir.create (d : Dir) (name content : Bytes) : Dir :=
  { d with files := d.files.insert name content }

/-- `Writer`, with its directory. -/
structure Writer where
  dir : Dir
  cols : List Column
  buf : List Bytes
  bufB : Nat
  parts : List PartInfo
  rows : Nat
  bytes : Nat
  warns : List String
  isSealed : Bool

/-- `partMaxRows`. -/
def partMaxRows : Nat := 10000

/-- `partMaxBytes`. -/
def partMaxBytes : Nat := 4 * 2 ^ 20

/-- `NewWriter` and `Start`. -/
def start (cols : List Column) : Writer := ⟨⟨∅, none⟩, cols, [], 0, [], 0, 0, [], false⟩

/-- The mapped values of a row; a value without a column has no type. -/
def mapRow : List Column → List Value → List (Edge × String)
  | _, [] => []
  | cols, v :: vs => mapValue ((cols.head?.map (·.type)).getD "") v :: mapRow cols.tail vs

/-- The encoded row. -/
def encodeRow (cols : List Column) (vals : List Value) : Bytes :=
  (rowJson ((mapRow cols vals).map Prod.fst)).encode

/-- `fmt.Sprintf("part-%05d.jsonl", n)`. -/
def partName (n : Nat) : Bytes := Foundation.bytes "part-" ++ pad 5 n ++ Foundation.bytes ".jsonl"

namespace Writer

/-- `flush`. -/
def flush (w : Writer) : Writer :=
  if w.buf = [] then w
  else
    let name := partName w.parts.length
    { w with
      dir := w.dir.create name (joinLines w.buf)
      parts := w.parts ++ [⟨name, w.buf.length⟩]
      buf := []
      bufB := 0 }

/-- A warning is kept once. -/
def warn (warns : List String) (text : String) : List String :=
  if text = "" ∨ text ∈ warns then warns else warns ++ [text]

/-- The row is buffered. -/
def push (w : Writer) (vals : List Value) : Writer :=
  let line := encodeRow w.cols vals
  { w with
    buf := w.buf ++ [line]
    bufB := w.bufB + line.length + 1
    rows := w.rows + 1
    bytes := w.bytes + line.length + 1
    warns := ((mapRow w.cols vals).map Prod.snd).foldl warn w.warns }

/-- `Row`. -/
def row (w : Writer) (vals : List Value) : Writer :=
  let w := w.push vals
  if partMaxRows ≤ w.buf.length ∨ partMaxBytes ≤ w.bufB then w.flush else w

/-- `Seal`. -/
def sealParts (w : Writer) : Writer :=
  if w.isSealed then w
  else
    let w := w.flush
    { w with
      dir := { w.dir with manifest := some ⟨w.cols, w.parts, w.rows, w.warns⟩ }
      isSealed := true }

end Writer

/-- The directory after all rows are written and sealed. -/
def written (cols : List Column) (rows : List (List Value)) : Dir :=
  (rows.foldl Writer.row (start cols)).sealParts.dir

/-! ## Cursors -/

/-- `Cursor`. -/
structure Cursor where
  part : Nat
  row : Nat
  deriving DecidableEq

/-- `fmt.Sprintf("p%d:r%d", c.Part, c.Row)`. -/
def Cursor.text (c : Cursor) : Bytes := 112 :: (itoa c.part ++ 58 :: 114 :: itoa c.row)

/-- `Encode`. -/
def Cursor.encode (c : Cursor) : Bytes := Alphabet.url.encode c.text

/-- `SkipSpace` of `fmt`: the text after blanks, none at a line end. -/
def skipSpace : Bytes → Option Bytes
  | 10 :: _ => none
  | 13 :: 10 :: _ => none
  | 0xC2 :: 0x85 :: t | 0xC2 :: 0xA0 :: t => skipSpace t
  | 0xE1 :: 0x9A :: 0x80 :: t | 0xE2 :: 0x81 :: 0x9F :: t | 0xE3 :: 0x80 :: 0x80 :: t => skipSpace t
  | 0xE2 :: 0x80 :: b :: t =>
    if 0x80 ≤ b ∧ b ≤ 0x8A ∨ b = 0xA8 ∨ b = 0xA9 ∨ b = 0xAF then skipSpace t
    else some (0xE2 :: 0x80 :: b :: t)
  | c :: t => if 9 ≤ c ∧ c ≤ 13 ∨ c = 32 then skipSpace t else some (c :: t)
  | [] => some []

/-- `%d`: blanks, a sign, digits. -/
def scanInt (t : Bytes) : Option (Int × Bytes) := do
  let t ← skipSpace t
  let neg := t.head? = some 45
  let t := if neg ∨ t.head? = some 43 then t.tail else t
  let digits := t.takeWhile isDigit
  if digits = [] then none
  else
    let n : Int := decVal digits
    return (if neg then -n else n, t.dropWhile isDigit)

/-- `fmt.Sscanf` with `p%d:r%d`; what follows is not looked at. -/
def scanCursor (t : Bytes) : Option (Int × Int) := do
  let 112 :: t := t | none
  let (part, t) ← scanInt t
  let 58 :: 114 :: t := t | none
  let (row, _) ← scanInt t
  return (part, row)

/-- `DecodeCursor`; the decoder of `base64` skips line ends. -/
def decodeCursor (s : Bytes) : Option Cursor := do
  if s = [] then return ⟨0, 0⟩
  let b ← Alphabet.url.decode (s.filter fun c => c ≠ 10 ∧ c ≠ 13)
  let (part, row) ← scanCursor b
  if part < 0 ∨ row < 0 then none else return ⟨part.toNat, row.toNat⟩

/-! ## Reader -/

/-- A row as `json.Unmarshal` leaves it in a `[]any`. -/
abbrev Row : Type := List (JsonTree Double)

/-- How deep `json.Unmarshal` follows brackets. -/
def maxNestingDepth : Nat := 10000

/-- The `float64` of a number of the text. -/
def readDouble (n : Number) : Option Double := parseFloat n.text

/-- `json.Unmarshal` into a row. -/
def unmarshalRow (line : Bytes) : Option Row := do
  let v ← Json.read maxNestingDepth line
  match ← JsonTree.ofJson readDouble v with
  | .arr vs => return vs
  | .null => return []
  | _ => none

/-- The limit given to `sc.Buffer`. -/
def maxTokenSize : Nat := 16 * 2 ^ 20

/-- `readPart`. -/
def readPart (d : Dir) (file : Bytes) : Option (List Row) := do
  let content ← d.files.lookup file
  let lines ← scanLines maxTokenSize content
  lines.mapM unmarshalRow

/-- The loop of `ReadPage` over the parts from `part` on: the rows of the page, and where it
stops. -/
def readRows {α : Type} (read : PartInfo → Option (List α)) (limit : Nat) :
    List PartInfo → Nat → Nat → List α → Option (List α × Cursor)
  | [], part, skip, acc => some (acc, ⟨part, skip⟩)
  | info :: infos, part, skip, acc =>
    if acc.length < limit then do
      let rows ← read info
      let taken := (rows.drop skip).take (limit - acc.length)
      if rows.length ≤ skip + taken.length then
        readRows read limit infos (part + 1) 0 (acc ++ taken)
      else
        -- the inner loop ended because the page is full, and so does the outer one
        return (acc ++ taken, ⟨part, skip + taken.length⟩)
    else some (acc, ⟨part, skip⟩)

/-- `Page`. -/
structure Page where
  columns : List Column
  rows : List Row
  nextCursor : Bytes
  hasMore : Bool
  totalRows : Nat
  warnings : List String

/-- `ReadPage`; none is `ErrGone`. -/
def readPage (d : Dir) (c : Cursor) (limit : Nat) : Option Page := do
  let m ← d.manifest
  let (rows, next) ← readRows (fun info => readPart d info.file) limit (m.parts.drop c.part)
    c.part c.row []
  let more : Bool := next.part < m.parts.length
  return ⟨m.columns, rows, if more then next.encode else [], more, m.totalRows, m.warnings⟩

/-- Reading page after page from a cursor on, at most so many, until one says that there is
no more. -/
def follow (d : Dir) (limit : Nat) : Nat → Bytes → Option (List Page)
  | 0, _ => none
  | n + 1, s => do
      let c ← decodeCursor s
      let page ← readPage d c limit
      if page.hasMore then
        let pages ← follow d limit n page.nextCursor
        return page :: pages
      else return [page]

end Windrose.Query.Results

/-
  X12/Domain.lean --- the words of the interchange format.

  Source: services/ingestion-service/app/domain/x12.py.

  The stream is read as latin-1, which has one character for each byte, so a text is a
  `Bytes` and a character is its code.  `strip` without arguments drops what Python
  takes for white space among these 256 characters; the tokenizer strips carriage
  returns and line feeds only.
-/
import Windrose.Foundation.Bytes
import Windrose.Foundation.Strip

set_option autoImplicit false

namespace Windrose.X12

open Windrose.Foundation

/-! ## Characters -/

/-- `str.isspace` of one latin-1 character. -/
def isWhite (c : UInt8) : Bool := (9 ≤ c && c ≤ 13) || (28 ≤ c && c ≤ 32) || c = 0x85 || c = 0xa0

/-- What `strip("\r\n")` drops. -/
def isLineEnd (c : UInt8) : Bool := c = 13 || c = 10

theorem isWhite_of_isLineEnd : ∀ c, isLineEnd c = true → isWhite c = true := by
  intro c hc
  obtain rfl | rfl : c = 13 ∨ c = 10 := by simpa [isLineEnd] using hc
  · rfl
  · rfl

/-- The superscript digits, which `isdigit` admits and `int` does not. -/
def isSuperscript (c : UInt8) : Bool := c = 0xb2 || c = 0xb3 || c = 0xb9

/-- `str.isdigit` of a latin-1 text. -/
def isdigit (s : Bytes) : Bool := s ≠ [] && s.all fun c => isDigit c || isSuperscript c

/-- `sys.get_int_max_str_digits()`. -/
def maxStrDigits : Nat := 4300

/-- `int` of a text that passes `isdigit`; `none` is its `ValueError`. -/
def pyInt (s : Bytes) : Option Nat :=
  if s.all isDigit && s.length ≤ maxStrDigits then some (decVal s) else none

/-! ## Errors and caps -/

/-- `ISA_LEN`. -/
def isaLen : Nat := 106

/-- `MAX_SEGMENT_CHARS`. -/
def maxSegmentChars : Nat := 100000

/-- `MAX_ELEMENTS_PER_SEGMENT`. -/
def maxElementsPerSegment : Nat := 2000

/-- `MAX_SEGMENTS_PER_TRANSACTION`. -/
def maxSegmentsPerTransaction : Nat := 5000000

/-- `MAX_RAW_SEGMENTS_PER_CLAIM`. -/
def maxRawSegmentsPerClaim : Nat := 2000

/-- The failures, one for each place that raises, with the values their texts show. -/
inductive DecodeError where
  /-- "ISA header is … chars, expected 106" -/
  | shortHeader (length : Nat)
  /-- "stream does not begin with an ISA segment" -/
  | noHeader
  /-- "segment exceeds 100000 chars" -/
  | segmentTooLong
  /-- "segment … has … elements (cap 2000)" -/
  | tooManyElements (tag : Bytes) (count : Nat)
  /-- "stream ended before a complete ISA header" -/
  | endedBeforeHeader
  /-- "trailing data after the final segment terminator" -/
  | trailingData
  /-- "interchange exceeds 5000000 segments" -/
  | tooManySegments
  /-- "unsupported X12 transaction set …", and whether it is "recognised but not decoded" -/
  | unsupportedSet (st01 : Bytes) (known : Bool)
  /-- "SE02 … != ST02 …" -/
  | transactionMismatch (se02 st02 : Bytes)
  /-- "SE01 declares … segments but … were read" -/
  | countMismatch (se01 : Bytes) (read : Nat)
  /-- the `ValueError` of `int(se01)` -/
  | notAnInt (se01 : Bytes)
  /-- "GE02 … != GS06 …" -/
  | groupMismatch (ge02 gs06 : Bytes)
  /-- "IEA02 … != ISA13 …" -/
  | interchangeMismatch (iea02 isa13 : Bytes)
  /-- "transaction set (ST) never closed by an SE segment" -/
  | transactionOpen
  /-- "interchange truncated (no IEA terminator)" -/
  | truncated
  deriving DecidableEq

/-! ## Delimiters and segments -/

/-- The three delimiters, which the header of a stream declares. -/
structure Delimiters where
  element : UInt8
  component : UInt8
  segment : UInt8
  deriving DecidableEq

/-- `*`, `:` and `~`, the defaults of the renderers. -/
def defaultDelimiters : Delimiters := { element := 42, component := 58, segment := 126 }

/-- `from_isa`. -/
def Delimiters.fromIsa (isa : Bytes) : Except DecodeError Delimiters :=
  if isa.length < isaLen then .error (.shortHeader isa.length)
  else if ¬ bytes "ISA" <+: isa then .error .noHeader
  else .ok ⟨isa.getD 3 0, isa.getD 104 0, isa.getD 105 0⟩

/-- What the tokenizer yields. -/
structure Segment where
  elements : List Bytes
  raw : Bytes
  delims : Delimiters
  deriving DecidableEq

/-- The words that open, close or acknowledge an envelope, told apart as `decode_x12`
does. -/
inductive Kind where
  | isa
  | gs
  | st
  | se
  | ge
  | iea
  | ta1
  /-- what only a handler looks at -/
  | data
  deriving DecidableEq

/-- The chain of comparisons in `decode_x12`. -/
def Kind.ofTag (tag : Bytes) : Kind :=
  if tag = bytes "ISA" then .isa
  else if tag = bytes "GS" then .gs
  else if tag = bytes "ST" then .st
  else if tag = bytes "SE" then .se
  else if tag = bytes "GE" then .ge
  else if tag = bytes "IEA" then .iea
  else if tag = bytes "TA1" then .ta1
  else .data

/-- `str.strip()`. -/
def pyStrip (s : Bytes) : Bytes := strip isWhite s

namespace Segment

/-- `_el`. -/
def el (s : Segment) (i : Nat) : Bytes := s.elements.getD i []

/-- `_el(elements, i).strip()`. -/
def elStrip (s : Segment) (i : Nat) : Bytes := pyStrip (s.el i)

/-- `elements[0].strip()`. -/
def tag (s : Segment) : Bytes := s.elStrip 0

def kind (s : Segment) : Kind := Kind.ofTag s.tag

end Segment

/-! ## Rows -/

/-- A value of a row. -/
inductive Cell where
  | text (s : Bytes)
  | count (n : Nat)
  deriving DecidableEq

/-- A row of a batch. -/
abbrev Row : Type := List Cell

/-- Rows under their columns. -/
structure RowBatch where
  columns : List Bytes
  rows : List Row
  deriving DecidableEq

/-- `_Envelope`, without `st_segment_count`, which no handler reads: it is a variable of
the decoder. -/
structure Envelope where
  isa13 : Bytes := []
  isa06 : Bytes := []
  isa08 : Bytes := []
  gs06 : Bytes := []
  st01 : Bytes := []
  st02 : Bytes := []
  deriving DecidableEq

/-- `_env_prefix`. -/
def Envelope.cells (env : Envelope) : Row :=
  [.text env.isa13, .text env.gs06, .text env.st02, .text env.st01, .text env.isa06,
    .text env.isa08]

/-- `_ENVELOPE_COLUMNS`. -/
def envelopeColumns : List Bytes :=
  [bytes "interchange_control_number", bytes "group_control_number",
    bytes "transaction_control_number", bytes "transaction_set", bytes "sender_id",
    bytes "receiver_id"]

/-- `TA1_COLUMNS`. -/
def ta1Columns : List Bytes :=
  [bytes "interchange_control_number", bytes "sender_id", bytes "receiver_id",
    bytes "acked_interchange_control_number", bytes "acked_interchange_date",
    bytes "acked_interchange_time", bytes "interchange_ack_code",
    bytes "interchange_note_code"]

/-- The row of a TA1 segment. -/
def ta1Row (env : Envelope) (s : Segment) : Row :=
  [.text env.isa13, .text env.isa06, .text env.isa08, .text (s.elStrip 1), .text (s.elStrip 2),
    .text (s.elStrip 3), .text (s.elStrip 4), .text (s.elStrip 5)]

end Windrose.X12

/-
  Query/Frame.lean --- the LIMIT wrapper.

  Source: services/query-service/internal/sqlsafe/classify.go (WrapWithLimit).

  The wrapper trims a statement and puts it between two fixed texts.
-/
import Windrose.Query.Trino

set_option autoImplicit false

namespace Windrose.Query

open Windrose.Foundation

/-! ## The frame -/

/-- The UTF-8 texts of the characters that `strings.TrimSpace` trims. -/
def spaceTexts : List Bytes :=
  [[9], [10], [11], [12], [13], [32], [194, 133], [194, 160], [225, 154, 128]] ++
    (List.range 11).map (fun i => [226, 128, 128 + UInt8.ofNat i]) ++
    [[226, 128, 168], [226, 128, 169], [226, 128, 175], [226, 129, 159], [227, 128, 128]]

/-- Cut texts of a list from the start, as long as there is one. -/
def cutAll (pats : List Bytes) : Nat → Bytes → Bytes
  | 0, s => s
  | n + 1, s =>
    match pats.find? (·.isPrefixOf s) with
    | none => s
    | some pat => cutAll pats n (s.drop pat.length)

/-- `strings.TrimSpace`. -/
def trimSpace (s : Bytes) : Bytes :=
  let left := cutAll spaceTexts s.length s
  (cutAll (spaceTexts.map List.reverse) left.length left.reverse).reverse

/-- `strings.TrimRight(s, "; \n\t")`. -/
def trimRight (s : Bytes) : Bytes :=
  (s.reverse.dropWhile fun c => c == 59 || c == 32 || c == 10 || c == 9).reverse

/-- `%d`. -/
def formatInt (n : Int) : Bytes := if n < 0 then bytes "-" ++ itoa n.natAbs else itoa n.natAbs

/-- What `WrapWithLimit` writes before the statement and behind it. -/
def frameStart : Bytes := bytes "SELECT * FROM ("

def frameEnd (limit : Int) : Bytes := bytes ") AS _wr_agent_guard LIMIT " ++ formatInt limit

/-- The statement inside the frame. -/
def frameBody (sql : Bytes) : Bytes := trimRight (trimSpace sql)

/-- `WrapWithLimit`. -/
def wrapWithLimit (sql : Bytes) (limit : Int) : Bytes :=
  frameStart ++ frameBody sql ++ frameEnd limit

end Windrose.Query

/-
  Semantic/RelativeRange.lean --- relative time ranges.

  Source: services/semantic-service/app/compiler/timeutil.py.

  A date is its number of days since 1 January of year 1.  A range resolves against the
  date of now in the reporting timezone; that date is all of the clock that matters.
-/
import Windrose.Foundation.Time
import Windrose.Semantic.Request

set_option autoImplicit false

namespace Windrose.Semantic

open Windrose.Foundation

/-! ## Dates -/

/-- Year, month and day of a date. -/
def ymd (d : Int) : Int × Nat × Nat :=
  let date := absDate d
  (date.1, monthDay (isLeap date.1) date.2.toNat)

/-- `date(year, month, day)`. -/
def ofYmd (year : Int) (month day : Nat) : Int :=
  365 * (year - 1) + (year - 1) / 4 - (year - 1) / 100 + (year - 1) / 400 +
    dayOfYear (isLeap year) (month, day)

/-- `date.weekday()`: 1 January of year 1 was a Monday. -/
def weekday (d : Int) : Int := d % 7

/-- The dates that Python has. -/
def isDate (d : Int) : Bool := 0 ≤ d && d < 3652059

/-- A text of ASCII characters. -/
def asciiText (b : Bytes) : String := String.ofList (b.map fun c => Char.ofNat c.toNat)

/-- `date.isoformat()`. -/
def isoformat (d : Int) : String :=
  let date := ymd d
  asciiText (yearText date.1 ++ 45 :: pad 2 date.2.1 ++ 45 :: pad 2 date.2.2)

/-! ## Ranges -/

/-- The unit of a relative range. -/
inductive RangeUnit where
  | day | week | month | year
  deriving DecidableEq

def RangeUnit.text : RangeUnit → String
  | day => "day" | week => "week" | month => "month" | year => "year"

def rangeUnits : List RangeUnit := [.day, .week, .month, .year]

section Resolve

-- The value of a decimal digit, of any script.
variable (digit : Char → Option Nat)

/-- `_LAST_N.match`. -/
def lastN (relative : String) : Option (Nat × RangeUnit) :=
  let cs := relative.toList
  if cs.take 5 = "last_".toList then
    let ds := (cs.drop 5).takeWhile fun c => (digit c).isSome
    if 1 ≤ ds.length ∧ ds.length ≤ 3 then
      match (cs.drop 5).drop ds.length with
      | '_' :: rest =>
        let n := ds.foldl (fun acc c => 10 * acc + (digit c).getD 0) 0
        let rest := dropNewline rest
        (rangeUnits.find? fun u =>
          rest = u.text.toList ∨ rest = u.text.toList ++ ['s']).map fun u => (n, u)
      | _ => none
    else none
  else none

/-- `_month_add`. -/
def monthAdd (d : Int) (months : Int) : Int :=
  let zeroBased := (ymd d).1 * 12 + ((ymd d).2.1 - 1) + months
  ofYmd (zeroBased / 12) (zeroBased % 12 + 1).toNat 1

/-- The bounds, when both are dates. -/
def bounds (start stop : Int) : Except Exn (Int × Int) :=
  if isDate start && isDate stop then .ok (start, stop) else .error .python

/-- `resolve_relative`, where `today` is the date of now, if the timezone is known. -/
def resolveRelative (relative : String) (today : Option Int) : Except Exn (Int × Int) :=
  match today with
  | none => .error .unknownTimezone
  | some today =>
    let (year, month, _) := ymd today
    match lastN digit relative with
    | some (n, unit) =>
      if n < 1 then .error .emptyRelativeRange
      else
        match unit with
        | .day => bounds (today - n) today
        | .week => bounds (today - weekday today - 7 * n) (today - weekday today)
        | .month => bounds (monthAdd (ofYmd year month 1) (-n)) (ofYmd year month 1)
        | .year => bounds (ofYmd (year - n) 1 1) (ofYmd year 1 1)
    | none =>
      let tomorrow := today + 1
      if relative = "today" then bounds today tomorrow
      else if relative = "yesterday" then bounds (today - 1) today
      else if relative = "this_week" then bounds (today - weekday today) tomorrow
      else if relative = "this_month" then bounds (ofYmd year month 1) tomorrow
      else if relative = "this_quarter" then
        bounds (ofYmd year (3 * ((month - 1) / 3) + 1) 1) tomorrow
      else if relative = "this_year" then bounds (ofYmd year 1 1) tomorrow
      else .error (.unknownRelativeRange relative)

end Resolve

end Windrose.Semantic

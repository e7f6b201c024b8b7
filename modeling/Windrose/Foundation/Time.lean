/-
  Foundation/Time.lean --- instants, the Gregorian calendar and RFC 3339 text.

  Go's `time.Time` is an instant together with a location, of which only the offset in force
  matters.  The instant is a whole number of seconds since the start of year 1 and a
  nanosecond below 10^9.  `Format` with the layout `time.RFC3339Nano` is transcribed from
  the standard library.

  Years are unbounded integers here, so results cover every value of the 64-bit
  representation.
-/
import Mathlib.Data.Nat.Digits.Lemmas
import Windrose.Foundation.Bytes

set_option autoImplicit false

namespace Windrose.Foundation

/-! ## Zero-padded numbers -/

/-- `appendInt(b, n, w)` for `n ≥ 0`: decimal, at least `w` digits. -/
def pad (w n : Nat) : Bytes := List.replicate (w - (itoa n).length) (digit 0) ++ itoa n

theorem foldl_replicate_zero (k : Nat) :
    (List.replicate k (digit 0)).foldl (fun acc c => 10 * acc + (c.toNat - 48)) 0 = 0 := by
  induction k with
  | zero => rfl
  | succ k ih => simpa [List.replicate_succ, digit] using ih

@[simp] theorem decVal_pad (w n : Nat) : decVal (pad w n) = n := by
  have h := decVal_itoa n
  simp only [decVal] at h ⊢
  rw [pad, List.foldl_append, foldl_replicate_zero, h]

theorem pad_injective (w : Nat) : Function.Injective (pad w) :=
  Function.LeftInverse.injective (decVal_pad w)

variable {n : Nat} {r' : Bytes}

theorem isDigit_of_mem_pad {w : Nat} {c : UInt8} (h : c ∈ pad w n) : isDigit c = true := by
  rcases List.mem_append.mp h with h | h
  · rw [List.eq_of_mem_replicate h]
    rfl
  · exact isDigit_of_mem_itoa h

theorem pad_ne_nil (w n : Nat) : pad w n ≠ [] := by simp [pad, itoa_ne_nil]

theorem length_pad_two : ∀ n < 100, (pad 2 n).length = 2 := by decide

/-! ## The calendar -/

def isLeap (year : Int) : Bool := year % 4 == 0 && (year % 100 != 0 || year % 400 == 0)

/-- `absDate`: the year and the day of the year of a day number, counted from
1 January of year 1.  The last 100-year cycle of 400 years and the last year of
four carry the extra day, which is what `n -= n >> 2` accounts for. -/
def absDate (d : Int) : Int × Int :=
  let n400 := d / 146097
  let d1 := d % 146097
  let n100 := d1 / 36524 - d1 / 36524 / 4
  let d2 := d1 - 36524 * n100
  let n4 := d2 / 1461
  let d3 := d2 - 1461 * n4
  let n1 := d3 / 365 - d3 / 365 / 4
  (1 + 400 * n400 + 100 * n100 + 4 * n4 + n1, d3 - 365 * n1)

/-- Days before the first of each month in a common year. -/
def daysBefore : List Nat := [0, 31, 59, 90, 120, 151, 181, 212, 243, 273, 304, 334, 365]

/-- `date`: the month and the day of a day of the year. -/
def monthDay (leap : Bool) (yday : Nat) : Nat × Nat :=
  if leap && yday == 59 then (2, 29)
  else
    let d := if leap && 59 < yday then yday - 1 else yday
    let m := d / 31
    if daysBefore.getD (m + 1) 0 ≤ d then (m + 2, d - daysBefore.getD (m + 1) 0 + 1)
    else (m + 1, d - daysBefore.getD m 0 + 1)

/-- The day of the year a month and a day denote. -/
def dayOfYear (leap : Bool) (p : Nat × Nat) : Nat :=
  daysBefore.getD (p.1 - 1) 0 + p.2 - 1 + (if leap && 2 < p.1 then 1 else 0)

set_option maxRecDepth 4000 in
theorem dayOfYear_monthDay (leap : Bool) :
    ∀ yday < 366, dayOfYear leap (monthDay leap yday) = yday := by
  cases leap <;> decide

set_option maxRecDepth 4000 in
theorem monthDay_lt (leap : Bool) :
    ∀ yday < 366, (monthDay leap yday).1 < 100 ∧ (monthDay leap yday).2 < 100 := by
  cases leap <;> decide

theorem absDate_cycles (d : Int) : ∃ a q e r : Int,
    (0 ≤ q ∧ q ≤ 3) ∧ (0 ≤ e ∧ e ≤ 24) ∧ (0 ≤ r ∧ r ≤ 3) ∧
    (absDate d).1 = 1 + 400 * a + 100 * q + 4 * e + r ∧
    (absDate d).2 = d - (146097 * a + 36524 * q + 1461 * e + 365 * r) ∧
    0 ≤ (absDate d).2 ∧ (absDate d).2 < 366 := by
  have hq : 0 ≤ d % 146097 / 36524 - d % 146097 / 36524 / 4 ∧
      d % 146097 / 36524 - d % 146097 / 36524 / 4 ≤ 3 := by omega
  have hd2 : 0 ≤ d % 146097 - 36524 * (d % 146097 / 36524 - d % 146097 / 36524 / 4) ∧
      d % 146097 - 36524 * (d % 146097 / 36524 - d % 146097 / 36524 / 4) ≤ 36524 := by omega
  refine ⟨d / 146097, _, _, _, hq, ?_, ?_, rfl, ?_, ?_⟩
  · omega
  · omega
  · simp only [absDate]
    omega
  · simp only [absDate]
    omega

theorem absDate_days (d : Int) :
    d = 365 * ((absDate d).1 - 1) + ((absDate d).1 - 1) / 4 - ((absDate d).1 - 1) / 100 +
      ((absDate d).1 - 1) / 400 + (absDate d).2 := by
  obtain ⟨a, q, e, r, hq, he, hr, hyear, hyday, -⟩ := absDate_cycles d
  have h4 : ((absDate d).1 - 1) / 4 = 100 * a + 25 * q + e := by omega
  have h100 : ((absDate d).1 - 1) / 100 = 4 * a + q := by omega
  have h400 : ((absDate d).1 - 1) / 400 = a := by omega
  rw [h4, h100, h400, hyear, hyday]
  omega

theorem absDate_injective : Function.Injective absDate := by
  intro d d' h
  rw [absDate_days d, absDate_days d', h]

theorem absDate_yday (d : Int) : 0 ≤ (absDate d).2 ∧ (absDate d).2 < 366 := by
  obtain ⟨_, _, _, _, _, _, _, _, _, h⟩ := absDate_cycles d
  exact h

/-! ## Instants -/

/-- `time.Time`. -/
structure Time where
  /-- seconds since 0001-01-01T00:00:00Z -/
  sec : Int
  nsec : Nat
  nsec_lt : nsec < 1000000000
  /-- offset of the location, in seconds east of UTC -/
  zone : Int
  deriving DecidableEq

namespace Time

/-- What `Equal` compares: the instant without the location. -/
def instant (t : Time) : Int × Nat := (t.sec, t.nsec)

/-- The beginning of a second, in UTC. -/
def ofSec (sec : Int) : Time := ⟨sec, 0, by decide, 0⟩

/-- `UTC()`: the same instant, read in UTC. -/
def utc (t : Time) : Time := { t with zone := 0 }

/-- `Truncate(time.Millisecond)`. -/
def truncateMs (t : Time) : Time :=
  { t with
    nsec := t.nsec - t.nsec % 1000000
    nsec_lt := by have := t.nsec_lt; omega }

end Time

/-- A wall-clock reading to the second. -/
structure Civil where
  year : Int
  month : Nat
  day : Nat
  hour : Nat
  minute : Nat
  second : Nat
  deriving DecidableEq

/-- The reading of a number of seconds since the start of year 1. -/
def civil (s : Int) : Civil :=
  let date := absDate (s / 86400)
  let md := monthDay (isLeap date.1) date.2.toNat
  let tod := (s % 86400).toNat
  ⟨date.1, md.1, md.2, tod / 3600, tod % 3600 / 60, tod % 60⟩

theorem civil_injective : Function.Injective civil := by
  intro s s' h
  simp only [civil, Civil.mk.injEq] at h
  obtain ⟨hyear, hmonth, hday, hhour, hmin, hsec⟩ := h
  have hy := absDate_yday (s / 86400)
  have hy' := absDate_yday (s' / 86400)
  have hmd : monthDay (isLeap (absDate (s / 86400)).1) (absDate (s / 86400)).2.toNat =
      monthDay (isLeap (absDate (s / 86400)).1) (absDate (s' / 86400)).2.toNat := by
    rw [← hyear] at hmonth hday
    exact Prod.ext hmonth hday
  have hyday : (absDate (s / 86400)).2.toNat = (absDate (s' / 86400)).2.toNat := by
    have h1 := dayOfYear_monthDay (isLeap (absDate (s / 86400)).1)
      (absDate (s / 86400)).2.toNat (by omega)
    have h2 := dayOfYear_monthDay (isLeap (absDate (s / 86400)).1)
      (absDate (s' / 86400)).2.toNat (by omega)
    rw [← h1, hmd, h2]
  have hdays : s / 86400 = s' / 86400 := absDate_injective (Prod.ext hyear (by omega))
  omega

theorem civil_lt (s : Int) : (civil s).month < 100 ∧ (civil s).day < 100 ∧ (civil s).hour < 100 ∧
      (civil s).minute < 100 ∧ (civil s).second < 100 := by
  have hy := absDate_yday (s / 86400)
  obtain ⟨hm, hd⟩ := monthDay_lt (isLeap (absDate (s / 86400)).1)
    (absDate (s / 86400)).2.toNat (by omega)
  refine ⟨hm, hd, ?_, ?_, ?_⟩ <;> simp only [civil] <;> omega

/-! ## RFC 3339 text -/

/-- `appendInt(b, year, 4)`. -/
def yearText (year : Int) : Bytes :=
  if year < 0 then bytes "-" ++ pad 4 year.natAbs else pad 4 year.natAbs

/-- The date and the time of day, `2006-01-02T15:04:05`. -/
def civilText (c : Civil) : Bytes :=
  yearText c.year ++ bytes "-" ++ pad 2 c.month ++ bytes "-" ++ pad 2 c.day ++ bytes "T" ++
    pad 2 c.hour ++ bytes ":" ++ pad 2 c.minute ++ bytes ":" ++ pad 2 c.second

/-- Cut the trailing zeros of a fraction. -/
def trimZeros (bs : Bytes) : Bytes := (bs.reverse.dropWhile (· == digit 0)).reverse

/-- `appendNano` with the layout `.999999999`. -/
def nanoText (nsec : Nat) : Bytes := if nsec = 0 then [] else bytes "." ++ trimZeros (pad 9 nsec)

/-- The layout's `Z07:00`. -/
def zoneText (zone : Int) : Bytes :=
  if zone = 0 then bytes "Z"
  else (if zone < 0 then bytes "-" else bytes "+") ++ pad 2 ((zone.tdiv 60).natAbs / 60) ++
    bytes ":" ++ pad 2 ((zone.tdiv 60).natAbs % 60)

/-- `Format(time.RFC3339Nano)`. -/
def formatRFC3339Nano (t : Time) : Bytes :=
  civilText (civil (t.sec + t.zone)) ++ nanoText t.nsec ++ zoneText t.zone

theorem dash_not_mem_pad (w n : Nat) : (45 : UInt8) ∉ pad w n := by
  intro h
  exact absurd (isDigit_of_mem_pad h) (by decide)

theorem yearText_inj {y y' : Int} {r : Bytes}
    (h : yearText y ++ bytes "-" ++ r = yearText y' ++ bytes "-" ++ r') : y = y' ∧ r = r' := by
  -- A sign is told apart from a digit, and the digits end at the next dash.
  have hmixed : ∀ (m n : Nat) (a b : Bytes), bytes "-" ++ pad 4 m ++ a ≠ pad 4 n ++ b := by
    intro m n a b hmn
    cases hp : pad 4 n with
    | nil => exact pad_ne_nil 4 n hp
    | cons c cs =>
      rw [hp] at hmn
      have hc : (45 : UInt8) = c := (List.cons.inj hmn).1
      exact dash_not_mem_pad 4 n (by rw [hp, hc]; exact List.mem_cons_self)
  have hdigits : ∀ (m n : Nat), pad 4 m ++ bytes "-" ++ r = pad 4 n ++ bytes "-" ++ r' →
      m = n ∧ r = r' := by
    intro m n hmn
    rw [List.append_assoc, List.append_assoc] at hmn
    obtain ⟨hp, hr⟩ := append_sep_inj (dash_not_mem_pad 4 m) (dash_not_mem_pad 4 n) hmn
    exact ⟨pad_injective 4 hp, hr⟩
  unfold yearText at h
  split at h <;> split at h
  · simp only [List.append_assoc] at h hdigits
    obtain ⟨hn, hr⟩ := hdigits _ _ (List.append_cancel_left h)
    exact ⟨by omega, hr⟩
  · exact absurd (by simpa using h) (hmixed _ _ (bytes "-" ++ r) (bytes "-" ++ r'))
  · exact absurd (by simpa using h.symm) (hmixed _ _ (bytes "-" ++ r') (bytes "-" ++ r))
  · obtain ⟨hn, hr⟩ := hdigits _ _ h
    exact ⟨by omega, hr⟩

theorem pad_two_inj {m : Nat} {r : Bytes} (hm : m < 100) (hn : n < 100)
    (h : pad 2 m ++ r = pad 2 n ++ r') : m = n ∧ r = r' := by
  obtain ⟨hp, hr⟩ := List.append_inj h (by rw [length_pad_two m hm, length_pad_two n hn])
  exact ⟨pad_injective 2 hp, hr⟩

theorem civilText_inj {s s' : Int} {r : Bytes}
    (h : civilText (civil s) ++ r = civilText (civil s') ++ r') : s = s' ∧ r = r' := by
  obtain ⟨hm, hd, hh, hmin, hs⟩ := civil_lt s
  obtain ⟨hm', hd', hh', hmin', hs'⟩ := civil_lt s'
  simp only [civilText, List.append_assoc] at h
  obtain ⟨hyear, h⟩ := yearText_inj (by simpa only [List.append_assoc] using h)
  obtain ⟨hmonth, h⟩ := pad_two_inj hm hm' h
  obtain ⟨hday, h⟩ := pad_two_inj hd hd' (List.append_cancel_left h)
  obtain ⟨hhour, h⟩ := pad_two_inj hh hh' (List.append_cancel_left h)
  obtain ⟨hminute, h⟩ := pad_two_inj hmin hmin' (List.append_cancel_left h)
  obtain ⟨hsecond, h⟩ := pad_two_inj hs hs' (List.append_cancel_left h)
  refine ⟨civil_injective ?_, h⟩
  cases hc : civil s
  cases hc' : civil s'
  simp_all

theorem trimZeros_append (bs : Bytes) :
    bs = trimZeros bs ++ List.replicate (bs.length - (trimZeros bs).length) (digit 0) := by
  have hzeros : ∀ c ∈ bs.reverse.takeWhile (· == digit 0), c = digit 0 := by
    intro c hc
    have hall := List.all_takeWhile (p := (· == digit 0)) (l := bs.reverse)
    simpa using List.all_eq_true.mp hall c hc
  have hsplit : bs = trimZeros bs ++ (bs.reverse.takeWhile (· == digit 0)).reverse := by
    rw [trimZeros, ← List.reverse_append, List.takeWhile_append_dropWhile, List.reverse_reverse]
  have hlen := congrArg List.length hsplit
  simp only [List.length_append, List.length_reverse] at hlen
  have hrep : (bs.reverse.takeWhile (· == digit 0)).reverse =
      List.replicate (bs.length - (trimZeros bs).length) (digit 0) := by
    rw [List.eq_replicate_iff]
    refine ⟨by rw [List.length_reverse]; omega, fun c hc => hzeros c (by simpa using hc)⟩
  rw [← hrep]
  exact hsplit

theorem trimZeros_inj {a b : Bytes} (hlen : a.length = b.length)
    (h : trimZeros a = trimZeros b) : a = b := by
  rw [trimZeros_append a, trimZeros_append b, h, hlen]

theorem length_pad {w : Nat} (h : (itoa n).length ≤ w) : (pad w n).length = w := by
  simp only [pad, List.length_append, List.length_replicate]
  omega

theorem length_itoa_le (h : n < 1000000000) : (itoa n).length ≤ 9 := by
  unfold itoa
  split
  · simp
  · simp only [List.length_map, List.length_reverse]
    exact (Nat.digits_length_le_iff (by omega) n).mpr (by simpa using h)

theorem nanoText_inj {n' : Nat} (hn : n < 1000000000) (hn' : n' < 1000000000)
    (h : nanoText n = nanoText n') : n = n' := by
  unfold nanoText at h
  split at h <;> split at h
  · omega
  · exact absurd h.symm (List.cons_ne_nil _ _)
  · exact absurd h (List.cons_ne_nil _ _)
  · have htrim := List.append_cancel_left h
    exact pad_injective 9 (trimZeros_inj
      (by rw [length_pad (length_itoa_le hn), length_pad (length_itoa_le hn')]) htrim)

theorem formatRFC3339Nano_utc_inj {t t' : Time}
    (h : formatRFC3339Nano t.utc = formatRFC3339Nano t'.utc) : t.instant = t'.instant := by
  simp only [formatRFC3339Nano, Time.utc, Int.add_zero, List.append_assoc] at h
  obtain ⟨hsec, h⟩ := civilText_inj h
  have hnsec := nanoText_inj t.nsec_lt t'.nsec_lt (List.append_cancel_right h)
  exact Prod.ext hsec hnsec

end Windrose.Foundation

/-
  Foundation/NumberText.lean --- how Go and Python write numbers, and how they are read.

  Both print the shortest decimal of a double.  `json.Marshal` keeps to plain digits
  from 1e-6 up to 1e21 (`goFloat`), `repr` from 1e-4 up to 1e16 and marks a whole
  number by `.0` (`pyFloat`).  Each text is read back as the double it was written for
  (`parseFloat_goFloat`, `parseFloat_pyFloat`), and `goFloat_eq_pyFloat_iff` says when the
  two texts are the same.
-/
import Mathlib.Data.List.TakeWhile
import Mathlib.Data.Nat.Digits.Lemmas
import Windrose.Foundation.Binary64
import Windrose.Foundation.Json

set_option autoImplicit false

namespace Windrose.Foundation

/-! ## Digits -/

def zeros (n : Nat) : Bytes := List.replicate n 48

theorem decVal_append (a b : Bytes) : decVal (a ++ b) = decVal a * 10 ^ b.length + decVal b := by
  induction b using List.reverseRecOn with
  | nil => rw [List.append_nil, List.length_nil, Nat.pow_zero, Nat.mul_one]; rfl
  | append_singleton b c ih =>
    rw [← List.append_assoc, decVal_append_singleton, ih, decVal_append_singleton,
      List.length_append, List.length_singleton, Nat.pow_succ]
    ring

theorem decVal_zeros (n : Nat) : decVal (zeros n) = 0 := by
  induction n with
  | zero => rfl
  | succ n ih =>
    rw [zeros, List.replicate_succ', decVal_append_singleton]
    change 10 * decVal (zeros n) + 0 = 0
    rw [ih]

theorem decVal_zeros_append (n : Nat) (b : Bytes) : decVal (zeros n ++ b) = decVal b := by
  rw [decVal_append, decVal_zeros, Nat.zero_mul, Nat.zero_add]

theorem decVal_append_zeros (a : Bytes) (n : Nat) : decVal (a ++ zeros n) = decVal a * 10 ^ n := by
  rw [decVal_append, decVal_zeros, Nat.add_zero, zeros, List.length_replicate]

variable {n : Nat} {c : UInt8} {t : Bytes}

theorem itoa_mul_pow (hn : 0 < n) (k : Nat) : itoa (n * 10 ^ k) = itoa n ++ zeros k := by
  have hne : n * 10 ^ k ≠ 0 := Nat.mul_ne_zero hn.ne' (Nat.pow_pos (by decide)).ne'
  rw [itoa, itoa, if_neg hne, if_neg hn.ne', Nat.mul_comm, Nat.digits_base_pow_mul (by decide) hn,
    List.reverse_append, List.map_append, List.reverse_replicate, List.map_replicate]
  rfl

theorem itoa_length_pos (n : Nat) : 0 < (itoa n).length := List.length_pos_of_ne_nil (itoa_ne_nil n)

theorem itoa_length (hn : n ≠ 0) : (itoa n).length = (Nat.digits 10 n).length := by
  rw [itoa, if_neg hn, List.length_map, List.length_reverse]

theorem lt_pow_itoa_length (n : Nat) : n < 10 ^ (itoa n).length := by
  by_cases hn : n = 0
  · rw [hn]
    decide
  · rw [itoa_length hn]
    exact Nat.lt_base_pow_length_digits (by decide)

theorem pow_le_of_itoa_length (hn : n ≠ 0) : 10 ^ ((itoa n).length - 1) ≤ n := by
  rw [itoa_length hn]
  refine Nat.le_of_mul_le_mul_right ?_ (by decide : 0 < 10)
  calc 10 ^ ((Nat.digits 10 n).length - 1) * 10 = 10 ^ (Nat.digits 10 n).length := by
        rw [← Nat.pow_succ]
        congr 1
        have := itoa_length_pos n
        rw [itoa_length hn] at this
        omega
    _ ≤ 10 * n := Nat.base_pow_length_digits_le' 8 n hn
    _ = n * 10 := Nat.mul_comm _ _

theorem not_mem_itoa (hc : isDigit c = false) (n : Nat) : c ∉ itoa n := by
  intro h
  rw [isDigit_of_mem_itoa h] at hc
  exact Bool.noConfusion hc

theorem not_mem_zeros (hc : isDigit c = false) (n : Nat) : c ∉ zeros n := by
  intro h
  rw [List.eq_of_mem_replicate h] at hc
  exact Bool.noConfusion hc

/-! ## Writing -/

namespace Decimal

/-- How many digits stand before the point. -/
def point (d : Decimal) : Int := (itoa d.digits).length + d.exp

/-- The digits with the point in its place: `%f`. -/
def fixed (d : Decimal) : Bytes :=
  if d.point ≤ 0 then [48, 46] ++ zeros (-d.point).toNat ++ itoa d.digits
  else if d.exp < 0 then
    (itoa d.digits).take d.point.toNat ++ 46 :: (itoa d.digits).drop d.point.toNat
  else itoa d.digits ++ zeros d.exp.toNat

/-- The digits with the point behind the first. -/
def mantissa (d : Decimal) : Bytes :=
  match itoa d.digits with
  | c :: c' :: cs => c :: 46 :: c' :: cs
  | cs => cs

/-- An exponent has two digits at least. -/
def expDigits (n : Nat) : Bytes := if n < 10 then 48 :: itoa n else itoa n

/-- `%e`. -/
def scientific (d : Decimal) : Bytes :=
  d.mantissa ++ 101 :: (if d.point - 1 < 0 then 45 else 43) :: expDigits (d.point - 1).natAbs

end Decimal

/-- The sign of a number. -/
def signText (neg : Bool) : Bytes := if neg then [45] else []

/-- `float.__repr__`. -/
def pyFloat (x : Double) : Bytes :=
  let d := shortest x.mag
  signText x.neg ++
    if d.point ≤ -4 ∨ 16 < d.point then d.scientific
    else if d.exp < 0 then d.fixed else d.fixed ++ [46, 48]

/-- Cleaning up `e-09` to `e-9`. -/
def dropExpZero (b : Bytes) : Bytes :=
  match b.reverse with
  | c :: 48 :: 45 :: 101 :: r => (c :: 45 :: 101 :: r).reverse
  | _ => b

/-- `floatEncoder` of `encoding/json`. -/
def goFloat (x : Double) : Bytes :=
  let d := shortest x.mag
  if x.mag ≠ 0 ∧ (x.mag < (Decimal.mk 1 (-6)).mag ∨ (Decimal.mk 1 21).mag ≤ x.mag) then
    dropExpZero (signText x.neg ++ d.scientific)
  else signText x.neg ++ d.fixed

/-- The verb `%v` of a float: with an exponent from 7 digits on. -/
def goVerb (x : Double) : Bytes :=
  let d := shortest x.mag
  signText x.neg ++ if d.point - 1 < -4 ∨ 6 ≤ d.point - 1 then d.scientific else d.fixed

/-- A whole number: `str`, `%d`. -/
def intText (n : Int) : Bytes := signText (n < 0) ++ itoa n.natAbs

/-! ## Reading -/

def readExponent : Bytes → Int
  | 45 :: ds => -(decVal ds : Int)
  | 43 :: ds => decVal ds
  | ds => decVal ds

/-- The digits around the point. -/
def readMantissa (m : Bytes) : Nat × Nat :=
  let f := (m.dropWhile (· ≠ 46)).tail
  (decVal (m.takeWhile (· ≠ 46) ++ f), f.length)

def readUnsigned (t : Bytes) : Decimal :=
  let (digits, places) := readMantissa (t.takeWhile (· ≠ 101))
  ⟨digits, readExponent (t.dropWhile (· ≠ 101)).tail - places⟩

def readSign : Bytes → Bool × Bytes
  | 45 :: t => (true, t)
  | t => (false, t)

/-- `strconv.ParseFloat` of a JSON number: the nearest double, if it is finite. -/
def parseFloat (t : Bytes) : Option Double :=
  Double.read (readSign t).1 (readUnsigned (readSign t).2)

theorem takeWhile_ne {a : Bytes} (h : c ∉ a) (b : Bytes) :
    (a ++ c :: b).takeWhile (· ≠ c) = a ∧ (a ++ c :: b).dropWhile (· ≠ c) = c :: b := by
  have hall : ∀ x ∈ a, decide (x ≠ c) = true := by
    intro x hx
    exact decide_eq_true fun heq => h (heq ▸ hx)
  rw [List.takeWhile_append_of_pos hall, List.dropWhile_append_of_pos hall]
  simp

theorem takeWhile_ne_self {a : Bytes} (h : c ∉ a) :
    a.takeWhile (· ≠ c) = a ∧ a.dropWhile (· ≠ c) = [] := by
  have hall : ∀ x ∈ a, decide (x ≠ c) = true := by
    intro x hx
    exact decide_eq_true fun heq => h (heq ▸ hx)
  exact ⟨List.takeWhile_eq_self_iff.mpr hall, List.dropWhile_eq_nil_iff.mpr hall⟩

theorem readMantissa_point {i : Bytes} (hi : 46 ∉ i) (f : Bytes) :
    readMantissa (i ++ 46 :: f) = (decVal (i ++ f), f.length) := by
  obtain ⟨htake, hdrop⟩ := takeWhile_ne hi f
  rw [readMantissa, htake, hdrop]
  rfl

theorem readMantissa_whole {i : Bytes} (hi : 46 ∉ i) : readMantissa i = (decVal i, 0) := by
  obtain ⟨htake, hdrop⟩ := takeWhile_ne_self hi
  rw [readMantissa, htake, hdrop]
  simp

theorem readUnsigned_exponent {m : Bytes} (hm : 101 ∉ m) (e : Bytes) :
    readUnsigned (m ++ 101 :: e) = ⟨(readMantissa m).1, readExponent e - (readMantissa m).2⟩ := by
  obtain ⟨htake, hdrop⟩ := takeWhile_ne hm e
  rw [readUnsigned, htake, hdrop]
  rfl

theorem readUnsigned_plain {m : Bytes} (hm : 101 ∉ m) :
    readUnsigned m = ⟨(readMantissa m).1, -((readMantissa m).2 : Int)⟩ := by
  obtain ⟨htake, hdrop⟩ := takeWhile_ne_self hm
  rw [readUnsigned, htake, hdrop, ← Int.zero_sub]
  rfl

/-! ## What is written is read back -/

/-- A text that begins with a digit. -/
def Leads (t : Bytes) : Prop := ∃ c r, t = c :: r ∧ isDigit c = true

theorem leads_itoa (n : Nat) : Leads (itoa n) := by
  obtain ⟨c, r, h⟩ := List.exists_cons_of_ne_nil (itoa_ne_nil n)
  exact ⟨c, r, h, isDigit_of_mem_itoa (n := n) (by rw [h]; exact List.mem_cons_self)⟩

theorem Leads.append (h : Leads t) (u : Bytes) : Leads (t ++ u) := by
  obtain ⟨c, r, rfl, hc⟩ := h
  exact ⟨c, r ++ u, rfl, hc⟩

theorem readSign_sign (h : Leads t) (neg : Bool) : readSign (signText neg ++ t) = (neg, t) := by
  obtain ⟨c, r, rfl, hc⟩ := h
  cases neg with
  | true => rfl
  | false =>
    change readSign (c :: r) = _
    unfold readSign
    split
    · next heq =>
      rw [(List.cons.inj heq).1] at hc
      cases hc
    · rfl

theorem parseFloat_sign (h : Leads t) (neg : Bool) :
    parseFloat (signText neg ++ t) = Double.read neg (readUnsigned t) := by
  rw [parseFloat, readSign_sign h]

namespace Decimal

theorem point_sub_length (d : Decimal) : d.point - (itoa d.digits).length = d.exp := by
  unfold point
  omega

theorem mantissa_cases (d : Decimal) : (∃ c, itoa d.digits = [c] ∧ d.mantissa = [c]) ∨
      ∃ c c' cs, itoa d.digits = c :: c' :: cs ∧ d.mantissa = c :: 46 :: c' :: cs := by
  unfold mantissa
  obtain ⟨c, r, h⟩ := List.exists_cons_of_ne_nil (itoa_ne_nil d.digits)
  cases r with
  | nil => exact .inl ⟨c, h, by rw [h]⟩
  | cons c' cs => exact .inr ⟨c, c', cs, h, by rw [h]⟩

theorem leads_mantissa (d : Decimal) : Leads d.mantissa := by
  obtain ⟨c, r, h, hc⟩ := leads_itoa d.digits
  obtain ⟨c', hi, hm⟩ | ⟨c', c'', cs, hi, hm⟩ := d.mantissa_cases
  · rw [hi] at h
    exact ⟨c', _, hm, (List.cons.inj h).1 ▸ hc⟩
  · rw [hi] at h
    exact ⟨c', _, hm, (List.cons.inj h).1 ▸ hc⟩

theorem leads_scientific (d : Decimal) : Leads d.scientific := d.leads_mantissa.append _

theorem leads_fixed (d : Decimal) : Leads d.fixed := by
  unfold fixed
  split
  · exact ⟨48, _, rfl, rfl⟩
  · next hpoint =>
    split
    · obtain ⟨c, r, h, hc⟩ := leads_itoa d.digits
      rw [h]
      obtain ⟨n, hn⟩ : ∃ n, d.point.toNat = n + 1 := ⟨d.point.toNat - 1, by omega⟩
      rw [hn]
      exact ⟨c, _, rfl, hc⟩
    · exact (leads_itoa _).append _

theorem not_mem_mantissa (d : Decimal) : 101 ∉ d.mantissa := by
  have hdigits := not_mem_itoa (c := 101) rfl d.digits
  obtain ⟨c, hi, hm⟩ | ⟨c, c', cs, hi, hm⟩ := d.mantissa_cases
  · rwa [hm, ← hi]
  · rw [hi] at hdigits
    rw [hm]
    simp only [List.mem_cons, not_or] at hdigits ⊢
    exact ⟨hdigits.1, by decide, hdigits.2⟩

theorem readMantissa_mantissa (d : Decimal) :
    readMantissa d.mantissa = (d.digits, (itoa d.digits).length - 1) := by
  have hdigits := not_mem_itoa (c := 46) rfl d.digits
  obtain ⟨c, hi, hm⟩ | ⟨c, c', cs, hi, hm⟩ := d.mantissa_cases
  · rw [hi] at hdigits
    rw [hm, readMantissa_whole hdigits, ← hi, decVal_itoa]
    simp [hi]
  · rw [hi] at hdigits
    have hc : 46 ∉ [c] := fun hmem => hdigits
        (List.mem_cons.mpr (.inl (List.mem_singleton.mp hmem)))
    have hsplit : d.mantissa = [c] ++ 46 :: (c' :: cs) := hm
    rw [hsplit, readMantissa_point hc, List.singleton_append, ← hi, decVal_itoa, hi]
    rfl

theorem readUnsigned_mantissa {d : Decimal} {e : Bytes} (h : readExponent e = d.point - 1) :
    readUnsigned (d.mantissa ++ 101 :: e) = d := by
  have hlen := itoa_length_pos d.digits
  rw [readUnsigned_exponent d.not_mem_mantissa, readMantissa_mantissa, h]
  have hexp : d.point - 1 - ((itoa d.digits).length - 1 : Nat) = d.exp := by
    rw [← d.point_sub_length]
    omega
  rw [hexp]

theorem decVal_expDigits (n : Nat) : decVal (expDigits n) = n := by
  unfold expDigits
  split
  · exact (decVal_zeros_append 1 _).trans (decVal_itoa n)
  · exact decVal_itoa n

theorem readUnsigned_scientific (d : Decimal) : readUnsigned d.scientific = d := by
  refine readUnsigned_mantissa ?_
  split
  · rw [readExponent, decVal_expDigits]
    omega
  · rw [readExponent, decVal_expDigits]
    omega

theorem readUnsigned_point {i f : Bytes} (hi : 46 ∉ i) (hie : 101 ∉ i) (hf : 101 ∉ f) :
    readUnsigned (i ++ 46 :: f) = ⟨decVal (i ++ f), -(f.length : Int)⟩ := by
  have hmem : 101 ∉ i ++ 46 :: f := by
    simp only [List.mem_append, List.mem_cons, not_or]
    exact ⟨hie, by decide, hf⟩
  rw [readUnsigned_plain hmem, readMantissa_point hi]

theorem mag_readUnsigned_fixed (d : Decimal) : (readUnsigned d.fixed).mag = d.mag := by
  have hpoint := d.point_sub_length
  have h46 := not_mem_itoa (c := 46) rfl d.digits
  have h101 := not_mem_itoa (c := 101) rfl d.digits
  unfold fixed
  split
  · have hf : 101 ∉ zeros (-d.point).toNat ++ itoa d.digits := by
      rw [List.mem_append, not_or]
      exact ⟨not_mem_zeros rfl _, h101⟩
    have hread := readUnsigned_point (i := [48]) (by decide) (by decide) hf
    rw [List.singleton_append] at hread
    change (readUnsigned (48 :: 46 :: (zeros (-d.point).toNat ++ itoa d.digits))).mag = _
    rw [hread]
    change (Decimal.mk (decVal (zeros 1 ++ (zeros (-d.point).toNat ++ itoa d.digits))) _).mag = _
    rw [decVal_zeros_append, decVal_zeros_append, decVal_itoa, List.length_append, zeros,
      List.length_replicate]
    congr 2
    omega
  · split
    · rw [readUnsigned_point (fun h => h46 (List.mem_of_mem_take h))
        (fun h => h101 (List.mem_of_mem_take h)) (fun h => h101 (List.mem_of_mem_drop h)),
        List.take_append_drop, decVal_itoa, List.length_drop]
      congr 2
      omega
    · have h46' : 46 ∉ itoa d.digits ++ zeros d.exp.toNat := by
        rw [List.mem_append, not_or]
        exact ⟨h46, not_mem_zeros rfl _⟩
      have h101' : 101 ∉ itoa d.digits ++ zeros d.exp.toNat := by
        rw [List.mem_append, not_or]
        exact ⟨h101, not_mem_zeros rfl _⟩
      rw [readUnsigned_plain h101', readMantissa_whole h46', decVal_append_zeros, decVal_itoa]
      refine mag_congr ?_
      rw [num, den, num, den, show (-d.exp).toNat = 0 by omega]
      simp

theorem mag_readUnsigned_whole {d : Decimal} (h : 0 ≤ d.exp) :
    (readUnsigned (d.fixed ++ [46, 48])).mag = d.mag := by
  have hlen := itoa_length_pos d.digits
  have hpoint := d.point_sub_length
  have h46 : 46 ∉ itoa d.digits ++ zeros d.exp.toNat := by
    rw [List.mem_append, not_or]
    exact ⟨not_mem_itoa rfl _, not_mem_zeros rfl _⟩
  have h101 : 101 ∉ itoa d.digits ++ zeros d.exp.toNat := by
    rw [List.mem_append, not_or]
    exact ⟨not_mem_itoa rfl _, not_mem_zeros rfl _⟩
  rw [fixed, if_neg (by omega), if_neg (by omega), readUnsigned_point h46 h101 (by decide)]
  have hval : decVal (itoa d.digits ++ zeros d.exp.toNat ++ [48]) =
      d.digits * 10 ^ d.exp.toNat * 10 := by
    rw [decVal_append, decVal_append_zeros, decVal_itoa]
    rfl
  rw [hval]
  refine mag_congr ?_
  rw [num, den, num, den, show (-d.exp).toNat = 0 by omega]
  simp

end Decimal

theorem parseFloat_pyFloat (x : Double) : parseFloat (pyFloat x) = some x := by
  have hmag := mag_shortest x.isMag
  unfold pyFloat
  simp only
  split
  · rw [parseFloat_sign (Decimal.leads_scientific _), Decimal.readUnsigned_scientific]
    exact x.read_shortest
  · split
    · rw [parseFloat_sign (Decimal.leads_fixed _)]
      exact Double.read_eq rfl ((Decimal.mag_readUnsigned_fixed _).trans hmag)
    · next hexp =>
      rw [parseFloat_sign ((Decimal.leads_fixed _).append _)]
      exact Double.read_eq rfl ((Decimal.mag_readUnsigned_whole (not_lt.mp hexp)).trans hmag)

theorem dropExpZero_cut (a : Bytes) (c : UInt8) :
    dropExpZero (a ++ [101, 45, 48, c]) = a ++ [101, 45, c] := by
  simp [dropExpZero]

theorem dropExpZero_keep {a ds : Bytes} {s : UInt8} (hds : ∀ c ∈ ds, isDigit c = true)
    (hlen : 2 ≤ ds.length) (hs : s = 45 → ∀ c, ds ≠ [48, c]) :
    dropExpZero (a ++ 101 :: s :: ds) = a ++ 101 :: s :: ds := by
  unfold dropExpZero
  split
  · next c r heq =>
    exfalso
    have hrev : ds.reverse ++ s :: 101 :: a.reverse = c :: 48 :: 45 :: 101 :: r := by
      rw [← heq]
      simp
    obtain ⟨x, y, rest, hx⟩ : ∃ x y rest, ds.reverse = x :: y :: rest := by
      rw [← List.length_reverse] at hlen
      match ds.reverse, hlen with
      | x :: y :: rest, _ => exact ⟨x, y, rest, rfl⟩
    rw [hx] at hrev
    simp only [List.cons_append, List.cons.injEq] at hrev
    obtain ⟨rfl, rfl, hrest⟩ := hrev
    cases rest with
    | nil =>
      refine hs (List.cons.inj hrest).1 x ?_
      rw [← List.reverse_reverse ds, hx]
      rfl
    | cons z rest =>
      have hz : isDigit z = true := by
        refine hds z (List.mem_reverse.mp ?_)
        rw [hx]
        simp
      rw [(List.cons.inj hrest).1] at hz
      cases hz
  · rfl

namespace Decimal

theorem isDigit_of_mem_expDigits (h : c ∈ expDigits n) : isDigit c = true := by
  unfold expDigits at h
  split at h
  · obtain rfl | h := List.mem_cons.mp h
    · rfl
    · exact isDigit_of_mem_itoa h
  · exact isDigit_of_mem_itoa h

theorem itoa_of_lt (hn : n < 10) : itoa n = [digit n] := by
  unfold itoa
  split
  · next h => rw [h]
  · next h => rw [Nat.digits_of_lt 10 n h hn]; rfl

theorem two_le_itoa_length (hn : 10 ≤ n) : 2 ≤ (itoa n).length := by
  have hlt := lt_pow_itoa_length n
  by_contra hlen
  have hpow : 10 ^ (itoa n).length ≤ 10 ^ 1 := Nat.pow_le_pow_right (by decide) (by omega)
  omega

theorem two_le_expDigits_length (n : Nat) : 2 ≤ (expDigits n).length := by
  unfold expDigits
  split
  · have := itoa_length_pos n
    rw [List.length_cons]
    omega
  · exact two_le_itoa_length (by omega)

/-- The exponent of a text of `encoding/json`. -/
def goExponent (d : Decimal) : Bytes :=
  if d.point - 1 < 0 then 45 :: itoa (d.point - 1).natAbs else 43 :: expDigits (d.point - 1).natAbs

theorem dropExpZero_scientific (a : Bytes) (d : Decimal) :
    dropExpZero (a ++ d.scientific) = a ++ (d.mantissa ++ 101 :: d.goExponent) := by
  unfold scientific goExponent
  split
  · rw [← List.append_assoc, ← List.append_assoc]
    by_cases hn : (d.point - 1).natAbs < 10
    · rw [expDigits, if_pos hn, itoa_of_lt hn]
      exact dropExpZero_cut _ _
    · rw [expDigits, if_neg hn]
      refine dropExpZero_keep (fun c hc => isDigit_of_mem_itoa hc)
        (two_le_itoa_length (by omega)) ?_
      intro _ c hc
      have hval := decVal_itoa (d.point - 1).natAbs
      have hdigit : isDigit c = true :=
        isDigit_of_mem_itoa (n := (d.point - 1).natAbs) (by rw [hc]; simp)
      have hle : c.toNat ≤ 57 := by
        simp only [isDigit, Bool.and_eq_true, decide_eq_true_eq] at hdigit
        exact hdigit.2
      rw [hc] at hval
      change 10 * 0 + (c.toNat - 48) = _ at hval
      omega
  · rw [← List.append_assoc]
    refine dropExpZero_keep (fun c hc => isDigit_of_mem_expDigits hc) (two_le_expDigits_length _) ?_
    intro h
    cases h

theorem readUnsigned_goExponent (d : Decimal) :
    readUnsigned (d.mantissa ++ 101 :: d.goExponent) = d := by
  refine readUnsigned_mantissa ?_
  unfold goExponent
  split
  · rw [readExponent, decVal_itoa]
    omega
  · rw [readExponent, decVal_expDigits]
    omega

end Decimal

theorem parseFloat_goFloat (x : Double) : parseFloat (goFloat x) = some x := by
  have hmag := mag_shortest x.isMag
  unfold goFloat
  simp only
  split
  · rw [Decimal.dropExpZero_scientific, parseFloat_sign ((Decimal.leads_mantissa _).append _),
      Decimal.readUnsigned_goExponent]
    exact x.read_shortest
  · rw [parseFloat_sign (Decimal.leads_fixed _)]
    exact Double.read_eq rfl ((Decimal.mag_readUnsigned_fixed _).trans hmag)

theorem goFloat_injective : Function.Injective goFloat := by
  intro x y h
  have hx := parseFloat_goFloat x
  rw [h, parseFloat_goFloat] at hx
  exact (Option.some.inj hx).symm

theorem pyFloat_injective : Function.Injective pyFloat := by
  intro x y h
  have hx := parseFloat_pyFloat x
  rw [h, parseFloat_pyFloat] at hx
  exact (Option.some.inj hx).symm

theorem parseFloat_intText (n : Int) :
    parseFloat (intText n) = Double.read (n < 0) ⟨n.natAbs, 0⟩ := by
  rw [intText, parseFloat_sign (leads_itoa _), readUnsigned_plain (not_mem_itoa rfl _),
    readMantissa_whole (not_mem_itoa rfl _), decVal_itoa]
  rfl

/-! ## The bytes of a number -/

theorem isNumberByte_of_isDigit (h : isDigit c = true) : isNumberByte c = true := by
  rw [isNumberByte, h]
  rfl

theorem numberBytes_sign (neg : Bool) : ∀ c ∈ signText neg, isNumberByte c = true := by
  cases neg with
  | false => exact List.forall_mem_nil _
  | true => exact List.forall_mem_singleton.mpr rfl

theorem numberBytes_itoa (n : Nat) : ∀ c ∈ itoa n, isNumberByte c = true :=
  fun _ hc => isNumberByte_of_isDigit (isDigit_of_mem_itoa hc)

theorem numberBytes_zeros (n : Nat) : ∀ c ∈ zeros n, isNumberByte c = true := by
  intro c hc
  rw [List.eq_of_mem_replicate hc]
  rfl

theorem numberBytes_fixed (d : Decimal) : ∀ c ∈ d.fixed, isNumberByte c = true := by
  have hi := numberBytes_itoa d.digits
  unfold Decimal.fixed
  split
  · rw [List.forall_mem_append, List.forall_mem_append]
    exact ⟨⟨List.all_eq_true.mp rfl, numberBytes_zeros _⟩, hi⟩
  · split
    · rw [List.forall_mem_append, List.forall_mem_cons]
      exact ⟨fun c hc => hi c (List.mem_of_mem_take hc), by decide,
        fun c hc => hi c (List.mem_of_mem_drop hc)⟩
    · rw [List.forall_mem_append]
      exact ⟨hi, numberBytes_zeros _⟩

theorem numberBytes_mantissa (d : Decimal) : ∀ c ∈ d.mantissa, isNumberByte c = true := by
  have hi := numberBytes_itoa d.digits
  obtain ⟨c, hd, hm⟩ | ⟨c, c', cs, hd, hm⟩ := d.mantissa_cases
  · rwa [hm, ← hd]
  · rw [hd, List.forall_mem_cons] at hi
    rw [hm, List.forall_mem_cons, List.forall_mem_cons]
    exact ⟨hi.1, by decide, hi.2⟩

theorem numberBytes_expDigits (n : Nat) : ∀ c ∈ Decimal.expDigits n, isNumberByte c = true :=
  fun _ hc => isNumberByte_of_isDigit (Decimal.isDigit_of_mem_expDigits hc)

theorem numberBytes_scientific (d : Decimal) : ∀ c ∈ d.scientific, isNumberByte c = true := by
  unfold Decimal.scientific
  rw [List.forall_mem_append, List.forall_mem_cons, List.forall_mem_cons]
  exact ⟨numberBytes_mantissa d, by decide, by split <;> decide, numberBytes_expDigits _⟩

theorem numberBytes_goFloat (x : Double) : ∀ c ∈ goFloat x, isNumberByte c = true := by
  unfold goFloat
  simp only
  split
  · rw [Decimal.dropExpZero_scientific, List.forall_mem_append, List.forall_mem_append,
      List.forall_mem_cons]
    refine ⟨numberBytes_sign _, numberBytes_mantissa _, by decide, ?_⟩
    unfold Decimal.goExponent
    split
    · rw [List.forall_mem_cons]
      exact ⟨by decide, numberBytes_itoa _⟩
    · rw [List.forall_mem_cons]
      exact ⟨by decide, numberBytes_expDigits _⟩
  · rw [List.forall_mem_append]
    exact ⟨numberBytes_sign _, numberBytes_fixed _⟩

theorem numberBytes_pyFloat (x : Double) : ∀ c ∈ pyFloat x, isNumberByte c = true := by
  unfold pyFloat
  rw [List.forall_mem_append]
  refine ⟨numberBytes_sign _, ?_⟩
  split
  · exact numberBytes_scientific _
  · split
    · exact numberBytes_fixed _
    · rw [List.forall_mem_append]
      exact ⟨numberBytes_fixed _, List.all_eq_true.mp rfl⟩

theorem signText_append_ne_nil (h : Leads t) (neg : Bool) : signText neg ++ t ≠ [] := by
  obtain ⟨c, r, rfl, -⟩ := h
  simp

theorem goFloat_ne_nil (x : Double) : goFloat x ≠ [] := by
  unfold goFloat
  simp only
  split
  · rw [Decimal.dropExpZero_scientific]
    exact signText_append_ne_nil ((Decimal.leads_mantissa _).append _) _
  · exact signText_append_ne_nil (Decimal.leads_fixed _) _

theorem pyFloat_ne_nil (x : Double) : pyFloat x ≠ [] := by
  unfold pyFloat
  simp only
  split
  · exact signText_append_ne_nil (Decimal.leads_scientific _) _
  · split
    · exact signText_append_ne_nil (Decimal.leads_fixed _) _
    · exact signText_append_ne_nil ((Decimal.leads_fixed _).append _) _

theorem numberBytes_intText (n : Int) : ∀ c ∈ intText n, isNumberByte c = true := by
  rw [intText, List.forall_mem_append]
  exact ⟨numberBytes_sign _, numberBytes_itoa _⟩

theorem pyFloat_ne_intText (x : Double) (n : Int) : pyFloat x ≠ intText n := by
  intro h
  have hplain : ∀ c, isDigit c = false → c ≠ 45 → c ∉ intText n := by
    intro c hc h45
    rw [intText, List.mem_append, not_or]
    refine ⟨?_, not_mem_itoa hc _⟩
    intro hmem
    unfold signText at hmem
    split at hmem
    · exact h45 (List.mem_singleton.mp hmem)
    · cases hmem
  have h46 := hplain 46 rfl (by decide)
  have h101 := hplain 101 rfl (by decide)
  rw [← h, pyFloat] at h46 h101
  simp only [List.mem_append, not_or] at h46 h101
  by_cases hexp : (shortest x.mag).point ≤ -4 ∨ 16 < (shortest x.mag).point
  · rw [if_pos hexp] at h101
    exact h101.2 (by rw [Decimal.scientific]; simp)
  · rw [if_neg hexp] at h46
    by_cases hneg : (shortest x.mag).exp < 0
    · rw [if_pos hneg, Decimal.fixed] at h46
      refine h46.2 ?_
      split <;> simp
    · rw [if_neg hneg] at h46
      exact h46.2 (by simp)

theorem intText_injective : Function.Injective intText := by
  intro n m h
  have hsplit := congrArg readSign h
  rw [intText, intText, readSign_sign (leads_itoa _), readSign_sign (leads_itoa _)] at hsplit
  obtain ⟨hsign, habs⟩ := Prod.mk.inj hsplit
  have habs := itoa_injective habs
  have hsign : n < 0 ↔ m < 0 := decide_eq_decide.mp hsign
  omega

/-! ## Where the two languages agree -/

theorem mag_pow_le_iff {m : Nat} (hm : IsMag m) (h0 : m ≠ 0) {k : Int} (hlow : -22 ≤ k)
    (hhigh : k ≤ 22) : (Decimal.mk 1 k).mag ≤ m ↔ k < (shortest m).point := by
  have hmag := mag_shortest hm
  have hpos := digits_shortest_pos hm h0
  have hlen := itoa_length_pos (shortest m).digits
  have hpoint := (shortest m).point_sub_length
  constructor
  · -- otherwise the power of ten is read as the same double, and it has the larger exponent
    intro hle
    by_contra hgt
    have hbelow : (shortest m).num * (Decimal.mk 1 k).den ≤
        (Decimal.mk 1 k).num * (shortest m).den := by
      change (shortest m).digits * 10 ^ (shortest m).exp.toNat * 10 ^ (-k).toNat ≤
        1 * 10 ^ k.toNat * 10 ^ (-(shortest m).exp).toNat
      calc _ ≤ 10 ^ (itoa (shortest m).digits).length * 10 ^ (shortest m).exp.toNat *
            10 ^ (-k).toNat :=
            Nat.mul_le_mul_right _ (Nat.mul_le_mul_right _ (lt_pow_itoa_length _).le)
        _ ≤ 10 ^ k.toNat * 10 ^ (-(shortest m).exp).toNat := by
            rw [← Nat.pow_add, ← Nat.pow_add, ← Nat.pow_add]
            exact Nat.pow_le_pow_right (by decide) (by omega)
        _ = _ := by rw [Nat.one_mul]
    have hsame : (Decimal.mk 1 k).mag = m := hle.antisymm (hmag ▸ Decimal.mag_mono hbelow)
    have hexp := le_exp_shortest h0 hsame (by have := unitBits_eq; change _ ≤ k; omega)
      (by change k ≤ _; omega)
    change k ≤ _ at hexp
    omega
  · intro hlt
    rw [← hmag]
    refine Decimal.mag_mono ?_
    change 1 * 10 ^ k.toNat * 10 ^ (-(shortest m).exp).toNat ≤
      (shortest m).digits * 10 ^ (shortest m).exp.toNat * 10 ^ (-k).toNat
    calc _ = 10 ^ k.toNat * 10 ^ (-(shortest m).exp).toNat := by rw [Nat.one_mul]
      _ ≤ 10 ^ ((itoa (shortest m).digits).length - 1) * 10 ^ (shortest m).exp.toNat *
          10 ^ (-k).toNat := by
          rw [← Nat.pow_add, ← Nat.pow_add, ← Nat.pow_add]
          exact Nat.pow_le_pow_right (by decide) (by omega)
      _ ≤ _ := Nat.mul_le_mul_right _ (Nat.mul_le_mul_right _ (pow_le_of_itoa_length hpos.ne'))

theorem point_le_of_fraction {m : Nat} (hm : IsMag m) (h0 : m ≠ 0) (h : (shortest m).exp < 0) :
    (shortest m).point ≤ 16 := by
  by_contra hgt
  have hle := (mag_pow_le_iff hm h0 (k := 16) (by decide) (by decide)).mpr (by omega)
  have hmag : (Decimal.mk 1 16).mag = 10 ^ 16 * magOne := by
    rw [← mag_whole (n := 10 ^ 16) (c := 5 ^ 16) (s := 16) (by decide) (by decide)]
    exact Decimal.mag_congr (by decide)
  rw [hmag] at hle
  have hdvd : magOne ∣ roundQuot m 1 := by
    refine magOne_dvd_roundQuot ?_
    rw [Nat.div_one]
    exact (Nat.mul_le_mul_right _ (by decide)).trans hle
  rw [hm, ← exp_shortest_nonneg_iff hm h0] at hdvd
  omega

theorem Decimal.not_mem_fixed (d : Decimal) : 101 ∉ d.fixed := by
  have h101 := not_mem_itoa (c := 101) rfl d.digits
  have hzeros := fun n => not_mem_zeros (c := 101) rfl n
  unfold fixed
  split
  · simp only [List.mem_append, not_or]
    exact ⟨⟨by decide, hzeros _⟩, h101⟩
  · split
    · simp only [List.mem_append, List.mem_cons, not_or]
      exact ⟨fun h => h101 (List.mem_of_mem_take h), by decide, fun h =>
        h101 (List.mem_of_mem_drop h)⟩
    · simp only [List.mem_append, not_or]
      exact ⟨h101, hzeros _⟩

theorem Decimal.fixed_ne_scientific (d : Decimal) : d.fixed ≠ d.scientific := by
  intro h
  refine d.not_mem_fixed ?_
  rw [h, scientific]
  simp

/-- The two texts of a double are the same when it has a fraction and its exponent is no single
negative digit, or when it is large. -/
theorem goFloat_eq_pyFloat_iff (x : Double) : goFloat x = pyFloat x ↔
    (¬ magOne ∣ x.mag ∧ ((Decimal.mk 1 (-4)).mag ≤ x.mag ∨ x.mag < (Decimal.mk 1 (-9)).mag)) ∨
      (Decimal.mk 1 21).mag ≤ x.mag := by
  by_cases h0 : x.mag = 0
  · have hshort : shortest 0 = ⟨0, 0⟩ := rfl
    have hpos : 0 < (Decimal.mk 1 21).mag := by decide +kernel
    have hgo : goFloat x = signText x.neg ++ [48] := by
      rw [goFloat, h0, hshort]
      rfl
    have hpy : pyFloat x = signText x.neg ++ [48, 46, 48] := by
      rw [pyFloat, h0, hshort]
      rfl
    rw [hgo, hpy, List.append_cancel_left_eq, h0]
    constructor
    · intro h
      cases h
    · rintro (⟨hdvd, -⟩ | hle)
      · exact absurd (Nat.dvd_zero _) hdvd
      · omega
  · have hm := x.isMag
    have hlow := not_congr (mag_pow_le_iff hm h0 (k := -6) (by decide) (by decide))
    have hhigh := mag_pow_le_iff hm h0 (k := 21) (by decide) (by decide)
    have hlow' := mag_pow_le_iff hm h0 (k := -4) (by decide) (by decide)
    have hlow'' := mag_pow_le_iff hm h0 (k := -9) (by decide) (by decide)
    have hwhole := exp_shortest_nonneg_iff hm h0
    have hfrac := fun h => point_le_of_fraction hm h0 h
    have hlen := itoa_length_pos (shortest x.mag).digits
    have hpoint := (shortest x.mag).point_sub_length
    rw [Nat.not_le] at hlow
    rw [← Nat.not_le, hlow', hlow'', ← hwhole, goFloat, pyFloat]
    simp only [hlow, hhigh]
    generalize shortest x.mag = d at *
    by_cases hsmall : -6 < d.point
    · by_cases hbig : 21 < d.point
      · -- both write an exponent, and it is positive
        simp only [h0, hbig, ne_eq, not_false_eq_true, or_true, and_self, if_true]
        rw [if_pos (.inr (by omega)), Decimal.dropExpZero_scientific, Decimal.scientific,
          Decimal.goExponent, if_neg (by omega), if_neg (by omega)]
        exact iff_of_true rfl trivial
      · simp only [h0, hsmall, hbig, ne_eq, not_false_eq_true, not_true_eq_false, or_false,
          and_false, if_false]
        by_cases hexp : d.point ≤ -4 ∨ 16 < d.point
        · -- Python alone writes an exponent
          rw [if_pos hexp, List.append_cancel_left_eq]
          refine iff_of_false d.fixed_ne_scientific ?_
          rintro ⟨hneg, hle | hlt⟩
          · have := hfrac (not_le.mp hneg)
            omega
          · omega
        · rw [if_neg hexp]
          by_cases hneg : d.exp < 0
          · rw [if_pos hneg]
            exact iff_of_true rfl ⟨by omega, .inl (by omega)⟩
          · rw [if_neg hneg, List.append_cancel_left_eq]
            refine iff_of_false ?_ fun h => h.1 (not_lt.mp hneg)
            intro h
            have := congrArg List.length h
            rw [List.length_append] at this
            simp at this
    · -- both write an exponent, Go without a leading zero
      simp only [h0, hsmall, ne_eq, not_false_eq_true, true_or, and_self, if_true]
      rw [if_pos (.inl (by omega)), Decimal.dropExpZero_scientific, Decimal.scientific,
        Decimal.goExponent, if_pos (by omega), if_pos (by omega), List.append_cancel_left_eq,
        List.append_cancel_left_eq, List.cons.injEq, List.cons.injEq, Decimal.expDigits]
      by_cases hdigit : (d.point - 1).natAbs < 10
      · rw [if_pos hdigit]
        refine iff_of_false ?_ ?_
        · rintro ⟨-, -, h⟩
          have := congrArg List.length h
          simp at this
        · omega
      · rw [if_neg hdigit]
        exact iff_of_true ⟨rfl, rfl, rfl⟩ (.inl ⟨by omega, .inr (by omega)⟩)

/-- A whole number that no other is read as is written by its digits, without an
exponent. -/
theorem fixed_whole {x : Double} (h0 : n ≠ 0) (hx : x.mag = n * magOne) (hn : Alone n) :
    (shortest x.mag).fixed = itoa n := by
  have hmag0 : x.mag ≠ 0 := by
    rw [hx]
    exact Nat.mul_ne_zero h0 magOne_pos.ne'
  have hexp : 0 ≤ (shortest x.mag).exp := by
    rw [exp_shortest_nonneg_iff x.isMag hmag0, hx]
    exact Nat.dvd_mul_left _ _
  have hdigits := digits_shortest_pos x.isMag hmag0
  have hlen := itoa_length_pos (shortest x.mag).digits
  have hpoint := (shortest x.mag).point_sub_length
  have hden : (shortest x.mag).den = 1 := by
    rw [Decimal.den, Int.toNat_of_nonpos (by omega), Nat.pow_zero]
  -- the shortest decimal is a whole number, and `n` is the only one
  have hvalue : (shortest x.mag).digits * 10 ^ (shortest x.mag).exp.toNat = n := by
    refine hn _ (Nat.eq_of_mul_eq_mul_right magOne_pos ?_)
    rw [hn.exact, ← mag_whole_number, ← hx]
    refine (Decimal.mag_congr ?_).trans (mag_shortest x.isMag)
    rw [hden]
    change _ * 1 * 1 = (shortest x.mag).num * 1
    rw [Decimal.num, Nat.mul_one]
  rw [Decimal.fixed, if_neg (by omega), if_neg (by omega), ← itoa_mul_pow hdigits, hvalue]

/-- Go writes a whole number by its digits, when no other is read as the same double. -/
theorem goFloat_whole {x : Double} (hx : x.mag = n * magOne) (hn : Alone n) :
    goFloat x = signText x.neg ++ itoa n := by
  by_cases h0 : n = 0
  · have hmag : x.mag = 0 := by rw [hx, h0, Nat.zero_mul]
    rw [goFloat, hmag, h0]
    rfl
  · have hmag0 : x.mag ≠ 0 := by
      rw [hx]
      exact Nat.mul_ne_zero h0 magOne_pos.ne'
    have hbound : n < 2 ^ 54 := by obtain h | h := alone_iff.mp hn <;> omega
    have hlow : (Decimal.mk 1 (-6)).mag ≤ x.mag := by
      calc _ ≤ (Decimal.mk n 0).mag :=
            Decimal.mag_mono (by simp only [Decimal.num, Decimal.den]; simp; omega)
        _ = x.mag := by rw [mag_whole_number, hn.exact, hx]
    have hhigh : x.mag < (Decimal.mk 1 21).mag := by
      have htop : (Decimal.mk 1 21).mag = 10 ^ 21 * magOne := by
        rw [← mag_whole (n := 10 ^ 21) (c := 5 ^ 21) (s := 21) (by decide) (by decide)]
        exact Decimal.mag_congr (by decide)
      rw [htop, hx]
      exact Nat.mul_lt_mul_of_pos_right (by omega) magOne_pos
    unfold goFloat
    simp only
    rw [if_neg (by omega), fixed_whole h0 hx hn]

/-- `%v` of a whole number is its text when it has at most six digits, and has an exponent
otherwise. -/
theorem goVerb_whole {n : Int} {x : Double} (h : parseFloat (intText n) = some x) :
    if n.natAbs < 10 ^ 6 then goVerb x = intText n else 101 ∈ goVerb x := by
  rw [parseFloat_intText] at h
  obtain ⟨hneg, hmag⟩ := Double.read_eq_some h
  have hmillion : (Decimal.mk 1 6).mag = 10 ^ 6 * magOne := by
    rw [← mag_whole (n := 10 ^ 6) (c := 5 ^ 6) (s := 6) (by decide) (by decide)]
    exact Decimal.mag_congr (by decide)
  split
  · next hsmall =>
    have hsmall' : n.natAbs < 2 ^ 53 := hsmall.trans (by decide)
    have hx : x.mag = n.natAbs * magOne := by rw [← hmag, mag_whole_number, roundQuot_small hsmall']
    by_cases h0 : n.natAbs = 0
    · have hzero : x.mag = 0 := by rw [hx, h0, Nat.zero_mul]
      rw [goVerb, intText, hneg, hzero, h0]
      rfl
    · have hmag0 : x.mag ≠ 0 := by
        rw [hx]
        exact Nat.mul_ne_zero h0 magOne_pos.ne'
      have hone : (Decimal.mk 1 0).mag = magOne := by
        rw [mag_whole_number, roundQuot_small (by decide), Nat.one_mul]
      have hlow : 0 < (shortest x.mag).point := by
        rw [← mag_pow_le_iff x.isMag hmag0 (by decide) (by decide), hone, hx]
        exact Nat.le_mul_of_pos_left _ (Nat.pos_of_ne_zero h0)
      have hhigh : ¬ 6 < (shortest x.mag).point := by
        rw [← mag_pow_le_iff x.isMag hmag0 (by decide) (by decide), hmillion, hx, Nat.not_le]
        exact Nat.mul_lt_mul_of_pos_right hsmall magOne_pos
      rw [goVerb, if_neg (by omega), fixed_whole h0 hx (alone_iff.mpr (.inl hsmall')), hneg,
        intText]
  · next hlarge =>
    have hge : 10 ^ 6 * magOne ≤ x.mag := by
      have htext : (Decimal.mk (10 ^ 6) 0).mag = 10 ^ 6 * magOne := by
        rw [mag_whole_number, roundQuot_small (by decide)]
      rw [← htext, ← hmag]
      exact Decimal.mag_mono_digits 0 (Nat.not_lt.mp hlarge)
    have hmag0 : x.mag ≠ 0 := (Nat.lt_of_lt_of_le (Nat.mul_pos (by decide) magOne_pos) hge).ne'
    have hpoint : 6 < (shortest x.mag).point := by
      rw [← mag_pow_le_iff x.isMag hmag0 (by decide) (by decide), hmillion]
      exact hge
    rw [goVerb, if_pos (.inr (by omega)), Decimal.scientific]
    simp

theorem not_mem_intText (n : Int) : 101 ∉ intText n := by
  rw [intText, List.mem_append, not_or]
  refine ⟨?_, not_mem_itoa rfl _⟩
  rw [signText]
  split <;> decide

end Windrose.Foundation

/-
  Foundation/Double.lean --- whole numbers as binary64.

  A double keeps 53 significant bits, so a larger whole number is read as a
  neighbour: the nearest multiple of a power of two, the even one of two.  The
  reading keeps the order of two numbers, but may take them for the same.  A quotient
  of two whole numbers is rounded in the same way (`trueDiv`).
-/
import Mathlib.Algebra.Order.Ring.Int
import Mathlib.Data.Nat.Log

set_option autoImplicit false

namespace Windrose.Foundation

/-! ## Rounding -/

/-- The multiple of `2 ^ e` that is nearest to `n`, ties to even. -/
def roundTo (e n : Nat) : Nat :=
  if 2 * (n % 2 ^ e) < 2 ^ e ∨ 2 * (n % 2 ^ e) = 2 ^ e ∧ n / 2 ^ e % 2 = 0 then n / 2 ^ e * 2 ^ e
  else (n / 2 ^ e + 1) * 2 ^ e

/-- A natural number as a double: the bits after the first 53 are rounded. -/
def natToDouble (n : Nat) : Nat := roundTo (Nat.log 2 n - 52) n

/-- A whole number as a double. -/
def toDouble : Int → Int
  | .ofNat n => natToDouble n
  | .negSucc n => -(natToDouble (n + 1) : Int)

theorem le_roundTo (e n : Nat) : n / 2 ^ e * 2 ^ e ≤ roundTo e n := by
  unfold roundTo
  split
  · exact le_rfl
  · exact Nat.mul_le_mul_right _ (Nat.le_succ _)

theorem roundTo_le (e n : Nat) : roundTo e n ≤ (n / 2 ^ e + 1) * 2 ^ e := by
  unfold roundTo
  split
  · exact Nat.mul_le_mul_right _ (Nat.le_succ _)
  · exact le_rfl

theorem roundTo_mono (e : Nat) : Monotone (roundTo e) := by
  intro n m hnm
  have hq : n / 2 ^ e ≤ m / 2 ^ e := Nat.div_le_div_right hnm
  obtain hlt | heq := Nat.lt_or_eq_of_le hq
  · calc roundTo e n ≤ (n / 2 ^ e + 1) * 2 ^ e := roundTo_le e n
      _ ≤ m / 2 ^ e * 2 ^ e := Nat.mul_le_mul_right _ hlt
      _ ≤ roundTo e m := le_roundTo e m
  · -- The same multiple below: the remainders decide, and rounding up is upward closed.
    have hn := Nat.div_add_mod n (2 ^ e)
    have hm := Nat.div_add_mod m (2 ^ e)
    have hr : n % 2 ^ e ≤ m % 2 ^ e := by
      rw [heq] at hn
      omega
    unfold roundTo
    rw [heq]
    split
    · split
      · exact le_rfl
      · exact Nat.mul_le_mul_right _ (Nat.le_succ _)
    · rw [if_neg]
      omega

/-! ## The order of the doubles -/

theorem natToDouble_le {n k : Nat} (h : n < 2 ^ k) : natToDouble n ≤ 2 ^ k := by
  by_cases hn : n = 0
  · subst hn
    exact Nat.zero_le _
  · have hlog : Nat.log 2 n < k := Nat.log_lt_of_lt_pow hn h
    have hsplit : 2 ^ k = 2 ^ (k - (Nat.log 2 n - 52)) * 2 ^ (Nat.log 2 n - 52) := by
      rw [← Nat.pow_add]
      congr 1
      omega
    have hq : n / 2 ^ (Nat.log 2 n - 52) < 2 ^ (k - (Nat.log 2 n - 52)) := by
      rw [Nat.div_lt_iff_lt_mul (Nat.two_pow_pos _), ← hsplit]
      exact h
    calc natToDouble n ≤ (n / 2 ^ (Nat.log 2 n - 52) + 1) * 2 ^ (Nat.log 2 n - 52) := roundTo_le _ n
      _ ≤ 2 ^ (k - (Nat.log 2 n - 52)) * 2 ^ (Nat.log 2 n - 52) := Nat.mul_le_mul_right _ hq
      _ = 2 ^ k := hsplit.symm

theorem le_natToDouble {n : Nat} (hn : n ≠ 0) : 2 ^ Nat.log 2 n ≤ natToDouble n := by
  have hpow : 2 ^ Nat.log 2 n ≤ n := Nat.pow_log_le_self 2 hn
  have hsplit : 2 ^ Nat.log 2 n =
      2 ^ (Nat.log 2 n - (Nat.log 2 n - 52)) * 2 ^ (Nat.log 2 n - 52) := by
    rw [← Nat.pow_add]
    congr 1
    omega
  have hq : 2 ^ (Nat.log 2 n - (Nat.log 2 n - 52)) ≤ n / 2 ^ (Nat.log 2 n - 52) := by
    rw [Nat.le_div_iff_mul_le (Nat.two_pow_pos _), ← hsplit]
    exact hpow
  calc 2 ^ Nat.log 2 n = 2 ^ (Nat.log 2 n - (Nat.log 2 n - 52)) * 2 ^ (Nat.log 2 n - 52) := hsplit
    _ ≤ n / 2 ^ (Nat.log 2 n - 52) * 2 ^ (Nat.log 2 n - 52) := Nat.mul_le_mul_right _ hq
    _ ≤ natToDouble n := le_roundTo _ n

theorem natToDouble_mono : Monotone natToDouble := by
  intro n m hnm
  have hlog : Nat.log 2 n ≤ Nat.log 2 m := Nat.log_mono_right hnm
  obtain hlt | heq := Nat.lt_or_eq_of_le hlog
  · have hm : m ≠ 0 := by
      rintro rfl
      rw [Nat.log_zero_right] at hlt
      exact Nat.not_lt_zero _ hlt
    calc natToDouble n ≤ 2 ^ (Nat.log 2 n + 1) :=
          natToDouble_le (Nat.lt_pow_succ_log_self Nat.one_lt_two n)
      _ ≤ 2 ^ Nat.log 2 m := Nat.pow_le_pow_right Nat.two_pos hlt
      _ ≤ natToDouble m := le_natToDouble hm
  · unfold natToDouble
    rw [heq]
    exact roundTo_mono _ hnm

theorem toDouble_mono {v w : Int} (hvw : v ≤ w) : toDouble v ≤ toDouble w := by
  cases v with
  | ofNat n =>
    cases w with
    | ofNat m => exact Int.ofNat_le.mpr (natToDouble_mono (Int.ofNat_le.mp hvw))
    | negSucc m => exact absurd hvw (Int.not_le.mpr (Int.negSucc_lt_zero m |>.trans_le (by simp)))
  | negSucc n =>
    cases w with
    | ofNat m =>
      have hneg : toDouble (.negSucc n) ≤ 0 := Int.neg_nonpos_of_nonneg (Int.natCast_nonneg _)
      exact hneg.trans (Int.natCast_nonneg _)
    | negSucc m =>
      have hmn : m + 1 ≤ n + 1 := by omega
      exact Int.neg_le_neg (Int.ofNat_le.mpr (natToDouble_mono hmn))

theorem natToDouble_of_lt {n : Nat} (h : n < 2 ^ 53) : natToDouble n = n := by
  have hlog : Nat.log 2 n - 52 = 0 := by
    have hlt := Nat.log_lt_of_lt_pow' (b := 2) (by decide : (53 : Nat) ≠ 0) h
    omega
  unfold natToDouble roundTo
  rw [hlog, Nat.pow_zero, Nat.mod_one, Nat.div_one, Nat.mul_one, if_pos (.inl (by decide))]

theorem toDouble_of_lt {v : Int} (hv : 0 ≤ v) (h : v < 2 ^ 53) : toDouble v = v := by
  obtain ⟨n, rfl⟩ := Int.eq_ofNat_of_zero_le hv
  have hn : n < 2 ^ 53 := by exact_mod_cast h
  show ((natToDouble n : Nat) : Int) = n
  rw [natToDouble_of_lt hn]

theorem le_of_toDouble_le {v w : Int} (hw : 0 ≤ w) (hbits : w < 2 ^ 53) (h : toDouble v ≤ w) :
    v ≤ w := by
  obtain hneg | hv := Int.lt_or_le v 0
  · omega
  · obtain hlt | hge := Int.lt_or_le v (2 ^ 53)
    · rwa [toDouble_of_lt hv hlt] at h
    · have htop : toDouble (2 ^ 53) = 2 ^ 53 := by decide
      have hmono := toDouble_mono hge
      omega

/-! ## Quotients -/

/-- The whole number nearest to `p / q`, ties to even. -/
def nearest (p q : Nat) : Nat :=
  if 2 * (p % q) < q ∨ 2 * (p % q) = q ∧ p / q % 2 = 0 then p / q else p / q + 1

/-- The double nearest to `n / d`: its last bit is 52 below its first. -/
def trueDiv (n : Int) (d : Nat) : Rat :=
  let lead : Int := (Nat.log 2 (n.natAbs * 2 ^ (Nat.log 2 d + 1) / d) : Int) - (Nat.log 2 d + 1)
  if lead ≤ 52 then
    mkRat (n.sign * nearest (n.natAbs * 2 ^ (52 - lead).toNat) d) (2 ^ (52 - lead).toNat)
  else (n.sign * nearest n.natAbs (d * 2 ^ (lead - 52).toNat) * 2 ^ (lead - 52).toNat : Int)

example : trueDiv 9500 100 = 95 ∧ trueDiv (-1) 2 = -1 / 2 ∧ trueDiv (2 ^ 60 + 1) 1 = 2 ^ 60 ∧
    trueDiv 1 3 < 1 / 3 := by
  decide +kernel

end Windrose.Foundation

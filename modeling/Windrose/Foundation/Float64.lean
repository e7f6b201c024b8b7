/-
  Foundation/Float64.lean --- all values of a `float64`, and their order.

  A finite double is compared by its units of 2^-1074.  A whole number is one exactly below
  2^53 (`Double.units_ofInt`); from there on it is rounded, so that a comparison of the
  doubles need not be one of the numbers.
-/
import Mathlib.Data.Int.ConditionallyCompleteOrder
import Windrose.Foundation.NumberText

set_option autoImplicit false

namespace Windrose.Foundation

namespace Double

/-- In units of 2^-1074, with the sign. -/
def units (x : Double) : Int := if x.neg then -x.mag else x.mag

/-- `float64` of a whole number: the nearest double, if it is finite. -/
def ofInt (n : Int) : Option Double := read (n < 0) ⟨n.natAbs, 0⟩

theorem mul_magOne_lt {n j k : Nat} (h : n < 2 ^ j) (hjk : j ≤ k) : n * magOne < 2 ^ k * magOne :=
  Nat.mul_lt_mul_of_pos_right (h.trans_le (Nat.pow_le_pow_right Nat.two_pos hjk)) magOne_pos

/-- The double that a small whole number is. -/
def whole (n : Int) (small : n.natAbs < 2 ^ 53) : Double where
  neg := n < 0
  mag := n.natAbs * magOne
  isMag := by
    rw [← mag_whole (c := n.natAbs) (s := 0) (by omega) small.le]
    exact Decimal.isMag_mag _
  finite := mul_magOne_lt small (by decide)

theorem ofInt_whole (n : Int) (small : n.natAbs < 2 ^ 53) : ofInt n = some (whole n small) :=
  read_eq rfl (mag_whole (c := n.natAbs) (s := 0) (by omega) small.le)

theorem exists_ofInt {n : Int} (h : n.natAbs ≤ 2 ^ 63) : ∃ x, ofInt n = some x := by
  have hmag : (Decimal.mk n.natAbs 0).mag ≤ 2 ^ 63 * magOne := by
    rw [← mag_whole (n := 2 ^ 63) (c := 1) (s := 63) (by decide) (by decide)]
    exact Decimal.mag_mono_digits 0 h
  have hlt : (Decimal.mk n.natAbs 0).mag < 2 ^ 1024 * magOne :=
    hmag.trans_lt (mul_magOne_lt (j := 64) (by decide) (by decide))
  exact ⟨⟨n < 0, (Decimal.mk n.natAbs 0).mag, Decimal.isMag_mag _, hlt⟩, read_eq rfl rfl⟩

end Double

/-- A `float64`. -/
inductive Float64 where
  | finite (x : Double)
  | nan
  | inf (neg : Bool)

namespace Float64

/-- `<`; a comparison with NaN is false. -/
def lt : Float64 → Float64 → Bool
  | .finite x, .finite y => x.units < y.units
  | .finite _, .inf neg => !neg
  | .inf neg, .finite _ => neg
  | .inf neg, .inf neg' => neg && !neg'
  | .nan, _ => false
  | _, .nan => false

/-- The place of a value that is not NaN. -/
def rank : Float64 → WithBot (WithTop Int)
  | .finite x => ((x.units : WithTop Int) : WithBot (WithTop Int))
  | .inf true => ⊥
  | .inf false => ((⊤ : WithTop Int) : WithBot (WithTop Int))
  | .nan => ⊥

theorem lt_iff_rank_lt {x y : Float64} (hx : x ≠ .nan) (hy : y ≠ .nan) :
    x.lt y = true ↔ x.rank < y.rank := by
  match x, y with
  | .nan, _ => exact absurd rfl hx
  | .finite _, .nan => exact absurd rfl hy
  | .inf _, .nan => exact absurd rfl hy
  | .finite x, .finite y => simp [lt, rank]
  | .finite x, .inf true => simp [lt, rank]
  | .finite x, .inf false => exact iff_of_true rfl (WithBot.coe_lt_coe.mpr (WithTop.coe_lt_top _))
  | .inf true, .finite y => simp [lt, rank]
  | .inf false, .finite y => simp [lt, rank]
  | .inf true, .inf true => simp [lt, rank]
  | .inf true, .inf false => simp [lt, rank]
  | .inf false, .inf true => simp [lt, rank]
  | .inf false, .inf false => simp [lt, rank]

end Float64

end Windrose.Foundation

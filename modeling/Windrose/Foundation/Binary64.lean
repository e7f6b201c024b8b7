/-
  Foundation/Binary64.lean --- binary64 numbers and their shortest decimals.

  A finite double is a sign and a whole number of units of 2^-1074, of which at most 53
  bits are significant.  A decimal is read as the double nearest to it
  (`Decimal.read`), and a double is printed as the decimal with the fewest digits that
  is read back as it (`shortest`): both Go and Python print floating point in this way
  and differ only in where they put the point.
-/
import Mathlib.Algebra.Order.Field.Basic
import Mathlib.Algebra.Order.Ring.Rat
import Mathlib.Tactic.Ring
import Windrose.Foundation.Double

set_option autoImplicit false

namespace Windrose.Foundation

/-! ## Rounding a quotient -/

/-- `p / q` with 53 significant bits. -/
def roundQuot (p q : Nat) : Nat :=
  nearest p (q * 2 ^ (Nat.log 2 (p / q) - 52)) * 2 ^ (Nat.log 2 (p / q) - 52)

theorem le_nearest (p q : Nat) : p / q ≤ nearest p q := by
  unfold nearest
  split <;> omega

theorem nearest_le (p q : Nat) : nearest p q ≤ p / q + 1 := by
  unfold nearest
  split <;> omega

variable {q p p' q' m n : Nat}

theorem nearest_mul (c : Nat) (hq : 0 < q) : nearest (c * q) q = c := by
  unfold nearest
  rw [Nat.mul_mod_left, Nat.mul_div_cancel _ hq, if_pos (.inl (by omega))]

theorem nearest_mono (hq : 0 < q) (hq' : 0 < q') (h : p * q' ≤ p' * q) :
    nearest p q ≤ nearest p' q' := by
  have hfloor : p / q ≤ p' / q' := by
    rw [Nat.le_div_iff_mul_le hq']
    refine Nat.le_of_mul_le_mul_right ?_ hq
    calc p / q * q' * q = p / q * q * q' := by ring
      _ ≤ p * q' := Nat.mul_le_mul_right _ (Nat.div_mul_le_self p q)
      _ ≤ p' * q := h
  obtain hlt | heq := Nat.lt_or_eq_of_le hfloor
  · exact ((nearest_le p q).trans hlt).trans (le_nearest p' q')
  · -- The same whole part: the remainders decide, and rounding up is upward closed.
    have hrem : p % q * q' ≤ p' % q' * q := by
      have hp : (q * (p / q) + p % q) * q' ≤ (q' * (p' / q') + p' % q') * q := by
        rwa [Nat.div_add_mod, Nat.div_add_mod]
      rw [heq, Nat.add_mul, Nat.add_mul] at hp
      have hsame : q * (p' / q') * q' = q' * (p' / q') * q := by ring
      omega
    have hhalf : ∀ {r r' : Nat}, r * q' ≤ r' * q → q < 2 * r → ¬ 2 * r' ≤ q' := by
      intro r r' hle hr hr'
      have h1 : q * q' < 2 * r * q' := Nat.mul_lt_mul_of_pos_right hr hq'
      have h2 : 2 * r' * q ≤ q' * q := Nat.mul_le_mul_right _ hr'
      have h3 : 2 * r * q' ≤ 2 * r' * q := by
        rw [Nat.mul_assoc, Nat.mul_assoc]
        exact Nat.mul_le_mul_left 2 hle
      have h4 : q * q' = q' * q := Nat.mul_comm _ _
      omega
    have hhalf' : ∀ {r r' : Nat}, r * q' ≤ r' * q → q ≤ 2 * r → ¬ 2 * r' < q' := by
      intro r r' hle hr hr'
      have h1 : q * q' ≤ 2 * r * q' := Nat.mul_le_mul_right _ hr
      have h2 : 2 * r' * q < q' * q := Nat.mul_lt_mul_of_pos_right hr' hq
      have h3 : 2 * r * q' ≤ 2 * r' * q := by
        rw [Nat.mul_assoc, Nat.mul_assoc]
        exact Nat.mul_le_mul_left 2 hle
      have h4 : q * q' = q' * q := Nat.mul_comm _ _
      omega
    unfold nearest
    rw [heq]
    by_cases hup : 2 * (p' % q') < q' ∨ 2 * (p' % q') = q' ∧ p' / q' % 2 = 0
    · rw [if_pos hup, if_pos]
      obtain hlt | ⟨htie, heven⟩ := hup
      · exact .inl (Nat.not_le.mp fun hle => hhalf' hrem hle hlt)
      · have hle : 2 * (p % q) ≤ q := Nat.not_lt.mp fun hgt => hhalf hrem hgt htie.le
        obtain hlt | heq := Nat.lt_or_eq_of_le hle
        · exact .inl hlt
        · exact .inr ⟨heq, heven⟩
    · rw [if_neg hup]
      split <;> omega

theorem roundQuot_le (p q : Nat) : roundQuot p q ≤ 2 ^ (Nat.log 2 (p / q) - 52 + 53) := by
  have hfloor : p / (q * 2 ^ (Nat.log 2 (p / q) - 52)) < 2 ^ 53 := by
    rw [← Nat.div_div_eq_div_mul, Nat.div_lt_iff_lt_mul (Nat.two_pow_pos _), ← Nat.pow_add]
    by_cases h0 : p / q = 0
    · rw [h0]
      exact Nat.two_pow_pos _
    · exact (Nat.lt_pow_succ_log_self Nat.one_lt_two _).trans_le
        (Nat.pow_le_pow_right Nat.two_pos (by omega))
  calc roundQuot p q ≤ 2 ^ 53 * 2 ^ (Nat.log 2 (p / q) - 52) :=
        Nat.mul_le_mul_right _ ((nearest_le _ _).trans hfloor)
    _ = 2 ^ (Nat.log 2 (p / q) - 52 + 53) := by rw [← Nat.pow_add, Nat.add_comm]

theorem le_roundQuot (hbig : 52 ≤ Nat.log 2 (p / q)) : 2 ^ Nat.log 2 (p / q) ≤ roundQuot p q := by
  have h0 : p / q ≠ 0 := by
    intro h0
    rw [h0, Nat.log_zero_right] at hbig
    omega
  have hfloor : 2 ^ 52 ≤ p / (q * 2 ^ (Nat.log 2 (p / q) - 52)) := by
    rw [← Nat.div_div_eq_div_mul, Nat.le_div_iff_mul_le (Nat.two_pow_pos _), ← Nat.pow_add]
    calc 2 ^ (52 + (Nat.log 2 (p / q) - 52)) = 2 ^ Nat.log 2 (p / q) := by congr 1; omega
      _ ≤ p / q := Nat.pow_log_le_self 2 h0
  calc 2 ^ Nat.log 2 (p / q) = 2 ^ 52 * 2 ^ (Nat.log 2 (p / q) - 52) := by
        rw [← Nat.pow_add]
        congr 1
        omega
    _ ≤ roundQuot p q := Nat.mul_le_mul_right _ (hfloor.trans (le_nearest _ _))

theorem roundQuot_mono (hq : 0 < q) (hq' : 0 < q') (h : p * q' ≤ p' * q) :
    roundQuot p q ≤ roundQuot p' q' := by
  have hfloor : p / q ≤ p' / q' := by
    rw [Nat.le_div_iff_mul_le hq']
    refine Nat.le_of_mul_le_mul_right ?_ hq
    calc p / q * q' * q = p / q * q * q' := by ring
      _ ≤ p * q' := Nat.mul_le_mul_right _ (Nat.div_mul_le_self p q)
      _ ≤ p' * q := h
  have hlog : Nat.log 2 (p / q) ≤ Nat.log 2 (p' / q') := Nat.log_mono_right hfloor
  obtain hlt | heq := Nat.lt_or_eq_of_le
    (show Nat.log 2 (p / q) - 52 ≤ Nat.log 2 (p' / q') - 52 by omega)
  · calc roundQuot p q ≤ 2 ^ (Nat.log 2 (p / q) - 52 + 53) := roundQuot_le p q
      _ ≤ 2 ^ Nat.log 2 (p' / q') := Nat.pow_le_pow_right Nat.two_pos (by omega)
      _ ≤ roundQuot p' q' := le_roundQuot (by omega)
  · unfold roundQuot
    rw [heq]
    refine Nat.mul_le_mul_right _ (nearest_mono (Nat.mul_pos hq (Nat.two_pow_pos _))
      (Nat.mul_pos hq' (Nat.two_pow_pos _)) ?_)
    calc p * (q' * 2 ^ (Nat.log 2 (p' / q') - 52)) =
      p * q' * 2 ^ (Nat.log 2 (p' / q') - 52) := by ring
      _ ≤ p' * q * 2 ^ (Nat.log 2 (p' / q') - 52) := Nat.mul_le_mul_right _ h
      _ = p' * (q * 2 ^ (Nat.log 2 (p' / q') - 52)) := by ring

theorem roundQuot_congr (hq : 0 < q) (hq' : 0 < q') (h : p * q' = p' * q) :
    roundQuot p q = roundQuot p' q' :=
  (roundQuot_mono hq hq' h.le).antisymm (roundQuot_mono hq' hq h.ge)

/-! ## Magnitudes of doubles -/

/-- The bits below the point. -/
@[irreducible] def unitBits : Nat := 1074

theorem unitBits_eq : unitBits = 1074 := by rw [unitBits]

/-- The magnitude of the number one. -/
def magOne : Nat := 2 ^ unitBits

theorem magOne_pos : 0 < magOne := Nat.two_pow_pos unitBits

/-- At most 53 bits are significant. -/
def IsMag (m : Nat) : Prop := roundQuot m 1 = m

instance (m : Nat) : Decidable (IsMag m) := inferInstanceAs (Decidable (_ = _))

theorem roundQuot_mag (hm : IsMag m) (hq : 0 < q) (h : p = m * q) : roundQuot p q = m := by
  have hcongr : roundQuot p q = roundQuot m 1 :=
    roundQuot_congr hq Nat.one_pos (by rw [h, Nat.mul_one])
  exact hcongr.trans hm

theorem isMag_mul_pow {c : Nat} (hc : c ≤ 2 ^ 53) (s : Nat) : IsMag (c * 2 ^ s) := by
  -- the last bit that is kept is a multiple of the unit, or the number is the next power of two
  have hmul : ∀ {m : Nat}, 2 ^ (Nat.log 2 m - 52) ∣ m → IsMag m := by
    intro m hm
    obtain ⟨k, hk⟩ := hm
    unfold IsMag roundQuot
    rw [Nat.div_one, Nat.one_mul]
    nth_rewrite 1 [hk]
    rw [Nat.mul_comm (2 ^ _) k, nearest_mul k (Nat.two_pow_pos _), Nat.mul_comm]
    exact hk.symm
  obtain rfl | hpos := Nat.eq_zero_or_pos c
  · rw [Nat.zero_mul]
    decide
  · refine hmul ?_
    obtain hlt | rfl := Nat.lt_or_eq_of_le hc
    · refine Dvd.dvd.mul_left (Nat.pow_dvd_pow 2 ?_) c
      have hlog : Nat.log 2 (c * 2 ^ s) < 53 + s := by
        refine Nat.log_lt_of_lt_pow (Nat.mul_ne_zero hpos.ne' (Nat.two_pow_pos _).ne') ?_
        rw [Nat.pow_add]
        exact Nat.mul_lt_mul_of_pos_right hlt (Nat.two_pow_pos _)
      omega
    · rw [← Nat.pow_add, Nat.log_pow Nat.one_lt_two]
      exact Nat.pow_dvd_pow 2 (by omega)

theorem isMag_roundQuot (p q : Nat) : IsMag (roundQuot p q) := by
  refine isMag_mul_pow ?_ _
  refine Nat.le_of_mul_le_mul_right ?_ (Nat.two_pow_pos (Nat.log 2 (p / q) - 52))
  calc _ ≤ 2 ^ (Nat.log 2 (p / q) - 52 + 53) := roundQuot_le p q
    _ = 2 ^ 53 * 2 ^ (Nat.log 2 (p / q) - 52) := by rw [← Nat.pow_add, Nat.add_comm]

/-! ## Decimals -/

/-- The number `digits · 10 ^ exp`. -/
structure Decimal where
  digits : Nat
  exp : Int
  deriving DecidableEq

variable {d : Decimal}

namespace Decimal

def num (d : Decimal) : Nat := d.digits * 10 ^ d.exp.toNat

def den (d : Decimal) : Nat := 10 ^ (-d.exp).toNat

theorem den_pos (d : Decimal) : 0 < d.den := Nat.pow_pos (by decide)

/-- The magnitude of the double that is nearest. -/
def mag (d : Decimal) : Nat := roundQuot (d.num * magOne) d.den

theorem isMag_mag (d : Decimal) : IsMag d.mag := isMag_roundQuot _ _

theorem mag_mono {e : Decimal} (h : d.num * e.den ≤ e.num * d.den) : d.mag ≤ e.mag := by
  refine roundQuot_mono d.den_pos e.den_pos ?_
  calc d.num * magOne * e.den = d.num * e.den * magOne := by ring
    _ ≤ e.num * d.den * magOne := Nat.mul_le_mul_right _ h
    _ = e.num * magOne * d.den := by ring

theorem mag_congr {e : Decimal} (h : d.num * e.den = e.num * d.den) : d.mag = e.mag :=
  (mag_mono h.le).antisymm (mag_mono h.ge)

theorem mag_mono_digits {c d : Nat} (k : Int) (h : c ≤ d) :
    (Decimal.mk c k).mag ≤ (Decimal.mk d k).mag :=
  mag_mono (Nat.mul_le_mul_right _ (Nat.mul_le_mul_right _ h))

theorem mag_eq (hm : IsMag m) (h : d.num * magOne = m * d.den) : d.mag = m :=
  roundQuot_mag hm d.den_pos h

theorem mag_le (hm : IsMag m) (h : d.num * magOne ≤ m * d.den) : d.mag ≤ m := by
  calc d.mag ≤ roundQuot m 1 := roundQuot_mono d.den_pos Nat.one_pos (by rwa [Nat.mul_one])
    _ = m := hm

theorem le_mag (hm : IsMag m) (h : m * d.den ≤ d.num * magOne) : m ≤ d.mag := by
  calc m = roundQuot m 1 := hm.symm
    _ ≤ d.mag := roundQuot_mono Nat.one_pos d.den_pos (by rwa [Nat.mul_one])

theorem mag_zero (k : Int) : (Decimal.mk 0 k).mag = 0 :=
  mag_eq (by decide) (by rw [num, Nat.zero_mul, Nat.zero_mul, Nat.zero_mul])

end Decimal

/-! ## The shortest decimal -/

/-- The multiples of `10 ^ k` next to a magnitude, the nearer one first. -/
def candidates (m : Nat) (k : Int) : List Nat :=
  let p := m * 10 ^ (-k).toNat
  let q := magOne * 10 ^ k.toNat
  [nearest p q, p / q, p / q + 1]

/-- A multiple of `10 ^ k` that is read as a magnitude. -/
def shortestAt (m : Nat) (k : Int) : Option Nat :=
  (candidates m k).find? fun d => (Decimal.mk d k).mag = m

/-- The exponents that a decimal of a double can have, the largest first. -/
def exponents : List Int := (List.range (309 + unitBits)).map fun i : Nat => 308 - (i : Int)

/-- The decimal with the fewest digits that is read as a magnitude. -/
def shortest (m : Nat) : Decimal :=
  if m = 0 then ⟨0, 0⟩
  else (exponents.findSome? fun k => (shortestAt m k).map fun d => ⟨d, k⟩).getD ⟨0, 0⟩

theorem mem_exponents {k : Int} : k ∈ exponents ↔ -(unitBits : Int) ≤ k ∧ k ≤ 308 := by
  unfold exponents
  rw [List.mem_map]
  constructor
  · rintro ⟨i, hi, rfl⟩
    have := List.mem_range.mp hi
    omega
  · rintro ⟨hlow, hhigh⟩
    exact ⟨(308 - k).toNat, List.mem_range.mpr (by omega), by omega⟩

theorem exponents_descend : exponents.Pairwise (· > ·) := by
  unfold exponents
  rw [List.pairwise_map]
  exact List.pairwise_lt_range.imp fun h => by omega

theorem mag_of_shortestAt {d : Nat} {k : Int} (h : shortestAt m k = some d) :
    (Decimal.mk d k).mag = m := by
  have hfound := List.find?_some h
  exact of_decide_eq_true hfound

theorem shortestAt_of_mag {d : Nat} {k : Int} (hm : IsMag m) (h : (Decimal.mk d k).mag = m) :
    ∃ c, shortestAt m k = some c := by
  have hq : 0 < magOne * 10 ^ k.toNat := Nat.mul_pos magOne_pos (Nat.pow_pos (by decide))
  have hscale : ∀ c : Nat, (Decimal.mk c k).num * magOne = c * (magOne * 10 ^ k.toNat) := by
    intro c
    show c * 10 ^ k.toNat * magOne = _
    ring
  have hread : ∃ c ∈ candidates m k, (Decimal.mk c k).mag = m := by
    obtain hgt | hle := Nat.lt_or_ge (m * 10 ^ (-k).toNat / (magOne * 10 ^ k.toNat)) d
    · refine ⟨_, List.mem_cons_of_mem _ (List.mem_cons_of_mem _ List.mem_cons_self),
        le_antisymm ?_ (Decimal.le_mag hm ?_)⟩
      · rw [← h]
        exact Decimal.mag_mono_digits k (by rw [h]; exact hgt)
      · rw [hscale]
        exact (Nat.lt_mul_of_div_lt (Nat.lt_succ_self _) hq).le
    · refine ⟨_, List.mem_cons_of_mem _ List.mem_cons_self, (Decimal.mag_le hm ?_).antisymm ?_⟩
      · rw [hscale]
        exact Nat.div_mul_le_self _ _
      · rw [← h]
        exact Decimal.mag_mono_digits k (by rw [h]; exact hle)
  obtain ⟨c, hc, hmag⟩ := hread
  exact Option.isSome_iff_exists.mp (List.find?_isSome.mpr ⟨c, hc, decide_eq_true hmag⟩)

theorem shortestAt_last (hm : IsMag m) : ∃ c, shortestAt m (-unitBits) = some c := by
  refine shortestAt_of_mag hm (d := m * 5 ^ unitBits) (Decimal.mag_eq hm ?_)
  have hup : (-(unitBits : Int)).toNat = 0 := Int.toNat_of_nonpos (by omega)
  have hdown : (- -(unitBits : Int)).toNat = unitBits := by rw [Int.neg_neg, Int.toNat_natCast]
  rw [Decimal.num, Decimal.den, hup, hdown, Nat.pow_zero, Nat.mul_one, magOne, Nat.mul_assoc,
    ← Nat.mul_pow]

theorem shortest_spec (hm : IsMag m) (h0 : m ≠ 0) :
    (shortest m).mag = m ∧ ∀ k ∈ exponents, (shortest m).exp < k → shortestAt m k = none := by
  obtain ⟨e, he⟩ : ∃ e, exponents.findSome? (fun k => (shortestAt m k).map fun d =>
      (⟨d, k⟩ : Decimal)) = some e := by
    obtain ⟨c, hc⟩ := shortestAt_last hm
    refine Option.isSome_iff_exists.mp (List.findSome?_isSome_iff.mpr
      ⟨-unitBits, mem_exponents.mpr ⟨le_rfl, by omega⟩, ?_⟩)
    rw [hc]
    rfl
  have hshort : shortest m = e := by
    unfold shortest
    rw [if_neg h0, he]
    rfl
  obtain ⟨before, k, after, hsplit, hk, hnone⟩ := List.findSome?_eq_some_iff.mp he
  obtain ⟨d, hd, rfl⟩ := Option.map_eq_some_iff.mp hk
  rw [hshort]
  refine ⟨mag_of_shortestAt hd, fun k' hk' hlt => ?_⟩
  rw [hsplit] at hk'
  have hdesc := exponents_descend
  rw [hsplit] at hdesc
  obtain hmem | hmem := List.mem_append.mp hk'
  · exact Option.map_eq_none_iff.mp (hnone k' hmem)
  · obtain rfl | hmem := List.mem_cons.mp hmem
    · exact absurd hlt (lt_irrefl _)
    · have hgt := (List.pairwise_cons.mp (List.pairwise_append.mp hdesc).2.1).1 k' hmem
      exact absurd hlt (not_lt.mpr hgt.le)

theorem mag_shortest (hm : IsMag m) : (shortest m).mag = m := by
  by_cases h0 : m = 0
  · rw [h0]
    exact Decimal.mag_zero 0
  · exact (shortest_spec hm h0).1

theorem le_exp_shortest (h0 : m ≠ 0) (hd : d.mag = m)
    (hlow : -(unitBits : Int) ≤ d.exp) (hhigh : d.exp ≤ 308) : d.exp ≤ (shortest m).exp := by
  have hm : IsMag m := hd ▸ d.isMag_mag
  by_contra hlt
  obtain ⟨c, hc⟩ := shortestAt_of_mag hm (k := d.exp) hd
  rw [(shortest_spec hm h0).2 d.exp (mem_exponents.mpr ⟨hlow, hhigh⟩) (not_le.mp hlt)] at hc
  cases hc

theorem digits_shortest_pos (hm : IsMag m) (h0 : m ≠ 0) : 0 < (shortest m).digits := by
  refine Nat.pos_of_ne_zero fun hzero => h0 ?_
  have hmag := mag_shortest hm
  have heta : shortest m = ⟨0, (shortest m).exp⟩ := by rw [← hzero]
  rw [heta, Decimal.mag_zero] at hmag
  exact hmag.symm

/-! ## Whole numbers -/

theorem magOne_dvd_roundQuot (h : 2 ^ 53 * magOne ≤ p / q) : magOne ∣ roundQuot p q := by
  have hlog : 53 + unitBits ≤ Nat.log 2 (p / q) := by
    refine Nat.le_log_of_pow_le Nat.one_lt_two ?_
    rw [Nat.pow_add, ← magOne]
    exact h
  rw [magOne]
  exact Dvd.dvd.mul_left (Nat.pow_dvd_pow 2 (by omega)) _

theorem exp_shortest_nonneg_iff (hm : IsMag m) (h0 : m ≠ 0) :
    0 ≤ (shortest m).exp ↔ magOne ∣ m := by
  constructor
  · intro hexp
    have hden : (shortest m).den = 1 := by
      rw [Decimal.den, Int.toNat_of_nonpos (by omega), Nat.pow_zero]
    have hmag : roundQuot ((shortest m).num * magOne) 1 = m := by
      rw [← hden]
      exact mag_shortest hm
    obtain hlt | hge := Nat.lt_or_ge (shortest m).num (2 ^ 53)
    · have hself : IsMag ((shortest m).num * magOne) := by
        rw [magOne]
        exact isMag_mul_pow hlt.le _
      rw [← hmag, hself]
      exact Nat.dvd_mul_left _ _
    · rw [← hmag]
      refine magOne_dvd_roundQuot ?_
      rw [Nat.div_one]
      exact Nat.mul_le_mul_right _ hge
  · rintro ⟨n, rfl⟩
    have hread : (Decimal.mk n 0).mag = magOne * n := by
      refine Decimal.mag_eq hm ?_
      change n * 1 * magOne = magOne * n * 1
      ring
    refine le_exp_shortest h0 hread ?_ ?_
    · change -(unitBits : Int) ≤ 0
      omega
    · change (0 : Int) ≤ 308
      decide

theorem mag_whole {c s : Nat} (h : n = c * 2 ^ s) (hc : c ≤ 2 ^ 53) :
    (Decimal.mk n 0).mag = n * magOne := by
  have hm : IsMag (n * magOne) := by
    rw [h, magOne, Nat.mul_assoc, ← Nat.pow_add]
    exact isMag_mul_pow hc _
  refine Decimal.mag_eq hm ?_
  change n * 1 * magOne = n * magOne * 1
  ring

theorem nearest_scale (hm : 0 < m) : nearest (p * m) (q * m) = nearest p q := by
  have hlt : 2 * (p * m % (q * m)) < q * m ↔ 2 * (p % q) < q := by
    rw [Nat.mul_mod_mul_right, ← Nat.mul_assoc]
    exact Nat.mul_lt_mul_right hm
  have heq : 2 * (p * m % (q * m)) = q * m ↔ 2 * (p % q) = q := by
    rw [Nat.mul_mod_mul_right, ← Nat.mul_assoc]
    exact Nat.mul_left_inj hm.ne'
  unfold nearest
  rw [Nat.mul_div_mul_right _ _ hm]
  simp only [hlt, heq]

theorem roundQuot_bounds {e : Nat} (hlow : 2 ^ (e + 52) ≤ n) (hhigh : n < 2 ^ (e + 53)) :
    roundQuot n 1 = nearest n (2 ^ e) * 2 ^ e := by
  have hlog : Nat.log 2 (n / 1) = e + 52 := by
    rw [Nat.div_one]
    exact Nat.log_eq_of_pow_le_of_lt_pow hlow hhigh
  rw [roundQuot, hlog, Nat.one_mul, Nat.add_sub_cancel]

theorem roundQuot_small (h : n < 2 ^ 53) : roundQuot n 1 = n := by
  have := isMag_mul_pow h.le 0
  rwa [Nat.pow_zero, Nat.mul_one] at this

/-- Whether a whole number is counted in ones or in units of a double does not matter. -/
theorem mag_whole_number (n : Nat) : (Decimal.mk n 0).mag = roundQuot n 1 * magOne := by
  obtain hlt | hge := Nat.lt_or_ge n (2 ^ 53)
  · rw [roundQuot_small hlt]
    exact mag_whole (c := n) (s := 0) (by omega) hlt.le
  · have hn : n ≠ 0 := by omega
    have hlog : 53 ≤ Nat.log 2 n := Nat.le_log_of_pow_le Nat.one_lt_two hge
    obtain ⟨e, he⟩ : ∃ e, Nat.log 2 n = e + 52 := ⟨Nat.log 2 n - 52, by omega⟩
    have hlow : 2 ^ (e + 52) ≤ n := by
      rw [← he]
      exact Nat.pow_log_le_self 2 hn
    have hhigh : n < 2 ^ (e + 53) := by
      have := Nat.lt_pow_succ_log_self Nat.one_lt_two n
      rwa [he] at this
    have hlow' : 2 ^ (e + unitBits + 52) ≤ n * magOne := by
      rw [show e + unitBits + 52 = e + 52 + unitBits by omega, Nat.pow_add, ← magOne]
      exact Nat.mul_le_mul_right _ hlow
    have hhigh' : n * magOne < 2 ^ (e + unitBits + 53) := by
      rw [show e + unitBits + 53 = e + 53 + unitBits by omega, Nat.pow_add, ← magOne]
      exact Nat.mul_lt_mul_of_pos_right hhigh magOne_pos
    have hself : (Decimal.mk n 0).mag = roundQuot (n * magOne) 1 := by
      change roundQuot (n * 1 * magOne) 1 = _
      rw [Nat.mul_one]
    rw [hself, roundQuot_bounds hlow' hhigh', roundQuot_bounds hlow hhigh, Nat.pow_add, ← magOne,
      nearest_scale magOne_pos, Nat.mul_assoc]

/-- No other whole number is read as the same double. -/
def Alone (n : Nat) : Prop := ∀ m, roundQuot m 1 = roundQuot n 1 → m = n

theorem Alone.exact (h : Alone n) : roundQuot n 1 = n := h _ (isMag_roundQuot n 1)

theorem alone_iff : Alone n ↔ n < 2 ^ 53 ∨ n < 2 ^ 54 ∧ n % 4 = 2 := by
  have hodd : ∀ {m : Nat}, 2 ^ 53 ≤ m → m < 2 ^ 54 →
      roundQuot m 1 = if m % 4 = 3 then m + 1 else m - m % 2 := by
    intro m hlow hhigh
    rw [roundQuot_bounds (e := 1) hlow hhigh, nearest, Nat.pow_one]
    split <;> split <;> omega
  have hbig : ∀ {m : Nat}, 2 ^ 53 ≤ m → 2 ^ 53 ≤ roundQuot m 1 := by
    intro m hm
    calc 2 ^ 53 = roundQuot (2 ^ 53) 1 := by decide
      _ ≤ roundQuot m 1 := roundQuot_mono Nat.one_pos Nat.one_pos (Nat.mul_le_mul_right _ hm)
  have hlarge : ∀ {m : Nat}, 2 ^ 54 ≤ m → 2 ^ 54 ≤ roundQuot m 1 := by
    intro m hm
    calc 2 ^ 54 = roundQuot (2 ^ 54) 1 := by decide
      _ ≤ roundQuot m 1 := roundQuot_mono Nat.one_pos Nat.one_pos (Nat.mul_le_mul_right _ hm)
  constructor
  · intro h
    by_contra hnot
    obtain hlt | hge := Nat.lt_or_ge n (2 ^ 54)
    · -- an odd number is read as a neighbour, and a multiple of four as the odd one above
      have hexact := h.exact
      have hnext := h (n + 1)
      have hn := hodd (m := n) (by omega) hlt
      by_cases hlast : n + 1 < 2 ^ 54
      · rw [hodd (m := n + 1) (by omega) hlast] at hnext
        split at hn <;> split at hnext <;> omega
      · split at hn <;> omega
    · have hlog : 54 ≤ Nat.log 2 n := Nat.le_log_of_pow_le Nat.one_lt_two hge
      obtain ⟨e, he⟩ : ∃ e, Nat.log 2 n = e + 2 + 52 := ⟨Nat.log 2 n - 54, by omega⟩
      have hlow : 2 ^ (e + 2 + 52) ≤ n := by
        rw [← he]
        exact Nat.pow_log_le_self 2 (by omega)
      have hhigh : n < 2 ^ (e + 2 + 53) := by
        have := Nat.lt_pow_succ_log_self Nat.one_lt_two n
        rwa [he] at this
      have hexact := h.exact
      rw [roundQuot_bounds hlow hhigh] at hexact
      have hunit : 2 ^ (e + 2) = 4 * 2 ^ e := by rw [Nat.pow_add, Nat.mul_comm]
      have hpos := Nat.two_pow_pos e
      have hnext : n + 1 < 2 ^ (e + 2 + 53) := by
        refine Nat.lt_of_le_of_ne hhigh fun heq => ?_
        rw [Nat.pow_add, hunit] at heq
        rw [hunit, Nat.mul_left_comm] at hexact
        rw [Nat.mul_assoc] at heq
        omega
      have hsame : roundQuot (n + 1) 1 = roundQuot n 1 := by
        rw [roundQuot_bounds (n := n + 1) (Nat.le_succ_of_le hlow) hnext,
          roundQuot_bounds hlow hhigh]
        refine congrArg (· * 2 ^ (e + 2)) ?_
        generalize nearest n (2 ^ (e + 2)) = c at *
        have hsplit : n + 1 = 1 + 2 ^ (e + 2) * c := by
          rw [Nat.mul_comm (2 ^ _), hexact, Nat.add_comm]
        have hone : 1 < 2 ^ (e + 2) := by omega
        rw [hsplit, nearest, Nat.add_mul_mod_self_left, Nat.mod_eq_of_lt hone,
          Nat.add_mul_div_left _ _ (by omega), Nat.div_eq_of_lt hone, Nat.zero_add,
          if_pos (.inl (by omega))]
      have := h _ hsame
      omega
  · rintro (hlt | ⟨hlt, hmod⟩) m hm
    · rw [roundQuot_small hlt] at hm
      obtain hlt' | hge' := Nat.lt_or_ge m (2 ^ 53)
      · rwa [roundQuot_small hlt'] at hm
      · have := hbig hge'
        omega
    · obtain hlow | hlow := Nat.lt_or_ge n (2 ^ 53)
      · rw [roundQuot_small hlow] at hm
        obtain hlt' | hge' := Nat.lt_or_ge m (2 ^ 53)
        · rwa [roundQuot_small hlt'] at hm
        · have := hbig hge'
          omega
      · have hn := hodd hlow hlt
        obtain hlt' | hge' := Nat.lt_or_ge m (2 ^ 53)
        · rw [roundQuot_small hlt'] at hm
          have := hbig hlow
          omega
        · obtain hhigh' | hhigh' := Nat.lt_or_ge m (2 ^ 54)
          · have hm' := hodd hge' hhigh'
            split at hn <;> split at hm' <;> omega
          · have := hlarge hhigh'
            split at hn <;> omega

/-! ## Doubles -/

/-- A finite double, in units of 2^-1074. -/
structure Double where
  neg : Bool
  mag : Nat
  isMag : IsMag mag
  finite : mag < 2 ^ 1024 * magOne
  deriving DecidableEq

namespace Double

theorem pow_mul_magOne_pos (k : Nat) : 0 < 2 ^ k * magOne :=
    Nat.mul_pos (Nat.two_pow_pos k) magOne_pos

def zero : Double := ⟨false, 0, by decide, pow_mul_magOne_pos 1024⟩

/-- The double nearest to a decimal, if it is finite. -/
def read (neg : Bool) (d : Decimal) : Option Double :=
  if h : d.mag < 2 ^ 1024 * magOne then some ⟨neg, d.mag, d.isMag_mag, h⟩ else none

theorem read_eq {neg : Bool} {x : Double} (hneg : x.neg = neg) (h : d.mag = x.mag) :
    read neg d = some x := by
  unfold read
  rw [dif_pos (h ▸ x.finite)]
  obtain ⟨xneg, xmag, _, _⟩ := x
  cases hneg
  cases h
  rfl

theorem read_eq_some {neg : Bool} {x : Double} (h : read neg d = some x) :
    x.neg = neg ∧ d.mag = x.mag := by
  unfold read at h
  split at h
  · obtain rfl := Option.some.inj h
    exact ⟨rfl, rfl⟩
  · cases h

theorem read_congr (neg : Bool) {e : Decimal} (h : d.mag = e.mag) : read neg d = read neg e := by
  unfold read
  simp only [h]

theorem read_shortest (x : Double) : read x.neg (shortest x.mag) = some x :=
  read_eq rfl (mag_shortest x.isMag)

/-- The number that a double is. -/
def value (x : Double) : ℚ := (if x.neg then -1 else 1) * (x.mag / magOne)

end Double

/-! ## Arithmetic in doubles -/

/-- The double nearest to a number of the range of doubles: what `+`, `*` and `/` return for
an exact sum, product or quotient. -/
@[irreducible] def nearestDouble (r : ℚ) : ℚ :=
  r.num.sign * ((roundQuot (r.num.natAbs * magOne) r.den : ℕ) / magOne)

theorem nearestDouble_of_nonneg {r : ℚ} (h : 0 ≤ r) :
    nearestDouble r = (roundQuot (r.num.natAbs * magOne) r.den : ℕ) / magOne := by
  rcases h.eq_or_lt with rfl | hpos
  · have hzero : roundQuot 0 1 = 0 := by decide
    simp [nearestDouble, hzero]
  · rw [nearestDouble, Int.sign_eq_one_of_pos (Rat.num_pos.mpr hpos), Int.cast_one, one_mul]

theorem nearestDouble_mono {r s : ℚ} (hr : 0 ≤ r) (h : r ≤ s) :
    nearestDouble r ≤ nearestDouble s := by
  rw [nearestDouble_of_nonneg hr, nearestDouble_of_nonneg (hr.trans h)]
  refine div_le_div_of_nonneg_right (Nat.cast_le.mpr (roundQuot_mono r.den_pos s.den_pos ?_))
    (Nat.cast_nonneg _)
  have hle : r.num.natAbs * s.den ≤ s.num.natAbs * r.den := by
    have hcross := (Rat.le_iff r s).mp h
    have hnum := Int.natAbs_of_nonneg (Rat.num_nonneg.mpr hr)
    have hnum' := Int.natAbs_of_nonneg (Rat.num_nonneg.mpr (hr.trans h))
    rw [← hnum, ← hnum'] at hcross
    exact_mod_cast hcross
  calc r.num.natAbs * magOne * s.den = r.num.natAbs * s.den * magOne := by ring
    _ ≤ s.num.natAbs * r.den * magOne := Nat.mul_le_mul_right _ hle
    _ = s.num.natAbs * magOne * r.den := by ring

theorem nearestDouble_percent : nearestDouble 1 = 1 ∧ nearestDouble 100 = 100 := by decide +kernel

end Windrose.Foundation

/-
  Foundation/Calendar.lean --- days and the months they are in.

  The first day of the month of a day does not go back as days go on
  (`monthStart_mono`), so that no later day has an earlier month.
-/
import Windrose.Foundation.Time

set_option autoImplicit false

namespace Windrose.Foundation

/-! ## The next day -/

theorem century_succ {x : Int} (h0 : 0 ≤ x) (h : x + 1 < 146097) :
    (x + 1) / 36524 - (x + 1) / 36524 / 4 = x / 36524 - x / 36524 / 4 ∨
      x + 1 = 36524 * ((x + 1) / 36524 - (x + 1) / 36524 / 4) := by omega

theorem olympiad_succ (x : Int) : (x + 1) / 1461 = x / 1461 ∨ x + 1 = 1461 * ((x + 1) / 1461) := by
  omega

theorem year_succ {x : Int} (h0 : 0 ≤ x) (h : x + 1 < 1461) :
    (x + 1) / 365 - (x + 1) / 365 / 4 = x / 365 - x / 365 / 4 ∨
      x + 1 = 365 * ((x + 1) / 365 - (x + 1) / 365 / 4) := by omega

theorem absDate_succ (d : Int) :
    absDate (d + 1) = ((absDate d).1, (absDate d).2 + 1) ∨ (absDate (d + 1)).2 = 0 := by
  have h400 : (d + 1) / 146097 = d / 146097 ∧ (d + 1) % 146097 = d % 146097 + 1 ∧
      d % 146097 + 1 < 146097 ∨ (d + 1) % 146097 = 0 := by omega
  have h1 : 0 ≤ d % 146097 := Int.emod_nonneg d (by decide)
  unfold absDate
  dsimp only
  rcases h400 with ⟨hcycle, hday, hlt⟩ | hday
  · rw [hcycle, hday]
    generalize d % 146097 = x at h1 hlt ⊢
    rcases century_succ h1 hlt with h100 | h100
    · rw [h100]
      have h2 : 0 ≤ x - 36524 * (x / 36524 - x / 36524 / 4) := by omega
      have hsucc : x + 1 - 36524 * (x / 36524 - x / 36524 / 4) =
          x - 36524 * (x / 36524 - x / 36524 / 4) + 1 := by omega
      rw [hsucc]
      generalize x - 36524 * (x / 36524 - x / 36524 / 4) = y at h2 ⊢
      rcases olympiad_succ y with h4 | h4
      · rw [h4]
        have h3 : 0 ≤ y - 1461 * (y / 1461) := by omega
        have hlt : y - 1461 * (y / 1461) + 1 < 1461 := by omega
        have hsucc : y + 1 - 1461 * (y / 1461) = y - 1461 * (y / 1461) + 1 := by omega
        rw [hsucc]
        generalize y - 1461 * (y / 1461) = z at h3 hlt ⊢
        rcases year_succ h3 hlt with hyear | hyear
        · refine .inl ?_
          rw [hyear]
          refine Prod.ext rfl ?_
          omega
        · refine .inr ?_
          omega
      · have hzero : y + 1 - 1461 * ((y + 1) / 1461) = 0 := by omega
        exact .inr (by rw [hzero]; rfl)
    · have hzero : x + 1 - 36524 * ((x + 1) / 36524 - (x + 1) / 36524 / 4) = 0 := by omega
      exact .inr (by rw [hzero]; rfl)
  · exact .inr (by rw [hday]; rfl)

/-! ## Months -/

/-- The month and the day of a day number. -/
def dayOf (d : Int) : Nat × Nat := monthDay (isLeap (absDate d).1) (absDate d).2.toNat

/-- The number of the first day of the month. -/
def monthStart (d : Int) : Int := d - ((dayOf d).2 - 1)

set_option maxRecDepth 4000 in
theorem monthDay_succ (leap : Bool) : ∀ yday < 366, 1 ≤ (monthDay leap yday).2 ∧
      (monthDay leap (yday + 1)).2 ≤ (monthDay leap yday).2 + 1 := by
  cases leap <;> decide

theorem monthStart_le (d : Int) : monthStart d ≤ d := by
  have hyday := absDate_yday d
  have hday := (monthDay_succ (isLeap (absDate d).1) (absDate d).2.toNat (by omega)).1
  unfold monthStart dayOf
  omega

theorem monthStart_mono {d e : Int} (h : d ≤ e) : monthStart d ≤ monthStart e := by
  refine monotone_int_of_le_succ (fun d => ?_) h
  have hyday := absDate_yday d
  rcases absDate_succ d with hsame | hfirst
  · have hnat : ((absDate d).2 + 1).toNat = (absDate d).2.toNat + 1 := by omega
    have hday := (monthDay_succ (isLeap (absDate d).1) (absDate d).2.toNat (by omega)).2
    unfold monthStart dayOf
    rw [hsame]
    dsimp only
    rw [hnat]
    omega
  · have hstart : monthStart (d + 1) = d + 1 := by
      have hday : (dayOf (d + 1)).2 = 1 := by
        unfold dayOf
        rw [hfirst]
        cases isLeap (absDate (d + 1)).1 <;> rfl
      rw [monthStart, hday]
      omega
    have hle := monthStart_le d
    omega

end Windrose.Foundation

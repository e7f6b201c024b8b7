/-
  Foundation/TokenBucket.lean --- how much a token bucket admits.

  A bucket holds at most `capacity` tokens and gains `rate` of them in a unit of time; the
  gain is reckoned when the next token is asked for.  What it holds at a time (`level`) is
  the potential of the argument: it grows with the time by at most the rate, and every
  token that is granted takes one off.  So over a window the bucket grants at most what it
  held and what it gained (`granted_le`).
-/
import Mathlib.Tactic.Ring
import Mathlib.Algebra.Order.Field.Basic
import Mathlib.Tactic.Linarith

set_option autoImplicit false

namespace Windrose.Foundation

/-- What was held when a token was last asked for. -/
structure TokenBucket (K : Type) where
  tokens : K
  ts : K
  deriving DecidableEq

namespace TokenBucket

variable {K : Type} [Field K] [LinearOrder K]

/-- What is held at a later time. -/
def level (capacity rate : K) (b : TokenBucket K) (now : K) : K :=
  min capacity (b.tokens + (now - b.ts) * rate)

/-- A token is asked for. -/
def take (capacity rate : K) (b : TokenBucket K) (now : K) : Bool × TokenBucket K :=
  if 1 ≤ b.level capacity rate now then (true, ⟨b.level capacity rate now - 1, now⟩)
  else (false, ⟨b.level capacity rate now, now⟩)

/-- The times at which a token was granted. -/
def granted (capacity rate : K) : TokenBucket K → List K → List K
  | _, [] => []
  | b, now :: times =>
    let r := b.take capacity rate now
    if r.1 then now :: granted capacity rate r.2 times else granted capacity rate r.2 times

/-- The bucket after all of them. -/
def after (capacity rate : K) (b : TokenBucket K) (times : List K) : TokenBucket K :=
  times.foldl (fun b now => (b.take capacity rate now).2) b

variable {capacity rate : K} {b : TokenBucket K}

theorem level_le (now : K) : b.level capacity rate now ≤ capacity := min_le_left _ _

@[simp] theorem take_ts (now : K) : (b.take capacity rate now).2.ts = now := by
  unfold take
  split_ifs <;> rfl

theorem take_of_wait (hcapacity : 1 ≤ capacity) {later : K}
    (hwait : 1 ≤ b.tokens + (later - b.ts) * rate) : (b.take capacity rate later).1 = true := by
  have hone : 1 ≤ b.level capacity rate later := le_min hcapacity hwait
  unfold take
  rw [if_pos hone]

variable {times : List K} {now : K}

theorem ts_after_le (hts : b.ts ≤ now) (h : ∀ t ∈ times, t ≤ now) :
    (b.after capacity rate times).ts ≤ now := by
  induction times generalizing b with
  | nil => exact hts
  | cons t times ih =>
    refine ih (b := (b.take capacity rate t).2) ?_ fun t' ht' => h t' (List.mem_cons_of_mem t ht')
    rw [take_ts]
    exact h t List.mem_cons_self

theorem granted_sublist (times : List K) : (granted capacity rate b times).Sublist times := by
  induction times generalizing b with
  | nil => exact List.Sublist.slnil
  | cons now times ih =>
    rw [granted]
    split_ifs
    · exact ih.cons_cons now
    · exact ih.cons now

theorem countP_granted_eq_zero {p : K → Bool} (h : ∀ t ∈ times, p t = false) :
    (granted capacity rate b times).countP p = 0 := by
  refine List.countP_eq_zero.mpr fun t ht hp => ?_
  rw [h t ((granted_sublist times).subset ht)] at hp
  cases hp

variable [IsStrictOrderedRing K]

theorem level_take (now : K) : (b.take capacity rate now).2.level capacity rate now =
      b.level capacity rate now - if (b.take capacity rate now).1 then 1 else 0 := by
  have hle : b.level capacity rate now ≤ capacity := level_le now
  by_cases hone : 1 ≤ b.level capacity rate now
  · rw [take, if_pos hone, level, sub_self, zero_mul, add_zero, if_pos rfl]
    exact min_eq_right (by linarith)
  · rw [take, if_neg hone, level, sub_self, zero_mul, add_zero, if_neg Bool.false_ne_true, sub_zero]
    exact min_eq_right hle

theorem level_le_add (hrate : 0 ≤ rate) {later : K} (h : now ≤ later) :
    b.level capacity rate later ≤ b.level capacity rate now + (later - now) * rate := by
  have hgain : 0 ≤ (later - now) * rate := mul_nonneg (sub_nonneg.mpr h) hrate
  have hlater : b.tokens + (later - b.ts) * rate =
      b.tokens + (now - b.ts) * rate + (later - now) * rate := by ring
  unfold level
  rw [hlater, min_def, min_def]
  split_ifs <;> linarith

/-- The tokens stay within the capacity. -/
structure Sane (capacity : K) (b : TokenBucket K) : Prop where
  nonneg : 0 ≤ b.tokens
  le : b.tokens ≤ capacity

theorem Sane.level_nonneg (h : Sane capacity b) (hrate : 0 ≤ rate) (hnow : b.ts ≤ now) :
    0 ≤ b.level capacity rate now :=
  le_min (h.nonneg.trans h.le)
    (add_nonneg h.nonneg (mul_nonneg (sub_nonneg.mpr hnow) hrate))

theorem Sane.take (h : Sane capacity b) (hrate : 0 ≤ rate) (hnow : b.ts ≤ now) :
    Sane capacity (b.take capacity rate now).2 := by
  have hle : b.level capacity rate now ≤ capacity := level_le now
  unfold TokenBucket.take
  split_ifs with hone
  · exact ⟨sub_nonneg.mpr hone, by dsimp only; linarith⟩
  · exact ⟨h.level_nonneg hrate hnow, hle⟩

section Window

theorem countP_granted_le_level (hrate : 0 ≤ rate) (h : Sane capacity b) {start stop : K}
    (hts : b.ts ≤ start) (hstop : start ≤ stop)
    (hsorted : times.Pairwise (· ≤ ·)) (hstart : ∀ t ∈ times, start ≤ t) :
    ((granted capacity rate b times).countP (· ≤ stop) : K) ≤
      b.level capacity rate start + (stop - start) * rate := by
  induction times generalizing b start with
  | nil =>
    have hgain : 0 ≤ (stop - start) * rate := mul_nonneg (sub_nonneg.mpr hstop) hrate
    simpa [granted] using add_nonneg (h.level_nonneg hrate hts) hgain
  | cons now times ih =>
    obtain ⟨hlater, hsorted⟩ := List.pairwise_cons.mp hsorted
    have hnow : start ≤ now := hstart now List.mem_cons_self
    by_cases hwithin : now ≤ stop
    · have hgrows : b.level capacity rate now ≤
          b.level capacity rate start + (now - start) * rate := level_le_add hrate hnow
      have hrest := ih (h.take hrate (hts.trans hnow)) (take_ts now).le hwithin hsorted hlater
      rw [level_take] at hrest
      have hsplit : (stop - start) * rate = (now - start) * rate + (stop - now) * rate := by ring
      rw [granted]
      split_ifs with hgranted
      · rw [if_pos hgranted] at hrest
        rw [List.countP_cons_of_pos (by simpa using hwithin)]
        push_cast
        linarith
      · rw [if_neg hgranted] at hrest
        linarith
    · have hnone : (granted capacity rate b (now :: times)).countP (· ≤ stop) = 0 := by
        refine countP_granted_eq_zero fun t ht => decide_eq_false (not_le.mpr ?_)
        obtain rfl | ht := List.mem_cons.mp ht
        · exact not_le.mp hwithin
        · exact (not_le.mp hwithin).trans_le (hlater t ht)
      have hgain : 0 ≤ (stop - start) * rate := mul_nonneg (sub_nonneg.mpr hstop) hrate
      rw [hnone]
      exact_mod_cast add_nonneg (h.level_nonneg hrate hts) hgain

/-- **The bound of a token bucket**: in every window it grants at most its capacity and what
it gains there. -/
theorem countP_granted_le (hrate : 0 ≤ rate) (h : Sane capacity b) {start stop : K}
    (hstop : start ≤ stop) (hsorted : times.Pairwise (· ≤ ·)) (hts : ∀ t ∈ times, b.ts ≤ t) :
    ((granted capacity rate b times).countP (fun t => start ≤ t ∧ t ≤ stop) : K) ≤
      capacity + (stop - start) * rate := by
  have hbound : 0 ≤ capacity + (stop - start) * rate :=
    add_nonneg (h.nonneg.trans h.le) (mul_nonneg (sub_nonneg.mpr hstop) hrate)
  induction times generalizing b with
  | nil => simpa [granted] using hbound
  | cons now times ih =>
    obtain ⟨hlater, hrest⟩ := List.pairwise_cons.mp hsorted
    have hnow : b.ts ≤ now := hts now List.mem_cons_self
    by_cases hbefore : now < start
    · have hskipped := ih (h.take hrate hnow) hrest fun t ht => by
        rw [take_ts]
        exact hlater t ht
      rw [granted]
      split_ifs
      · rwa [List.countP_cons_of_neg (by simpa using fun hle => absurd hle (not_le.mpr hbefore))]
      · exact hskipped
    · have hstart : start ≤ now := not_lt.mp hbefore
      by_cases hwithin : now ≤ stop
      · have hcount := countP_granted_le_level hrate h hnow hwithin hsorted fun t ht => by
          obtain rfl | ht := List.mem_cons.mp ht
          · exact le_rfl
          · exact hlater t ht
        have hfewer : (granted capacity rate b (now :: times)).countP
            (fun t => start ≤ t ∧ t ≤ stop) ≤
            (granted capacity rate b (now :: times)).countP (· ≤ stop) :=
          List.countP_mono_left fun t _ ht => by
            simp only [decide_eq_true_eq] at ht ⊢
            exact ht.2
        have hfull : b.level capacity rate now ≤ capacity := level_le now
        have hgain : (stop - now) * rate ≤ (stop - start) * rate :=
          mul_le_mul_of_nonneg_right (sub_le_sub_left hstart stop) hrate
        calc ((granted capacity rate b (now :: times)).countP
              (fun t => start ≤ t ∧ t ≤ stop) : K)
            ≤ ((granted capacity rate b (now :: times)).countP (· ≤ stop) : K) := by
              exact_mod_cast hfewer
          _ ≤ b.level capacity rate now + (stop - now) * rate := hcount
          _ ≤ capacity + (stop - start) * rate := add_le_add hfull hgain
      · have hnone : (granted capacity rate b (now :: times)).countP
            (fun t => start ≤ t ∧ t ≤ stop) = 0 := by
          refine countP_granted_eq_zero fun t ht => decide_eq_false fun hin => hwithin ?_
          obtain rfl | ht := List.mem_cons.mp ht
          · exact hin.2
          · exact (hlater t ht).trans hin.2
        rw [hnone]
        exact_mod_cast hbound

end Window

end TokenBucket

end Windrose.Foundation

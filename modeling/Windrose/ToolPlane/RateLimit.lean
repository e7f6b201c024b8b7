/-
  ToolPlane/RateLimit.lean --- the rate limit of a tool.

  Source: services/tool-plane/internal/enforce/ratelimit.go (tokenBucket, Allow).

  The script runs alone in Redis, so a call is one step on the keys.  Times are seconds of
  the server's clock, and tokens are rational numbers.  A hash that has expired is read as a
  full bucket, which it would be without expiry too.
-/
import Mathlib.Data.Rat.Floor
import Windrose.Foundation.Bytes
import Windrose.Foundation.Holds
import Windrose.Foundation.Runs
import Windrose.Foundation.TokenBucket

set_option autoImplicit false

namespace Windrose.ToolPlane

open Windrose.Foundation

/-! ## The script -/

/-- The hash of a bucket, and the time of its expiry. -/
structure BucketHash where
  tokens : ℚ
  ts : ℚ
  expiresAt : ℚ
  deriving DecidableEq

/-- What `Allow` answers. -/
structure AllowReply where
  allowed : Bool
  retryAfter : Int
  deriving DecidableEq

/-- What the bucket holds now: all of its capacity when there is no hash. -/
def refilled (capacity rate now : ℚ) (data : Option BucketHash) : ℚ :=
  let tokens := (data.map (·.tokens)).getD capacity
  let ts := (data.map (·.ts)).getD now
  let delta := if now - ts < 0 then 0 else now - ts
  min capacity (tokens + delta * rate)

/-- `tokenBucket`: the hash that it writes, and its answer. -/
def tokenBucket (capacity rate now : ℚ) (data : Option BucketHash) : BucketHash × Bool × Int :=
  let tokens := refilled capacity rate now data
  if 1 ≤ tokens then (⟨tokens - 1, now, now + 120⟩, true, 0)
  else (⟨tokens, now, now + 120⟩, false, ⌈(1 - tokens) / rate⌉)

/-- The keys of the limiter in Redis. -/
structure RateLimiter where
  keys : Dict Bytes BucketHash := ∅

namespace RateLimiter

def redisKey (key : Bytes) : Bytes := bytes "tp:rl:" ++ key

/-- `HMGET`; a key that has expired is none. -/
def hmget (rl : RateLimiter) (key : Bytes) (now : ℚ) : Option BucketHash :=
  (rl.keys.lookup key).filter fun h => now ≤ h.expiresAt

/-- `Allow`, at the time `now`. -/
def allow (rl : RateLimiter) (key : Bytes) (limit : Int) (now : ℚ) : AllowReply × RateLimiter :=
  let limit := if limit ≤ 0 then 1 else limit
  let r := tokenBucket limit (limit / 60) now (rl.hmget (redisKey key) now)
  (if r.2.1 then ⟨true, 0⟩ else ⟨false, if r.2.2 ≤ 0 then 1 else r.2.2⟩,
    { keys := rl.keys.insert (redisKey key) r.1 })

end RateLimiter

/-! ## Runs -/

/-- A call of `Allow`. -/
structure AllowCall where
  key : Bytes
  limit : Int
  now : ℚ
  deriving DecidableEq

/-- The limiter, and the calls it has answered. -/
structure LimiterRun where
  limiter : RateLimiter := {}
  log : List (AllowCall × AllowReply) := []

namespace LimiterRun

/-- One call. -/
def step (w : LimiterRun) (c : AllowCall) : LimiterRun :=
  let r := w.limiter.allow c.key c.limit c.now
  { limiter := r.2, log := w.log ++ [(c, r.1)] }

/-- The times at which a call of the key was admitted. -/
def admitted (w : LimiterRun) (key : Bytes) : List ℚ :=
  (w.log.filter fun e => e.1.key = key && e.2.allowed).map (·.1.now)

end LimiterRun

/-- The times of the calls of a key. -/
def timesOf (key : Bytes) (calls : List AllowCall) : List ℚ :=
  (calls.filter fun c => c.key = key).map (·.now)

/-! ## A call is a token taken -/

/-- The hash of a key is a bucket, or there is none and the bucket is full. -/
structure Mirrors (rl : RateLimiter) (key : Bytes) (limit : Int) (b : TokenBucket ℚ) : Prop where
  sane : b.Sane (limit : ℚ)
  absent : rl.keys.lookup (RateLimiter.redisKey key) = none → b.tokens = limit
  present : ∀ h, rl.keys.lookup (RateLimiter.redisKey key) = some h →
    h.tokens = b.tokens ∧ h.ts = b.ts ∧ h.expiresAt = h.ts + 120

variable {now : ℚ}

section Calls

variable {rl : RateLimiter} {key : Bytes} {limit : Int} {b : TokenBucket ℚ}

theorem rate_pos (hlimit : 0 < limit) : (0 : ℚ) < limit / 60 :=
  div_pos (Int.cast_pos.mpr hlimit) (by norm_num)

theorem level_of_expired (hlimit : 0 < limit) (hsane : b.Sane (limit : ℚ))
    (hexpired : b.ts + 120 < now) : b.level (limit : ℚ) (limit / 60) now = limit := by
  have hpos : (0 : ℚ) < limit := Int.cast_pos.mpr hlimit
  have hgain : 120 * (limit / 60 : ℚ) ≤ (now - b.ts) * (limit / 60) :=
    mul_le_mul_of_nonneg_right (by linarith) (rate_pos hlimit).le
  have htokens := hsane.nonneg
  exact min_eq_left (by linarith)

theorem refilled_eq_level (hlimit : 0 < limit) (h : Mirrors rl key limit b) (hnow : b.ts ≤ now) :
    refilled limit (limit / 60) now (rl.hmget (RateLimiter.redisKey key) now) =
      b.level (limit : ℚ) (limit / 60) now := by
  unfold RateLimiter.hmget
  cases hlookup : rl.keys.lookup (RateLimiter.redisKey key) with
  | none =>
    have hfull : b.tokens = limit := h.absent hlookup
    have hgain : 0 ≤ (now - b.ts) * (limit / 60 : ℚ) :=
      mul_nonneg (sub_nonneg.mpr hnow) (rate_pos hlimit).le
    have hlevel : b.level (limit : ℚ) (limit / 60) now = limit := by
      rw [TokenBucket.level, hfull]
      exact min_eq_left (by linarith)
    rw [hlevel]
    simp [refilled]
  | some hash =>
    obtain ⟨htokens, hts, hexpires⟩ := h.present hash hlookup
    by_cases hlive : now ≤ hash.expiresAt
    · have hread : (some hash).filter (fun h => now ≤ h.expiresAt) = some hash := by
        rw [Option.filter_some, if_pos (decide_eq_true hlive)]
      have hdelta : ¬now - b.ts < 0 := not_lt.mpr (sub_nonneg.mpr hnow)
      rw [hread, refilled, TokenBucket.level]
      simp only [Option.map_some, Option.getD_some, htokens, hts, hdelta, if_false]
    · have hread : (some hash).filter (fun h => now ≤ h.expiresAt) = none := by
        rw [Option.filter_some, if_neg (by simpa using hlive)]
      have hexpired : b.ts + 120 < now := by
        rw [← hts, ← hexpires]
        exact not_le.mp hlive
      rw [level_of_expired hlimit h.sane hexpired, hread]
      simp [refilled]

theorem Mirrors.allow (hlimit : 0 < limit) (h : Mirrors rl key limit b) (hnow : b.ts ≤ now) :
    (rl.allow key limit now).1.allowed = (b.take (limit : ℚ) (limit / 60) now).1 ∧
      Mirrors (rl.allow key limit now).2 key limit (b.take (limit : ℚ) (limit / 60) now).2 := by
  have hlevel := refilled_eq_level hlimit h hnow
  have hsane := h.sane.take (rate_pos hlimit).le hnow
  have hgiven : ¬limit ≤ 0 := not_le.mpr hlimit
  have hwritten : ∀ hash, (rl.keys.insert (RateLimiter.redisKey key) hash).lookup
      (RateLimiter.redisKey key) = some hash := fun hash => AList.lookup_insert rl.keys
  unfold RateLimiter.allow tokenBucket
  simp only [hgiven, if_false, hlevel]
  by_cases hone : 1 ≤ b.level (limit : ℚ) (limit / 60) now
  · rw [TokenBucket.take, if_pos hone] at hsane ⊢
    simp only [if_pos hone]
    refine ⟨rfl, hsane, fun hnone => ?_, fun hash hhash => ?_⟩
    · rw [hwritten] at hnone
      cases hnone
    · rw [hwritten] at hhash
      obtain rfl := Option.some.inj hhash
      exact ⟨rfl, rfl, rfl⟩
  · rw [TokenBucket.take, if_neg hone] at hsane ⊢
    simp only [if_neg hone]
    refine ⟨rfl, hsane, fun hnone => ?_, fun hash hhash => ?_⟩
    · rw [hwritten] at hnone
      cases hnone
    · rw [hwritten] at hhash
      obtain rfl := Option.some.inj hhash
      exact ⟨rfl, rfl, rfl⟩

theorem redisKey_injective : Function.Injective RateLimiter.redisKey :=
  fun _ _ h => List.append_cancel_left h

theorem Mirrors.other (h : Mirrors rl key limit b) {key' : Bytes} (hkey : key' ≠ key)
    (limit' : Int) (now : ℚ) : Mirrors (rl.allow key' limit' now).2 key limit b := by
  have hne : RateLimiter.redisKey key ≠ RateLimiter.redisKey key' :=
    fun heq => hkey (redisKey_injective heq).symm
  have hsame : (rl.allow key' limit' now).2.keys.lookup (RateLimiter.redisKey key) =
      rl.keys.lookup (RateLimiter.redisKey key) := AList.lookup_insert_ne hne
  exact ⟨h.sane, fun hnone => h.absent (hsame ▸ hnone), fun hash hhash =>
    h.present hash (hsame ▸ hhash)⟩

end Calls

variable {key : Bytes} {limit : Int} {calls : List AllowCall}

theorem Mirrors.run (hlimit : 0 < limit) (hcalls : ∀ c ∈ calls, c.key = key → c.limit = limit)
    (hsorted : calls.Pairwise (·.now ≤ ·.now)) {w : LimiterRun} {b : TokenBucket ℚ}
    (h : Mirrors w.limiter key limit b) (hts : ∀ c ∈ calls, b.ts ≤ c.now) :
    (run LimiterRun.step w calls).admitted key =
        w.admitted key ++ b.granted (limit : ℚ) (limit / 60) (timesOf key calls) ∧
      Mirrors (run LimiterRun.step w calls).limiter key limit
        (b.after (limit : ℚ) (limit / 60) (timesOf key calls)) := by
  induction calls generalizing w b with
  | nil => exact ⟨(List.append_nil _).symm, h⟩
  | cons c calls ih =>
    obtain ⟨hlater, hrest⟩ := List.pairwise_cons.mp hsorted
    have hcalls' : ∀ c ∈ calls, c.key = key → c.limit = limit := fun c' hc' =>
      hcalls c' (List.mem_cons_of_mem c hc')
    rw [run_cons]
    by_cases hkey : c.key = key
    · have hc : c.limit = limit := hcalls c List.mem_cons_self hkey
      obtain ⟨hallowed, hnext⟩ := h.allow hlimit (hts c List.mem_cons_self)
      have hstep : Mirrors (w.step c).limiter key limit
          (b.take (limit : ℚ) (limit / 60) c.now).2 := by
        rw [LimiterRun.step, hkey, hc]
        exact hnext
      obtain ⟨hadmitted, hafter⟩ := ih hcalls' hrest hstep fun c' hc' => by
        rw [TokenBucket.take_ts]
        exact hlater c' hc'
      have htimes : timesOf key (c :: calls) = c.now :: timesOf key calls := by simp [timesOf, hkey]
      rw [htimes]
      refine ⟨?_, hafter⟩
      rw [hadmitted]
      have hlogged : (w.step c).admitted key = w.admitted key ++
          if (b.take (limit : ℚ) (limit / 60) c.now).1 then [c.now] else [] := by
        rw [← hallowed]
        simp only [LimiterRun.admitted, LimiterRun.step, hkey, hc, List.filter_append,
          List.map_append]
        split_ifs with hyes <;> simp [hkey, hyes]
      rw [hlogged, TokenBucket.granted, List.append_assoc]
      split_ifs <;> rfl
    · obtain ⟨hadmitted, hafter⟩ := ih hcalls' hrest (w := w.step c)
        (h.other hkey c.limit c.now) fun c' hc' => hts c' (List.mem_cons_of_mem c hc')
      have htimes : timesOf key (c :: calls) = timesOf key calls := by simp [timesOf, hkey]
      rw [htimes]
      refine ⟨?_, hafter⟩
      rw [hadmitted]
      simp [LimiterRun.admitted, LimiterRun.step, List.filter_append, hkey]

theorem mirrors_others {b : TokenBucket ℚ} {others : List AllowCall}
    (hothers : ∀ c ∈ others, c.key ≠ key) {w : LimiterRun} (h : Mirrors w.limiter key limit b) :
    Mirrors (run LimiterRun.step w others).limiter key limit b := by
  induction others generalizing w with
  | nil => exact h
  | cons c others ih =>
    exact ih (fun c' hc' => hothers c' (List.mem_cons_of_mem c hc')) (w := w.step c)
      (h.other (hothers c List.mem_cons_self) c.limit c.now)

theorem mirrors_empty (hlimit : 0 < limit) (key : Bytes) (ts : ℚ) :
    Mirrors {} key limit ⟨limit, ts⟩ :=
  ⟨⟨(Int.cast_pos.mpr hlimit).le, le_rfl⟩, fun _ => rfl, nofun⟩

theorem exists_before (hsorted : calls.Pairwise (·.now ≤ ·.now)) :
    ∃ ts : ℚ, ∀ c ∈ calls, ts ≤ c.now := by
  cases calls with
  | nil => exact ⟨0, nofun⟩
  | cons c calls =>
    refine ⟨c.now, fun c' hc' => ?_⟩
    obtain rfl | hc' := List.mem_cons.mp hc'
    · exact le_rfl
    · exact (List.pairwise_cons.mp hsorted).1 c' hc'

theorem pairwise_timesOf
    (hsorted : calls.Pairwise (·.now ≤ ·.now)) : (timesOf key calls).Pairwise (· ≤ ·) :=
  List.pairwise_map.mpr (hsorted.filter _)

theorem mem_timesOf {t : ℚ} (h : t ∈ timesOf key calls) : ∃ c ∈ calls, c.now = t := by
  obtain ⟨c, hc, rfl⟩ := List.mem_map.mp h
  exact ⟨c, (List.mem_filter.mp hc).1, rfl⟩

theorem wait_of_refused {rl : RateLimiter} {b : TokenBucket ℚ}
    (hlimit : 0 < limit) (h : Mirrors rl key limit b) (hnow : b.ts ≤ now) {r : Int}
    (hrefused : (rl.allow key limit now).1 = ⟨false, r⟩) : (0 : ℚ) ≤ r ∧
      1 ≤ (b.take (limit : ℚ) (limit / 60) now).2.tokens + r * (limit / 60 : ℚ) := by
  have hlevel := refilled_eq_level hlimit h hnow
  have hrate := rate_pos hlimit
  have hgiven : ¬limit ≤ 0 := not_le.mpr hlimit
  unfold RateLimiter.allow tokenBucket at hrefused
  simp only [hgiven, if_false, hlevel] at hrefused
  by_cases hone : 1 ≤ b.level (limit : ℚ) (limit / 60) now
  · rw [if_pos hone] at hrefused
    cases congrArg AllowReply.allowed hrefused
  · rw [if_neg hone] at hrefused
    have hr := congrArg AllowReply.retryAfter hrefused
    simp only [Bool.false_eq_true, if_false] at hr
    have hwait := Int.le_ceil ((1 - b.level (limit : ℚ) (limit / 60) now) / (limit / 60 : ℚ))
    have hpos : 0 < ⌈(1 - b.level (limit : ℚ) (limit / 60) now) / (limit / 60 : ℚ)⌉ :=
      Int.ceil_pos.mpr (div_pos (sub_pos.mpr (not_le.mp hone)) hrate)
    rw [if_neg (not_le.mpr hpos)] at hr
    rw [hr] at hwait hpos
    rw [div_le_iff₀ hrate] at hwait
    refine ⟨by exact_mod_cast hpos.le, ?_⟩
    rw [TokenBucket.take, if_neg hone]
    dsimp only
    linarith

/-- **The rate limit**: in any window a key is admitted at most its limit and what is
refilled in that time, its tokens stay within the limit, and a call that is refused is
admitted after the wait that it was given. -/
theorem rate_limited {key : Bytes} {limit : Int} (hlimit : 0 < limit) {calls : List AllowCall}
    (hcalls : ∀ c ∈ calls, c.key = key → c.limit = limit)
    (hsorted : calls.Pairwise (·.now ≤ ·.now)) : (∀ start T : ℚ, 0 ≤ T →
      (((run LimiterRun.step {} calls).admitted key).countP
        (fun t => start ≤ t ∧ t ≤ start + T) : ℚ) ≤ limit + limit * T / 60) ∧
    (∀ h, (run LimiterRun.step {} calls).limiter.keys.lookup (RateLimiter.redisKey key) = some h →
      0 ≤ h.tokens ∧ h.tokens ≤ limit) ∧
    ∀ (before others : List AllowCall) (now : ℚ) (r : Int),
      calls = before ++ ⟨key, limit, now⟩ :: others → (∀ c ∈ others, c.key ≠ key) →
      ((run LimiterRun.step {} before).limiter.allow key limit now).1 = ⟨false, r⟩ →
      ((run LimiterRun.step {} calls).limiter.allow key limit (now + r)).1.allowed = true := by
  obtain ⟨ts, hts⟩ := exists_before hsorted
  have hempty : Mirrors {} key limit ⟨limit, ts⟩ := mirrors_empty hlimit key ts
  have hrate : (0 : ℚ) ≤ limit / 60 := (rate_pos hlimit).le
  obtain ⟨hadmitted, hafter⟩ := Mirrors.run hlimit hcalls hsorted (w := {}) hempty hts
  refine ⟨fun start T hT => ?_, fun h hh => ?_,
    fun before others now r hsplit hothers hrefused => ?_⟩
  · rw [hadmitted]
    have htimes : (timesOf key calls).Pairwise (· ≤ ·) := pairwise_timesOf hsorted
    have hbound := TokenBucket.countP_granted_le hrate hempty.sane
      (le_add_of_nonneg_right hT : start ≤ start + T) htimes
      fun t ht => by
        obtain ⟨c, hc, rfl⟩ := mem_timesOf ht
        exact hts c hc
    refine hbound.trans (le_of_eq ?_)
    ring
  · obtain ⟨htokens, -⟩ := hafter.present h hh
    rw [htokens]
    exact ⟨hafter.sane.nonneg, hafter.sane.le⟩
  · subst hsplit
    obtain ⟨hbefore, hrest, horder⟩ := List.pairwise_append.mp hsorted
    obtain ⟨-, hfirst⟩ := Mirrors.run hlimit
      (fun c hc => hcalls c (List.mem_append_left _ hc)) hbefore (w := {}) hempty
      fun c hc => hts c (List.mem_append_left _ hc)
    have hnow : (TokenBucket.after (limit : ℚ) (limit / 60) ⟨limit, ts⟩
        (timesOf key before)).ts ≤ now := by
      refine TokenBucket.ts_after_le (hts ⟨key, limit, now⟩ (by simp)) fun t ht => ?_
      obtain ⟨c, hc, rfl⟩ := mem_timesOf ht
      exact horder c hc _ List.mem_cons_self
    obtain ⟨hwait, hrefilled⟩ := wait_of_refused hlimit hfirst hnow hrefused
    obtain ⟨-, hnext⟩ := hfirst.allow hlimit hnow
    have hothers' := mirrors_others hothers
      (w := (run LimiterRun.step {} before).step ⟨key, limit, now⟩) hnext
    rw [run_append, run_cons]
    have hlater : now ≤ now + r := le_add_of_nonneg_right hwait
    rw [(hothers'.allow hlimit (by rw [TokenBucket.take_ts]; exact hlater)).1]
    refine TokenBucket.take_of_wait (by exact_mod_cast hlimit) ?_
    rw [TokenBucket.take_ts, add_sub_cancel_left]
    exact hrefilled

/-! ## Two calls a minute -/

/-- The third call in a minute, and one of another key. -/
def sampleCalls : List AllowCall :=
  [⟨bytes "t:a", 2, 0⟩, ⟨bytes "t:a", 2, 10⟩, ⟨bytes "t:b", 5, 10⟩, ⟨bytes "t:a", 2, 12⟩]

theorem rate_limited_sample : (∀ start T : ℚ, 0 ≤ T →
      (((run LimiterRun.step {} sampleCalls).admitted (bytes "t:a")).countP
        (fun t => start ≤ t ∧ t ≤ start + T) : ℚ) ≤ (2 : Int) + (2 : Int) * T / 60) ∧
    (∀ h, (run LimiterRun.step {} sampleCalls).limiter.keys.lookup
        (RateLimiter.redisKey (bytes "t:a")) = some h → 0 ≤ h.tokens ∧ h.tokens ≤ (2 : Int)) ∧
    ∀ (before others : List AllowCall) (now : ℚ) (r : Int),
      sampleCalls = before ++ ⟨bytes "t:a", 2, now⟩ :: others →
        (∀ c ∈ others, c.key ≠ bytes "t:a") →
      ((run LimiterRun.step {} before).limiter.allow (bytes "t:a") 2 now).1 = ⟨false, r⟩ →
      ((run LimiterRun.step {} sampleCalls).limiter.allow (bytes "t:a") 2 (now + r)).1.allowed =
        true :=
  rate_limited (by decide) (by decide) (by simp [sampleCalls]; norm_num)

end Windrose.ToolPlane

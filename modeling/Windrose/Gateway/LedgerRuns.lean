/-
  Gateway/LedgerRuns.lean --- the budget of a ledger key over whole runs.

  Source: services/ai-gateway/app/adapters/ledger.py.

  In a run of `InMemoryLedger` calls follow each other and time passes between them; in a
  run of `RedisLedger` any number of calls are under way, and their commands interleave.
-/
import Windrose.Gateway.Ledger

set_option autoImplicit false

namespace Windrose.Gateway

open Windrose.Foundation

variable {κ ρ : Type} [DecidableEq κ] [DecidableEq ρ]

/-! ## InMemoryLedger -/

/-- What happens to a ledger: a call, or time passes. -/
inductive Happening (κ ρ : Type) where
  | call (c : Call κ ρ)
  | advance (dt : Nat)
  deriving DecidableEq

variable {key : κ}

namespace InMemoryLedger

/-- One step. -/
def step (s : InMemoryLedger κ ρ) : Happening κ ρ → InMemoryLedger κ ρ
  | .call c => (s.call c).2
  | .advance dt => { s with now := s.now + dt }

/-- The unexpired reservations of a key. -/
def unexpired (s : InMemoryLedger κ ρ) (key : κ) : Int :=
  ((s.reservations key).filter s.live).total (·.amount)

/-- No key is over its limit, and its unexpired reservations fit too. -/
def Bounded (limit : κ → Nat) (s : InMemoryLedger κ ρ) : Prop :=
  ∀ key, s.spent key ≤ limit key ∧ s.spent key + s.unexpired key ≤ limit key

/-- A reserve has the limit of its key and no negative amount; a settle finds its
reservation, and takes at most its amount. -/
def InTime (limit : κ → Nat) (s : InMemoryLedger κ ρ) : Happening κ ρ → Prop
  | .call (.reserve key lim amount _) => lim = limit key ∧ 0 ≤ amount
  | .call (.settle key rid actual) => ∃ h ∈ (s.reservations key).lookup rid, actual ≤ h.amount
  | _ => True

instance (limit : κ → Nat) (s : InMemoryLedger κ ρ) (h : Happening κ ρ) :
    Decidable (InTime limit s h) := by
  unfold InTime
  split <;> infer_instance

/-- The account of every key. -/
def Sound (limit : κ → Nat) (s : InMemoryLedger κ ρ) : Prop :=
  ∀ key, Within Hold.amount (limit key) (s.spent key) (s.reservations key)

omit [DecidableEq κ] [DecidableEq ρ] in
theorem sound_init (limit : κ → Nat) (now ttl : Int) :
    Sound limit (init now ttl : InMemoryLedger κ ρ) :=
  fun _ => Within.empty (Int.natCast_nonneg _)

variable {limit : κ → Nat} {s : InMemoryLedger κ ρ}

omit [DecidableEq κ] [DecidableEq ρ] in
theorem Sound.bounded (h : Sound limit s) : Bounded limit s :=
  fun key => ⟨(h key).spent_le, ((h key).filter s.live).fits⟩

omit [DecidableEq ρ] in
theorem Sound.update (h : Sound limit s) {d : Dict ρ Hold}
    (hd : Within Hold.amount (limit key) (s.spent key) d) :
    Sound limit { s with reservations := Function.update s.reservations key d } := by
  intro k
  by_cases hk : k = key
  · subst hk
    simpa using hd
  · simpa [hk] using h k

omit [DecidableEq ρ] in
theorem Sound.expire (h : Sound limit s) (key : κ) : Sound limit (s.expire key) :=
  h.update ((h key).filter s.live)

theorem Sound.drop (h : Sound limit s) (key : κ) (rid : ρ) : Sound limit (s.drop key rid) :=
  h.update ((h key).erase rid)

theorem Sound.reserve (h : Sound limit s) {amount : Int} (hamount : 0 ≤ amount)
    (rid : ρ) : Sound limit (s.reserve key (limit key) amount rid).2 := by
  unfold InMemoryLedger.reserve
  split
  · exact h
  · rename_i hroom
    exact h.update ((h key).grant hamount (Int.not_lt.mp hroom))

theorem Sound.settle (h : Sound limit s) {rid : ρ} {actual : Int} {held : Hold}
    (hheld : (s.reservations key).lookup rid = some held) (hactual : actual ≤ held.amount) :
    Sound limit (s.settle key rid actual).2 := by
  have haccount := (h key).settle hheld hactual
  intro k
  by_cases hk : k = key
  · subst hk
    simpa [InMemoryLedger.settle, InMemoryLedger.drop] using haccount
  · simpa [InMemoryLedger.settle, InMemoryLedger.drop, hk] using h k

theorem Sound.step (h : Sound limit s) {a : Happening κ ρ} (ha : InTime limit s a) :
    Sound limit (s.step a) := by
  cases a with
  | advance dt => exact h
  | call c =>
    cases c with
    | reserve key lim amount rid =>
      obtain ⟨rfl, hamount⟩ := ha
      exact (h.expire key).reserve hamount rid
    | settle key rid actual =>
      obtain ⟨held, hheld, hactual⟩ := ha
      exact h.settle hheld hactual
    | release key rid => exact h.drop key rid
    | usage key => exact h.expire key
    | flagOnce flag =>
      show Sound limit (s.call (.flagOnce flag)).2
      unfold InMemoryLedger.call
      dsimp only
      split <;> exact h
    | sweepExpired => exact fun key => (h key).filter s.live

end InMemoryLedger

/-! ## RedisLedger -/

/-- A run of `RedisLedger`: concurrent calls, and time that passes. -/
abbrev LedgerPool (ι κ ρ : Type) : Type := Pool (Store κ ρ) ι (Call κ ρ) (Cmd κ ρ) Cmd.Ans Exn Reply

/-- A move of a run. -/
abbrev LedgerMove (ι κ ρ : Type) : Type := Move ι (Call κ ρ) Exn Nat

namespace Store

/-- Nothing is spent or held. -/
def init (now : Int) : Store κ ρ := ⟨now, Redis.init, Pg.init⟩

/-- The reservations in Redis whose deadline has not come. -/
def unexpired (s : Store κ ρ) (key : κ) : Int :=
  ((s.redis.resv key).filter fun rid _ =>
    ((s.redis.resvz key).lookup rid).all fun deadline => s.now < deadline).total id

/-- No budget is overspent. -/
def Bounded (limit : κ → Nat) (s : Store κ ρ) : Prop :=
  ∀ key, s.redis.spent key ≤ limit key ∧ s.redis.spent key + s.unexpired key ≤ limit key

/-- The scripts are run like `InMemoryLedger.InTime` says, and no negative amount is settled. -/
def InTime (limit : κ → Nat) (s : Store κ ρ) : Cmd κ ρ → Prop
  | .reserveLua key amount lim _ _ => lim = limit key ∧ 0 ≤ amount
  | .settleLua key rid actual => 0 ≤ actual ∧ ∃ a ∈ (s.redis.resv key).lookup rid, actual ≤ a
  | _ => True

instance (limit : κ → Nat) (s : Store κ ρ) (c : Cmd κ ρ) : Decidable (InTime limit s c) := by
  unfold InTime
  split <;> infer_instance

end Store

namespace Redis

/-- The account of every key. -/
def Sound (bound : κ → Int) (r : Redis κ ρ) : Prop :=
  ∀ key, 0 ≤ r.spent key ∧ Within id (bound key) (r.spent key) (r.resv key)

/-- What is spent and held. -/
def used (r : Redis κ ρ) (key : κ) : Int := r.spent key + (r.resv key).total id

variable {bound : κ → Int} {r : Redis κ ρ}

omit [DecidableEq κ] [DecidableEq ρ] in
theorem sound_init (h : ∀ key, 0 ≤ bound key) : Sound bound (init : Redis κ ρ) :=
  fun key => ⟨le_rfl, Within.empty (h key)⟩

theorem luaSum_eq {vals : List Int} (hvals : ∀ v ∈ vals, 0 ≤ v) (hsum : vals.sum < 2 ^ 53) :
    luaSum vals = vals.sum := by
  have h : ∀ (vals : List Int) (acc : Int), 0 ≤ acc → (∀ v ∈ vals, 0 ≤ v) →
      acc + vals.sum < 2 ^ 53 →
      vals.foldl (fun held v => toDouble (held + toDouble v)) acc = acc + vals.sum := by
    intro vals
    induction vals with
    | nil =>
      intro acc _ _ _
      simp
    | cons v vals ih =>
      intro acc hacc hvals hsum
      rw [List.sum_cons] at hsum ⊢
      have hv := hvals v (by simp)
      have hrest := List.sum_nonneg fun w hw => hvals w (List.mem_cons_of_mem v hw)
      have hround : toDouble (acc + toDouble v) = acc + v := by
        rw [toDouble_of_lt hv (by omega), toDouble_of_lt (by omega) (by omega)]
      rw [List.foldl_cons, hround, ih (acc + v) (by omega)
        (fun w hw => hvals w (List.mem_cons_of_mem v hw)) (by omega)]
      omega
  have hzero := h vals 0 le_rfl hvals (by rwa [Int.zero_add])
  rwa [Int.zero_add] at hzero

omit [DecidableEq ρ] in
theorem Sound.update (h : Sound bound r) {d : Dict ρ Int}
    (hd : Within id (bound key) (r.spent key) d) (z : κ → Dict ρ Int) :
    Sound bound { r with resv := Function.update r.resv key d, resvz := z } := by
  intro k
  by_cases hk : k = key
  · subst hk
    simpa using ⟨(h k).1, hd⟩
  · simpa [hk] using h k

theorem Sound.reserveLua (h : Sound bound r) {lim : Int} (hbits : lim < 2 ^ 53)
    (hbound : bound key ≤ lim) {amount : Int} (hamount : 0 ≤ amount)
    (hroom : r.used key + amount ≤ lim → r.used key + amount ≤ bound key) (rid : ρ)
    (deadline : Int) : Sound bound (r.reserveLua key amount lim rid deadline).2 := by
  obtain ⟨hspent, haccount⟩ := h key
  have hfits : r.used key ≤ bound key := haccount.fits
  have htotal := Dict.total_nonneg haccount.nonneg
  have hused : r.used key = r.spent key + (r.resv key).total id := rfl
  have hheld : luaSum (r.resv key).values = (r.resv key).total id := by
    unfold Dict.total at hused ⊢
    rw [List.map_id] at hused ⊢
    exact luaSum_eq haccount.nonneg (by omega)
  unfold Redis.reserveLua
  split
  · exact h
  · rename_i hgrant
    have hround : toDouble (r.spent key + (r.resv key).total id) = r.used key :=
      toDouble_of_lt (by omega) (by omega)
    rw [hheld, toDouble_of_lt (show 0 ≤ lim by omega) hbits, toDouble_of_lt hspent (by omega),
      hround] at hgrant
    have hsum := le_of_toDouble_le (show 0 ≤ lim by omega) hbits (Int.not_lt.mp hgrant)
    have hsmall := le_of_toDouble_le (show 0 ≤ lim by omega) hbits
      (show toDouble amount ≤ lim by omega)
    rw [toDouble_of_lt hamount (by omega)] at hsum
    exact h.update (haccount.grant hamount (hroom hsum)) _

theorem Sound.hdel (h : Sound bound r) (key : κ) (rid : ρ) : Sound bound (r.hdel key rid) :=
  h.update ((h key).2.erase rid) _

theorem Sound.settleLua (h : Sound bound r) {rid : ρ} {actual a : Int}
    (hnonneg : 0 ≤ actual) (ha : (r.resv key).lookup rid = some a) (hactual : actual ≤ a) :
    Sound bound (r.settleLua key rid actual).2 := by
  unfold Redis.settleLua
  dsimp only
  split
  · have haccount : Within id (bound key) (r.spent key + actual) ((r.resv key).erase rid) :=
      (h key).2.settle ha hactual
    intro k
    by_cases hk : k = key
    · subst hk
      have hspent := (h k).1
      refine ⟨?_, ?_⟩
      · simpa [Redis.zrem, Redis.hdel] using Int.add_nonneg hspent hnonneg
      · simpa [Redis.zrem, Redis.hdel] using haccount
    · simpa [Redis.zrem, Redis.hdel, hk] using h k
  · exact h.hdel key rid

end Redis

namespace Store

variable {limit : κ → Nat} {s : Store κ ρ}

omit [DecidableEq κ] in
theorem bounded_of_sound (h : s.redis.Sound fun key => limit key) : Bounded limit s :=
  fun key => ⟨(h key).2.spent_le, ((h key).2.filter _).fits⟩

theorem sound_effect (hbits : ∀ key, limit key < 2 ^ 53) (h : s.redis.Sound fun key => limit key)
    {c : Cmd κ ρ} (hc : InTime limit s c) : (effect c s).2.redis.Sound fun key => limit key := by
  cases c with
  | hdel key rid => exact h.hdel key rid
  | reserveLua key amount lim rid deadline =>
    obtain ⟨rfl, hamount⟩ := hc
    exact h.reserveLua (by exact_mod_cast hbits key) le_rfl hamount id rid deadline
  | settleLua key rid actual =>
    obtain ⟨hnonneg, a, ha, hactual⟩ := hc
    exact h.settleLua hnonneg ha hactual
  | _ => exact h

end Store

/-! ## Whole runs -/

section Runs

variable {ι : Type} [DecidableEq ι]

/-- A run of `RedisLedger`. -/
def redisStep (ttl : Int) : LedgerPool ι κ ρ → LedgerMove ι κ ρ → LedgerPool ι κ ρ :=
  Pool.step (RedisLedger.call ttl) effect advance

/-- The operation of a move is in time. -/
def MoveInTime (limit : κ → Nat) (w : LedgerPool ι κ ρ) (m : LedgerMove ι κ ρ) : Prop :=
  ∀ c ∈ w.operation m, Store.InTime limit w.store c

instance (limit : κ → Nat) (w : LedgerPool ι κ ρ) (m : LedgerMove ι κ ρ) :
    Decidable (MoveInTime limit w m) :=
  inferInstanceAs (Decidable (∀ c ∈ w.operation m, Store.InTime limit w.store c))

/-- No key is ever over its limit, in a run of either ledger whose settlements are all in
time; a limit in Redis stays under 53 bits. -/
theorem hard_budget (limit : κ → Nat) (now ttl : Int) : (∀ hs : List (Happening κ ρ),
      Each InMemoryLedger.step (InMemoryLedger.InTime limit) (.init now ttl) hs →
        Always InMemoryLedger.step (InMemoryLedger.Bounded limit) (.init now ttl) hs) ∧
    ((∀ key, limit key < 2 ^ 53) → ∀ ms : List (LedgerMove ι κ ρ),
      Each (redisStep ttl) (MoveInTime limit) (Pool.idle (.init now)) ms →
        Always (redisStep ttl) (fun w => w.store.Bounded limit) (Pool.idle (.init now)) ms) := by
  constructor
  · intro hs hintime done hdone
    have hsound := always_of_each (P := InMemoryLedger.Sound limit)
      (fun _ _ h ha => h.step ha) (InMemoryLedger.sound_init limit now ttl) hintime
    exact (hsound done hdone).bounded
  · intro hbits ms hintime done hdone
    have hsound := Pool.run_invariant (RedisLedger.call ttl) effect advance
      (I := fun s : Store κ ρ => s.redis.Sound fun key => limit key)
      (C := fun w c => Store.InTime limit w.store c)
      (fun _ _ h hc => Store.sound_effect hbits h hc) (fun _ _ h => h)
      (Redis.sound_init fun _ => Int.natCast_nonneg _) ms hintime
    exact Store.bounded_of_sound (hsound done hdone)

end Runs

/-- The limit of the sample key, ten cents. -/
def sampleLimit : Bytes → Nat := fun _ => 10

def sampleKey : Bytes := bytes "bud:b-1:2026-07-08"

/-- One reservation of each ledger, settled before it expires. -/
theorem hard_budget_sample : Always InMemoryLedger.step (InMemoryLedger.Bounded sampleLimit)
      (.init 0 reservationTTLDefault)
      [.call (.reserve sampleKey 10 10 1), .call (.settle sampleKey 1 7)] ∧
    Always (redisStep reservationTTLDefault) (fun w => w.store.Bounded sampleLimit)
      (Pool.idle (.init 0) : LedgerPool Bool Bytes Nat)
      [.start true (.reserve sampleKey 10 10 1), .go true, .go true, .go true, .go true,
        .start false (.settle sampleKey 1 7), .go false] :=
  ⟨(hard_budget (ι := Bool) sampleLimit 0 reservationTTLDefault).1 _ (by decide),
    (hard_budget sampleLimit 0 reservationTTLDefault).2 (fun _ => show 10 < 2 ^ 53 by decide)
      _ (by decide)⟩

/-! ## A settlement after the expiry -/

/-- A ledger with the reservations it has granted and those that were settled. -/
structure Observed (κ ρ : Type) where
  ledger : InMemoryLedger κ ρ
  granted : List (κ × ρ × Int)
  settled : List (κ × ρ)

namespace Observed

def step (o : Observed κ ρ) (h : Happening κ ρ) : Observed κ ρ :=
  match h with
  | .call (.reserve key lim amount rid) =>
    { o with
      ledger := o.ledger.step h
      granted := if (o.ledger.call (.reserve key lim amount rid)).1 = .reserved true
        then o.granted ++ [(key, rid, amount)] else o.granted }
  | .call (.settle key rid _) =>
    { o with ledger := o.ledger.step h, settled := o.settled ++ [(key, rid)] }
  | _ => { o with ledger := o.ledger.step h }

/-- A reservation is settled at most once and for at most its amount; a reserve has the
limit of its key, and no amount is negative. -/
def SettlesOnce (limit : κ → Nat) (o : Observed κ ρ) : Happening κ ρ → Prop
  | .call (.reserve key lim amount _) => lim = limit key ∧ 0 ≤ amount
  | .call (.settle key rid actual) =>
    0 ≤ actual ∧ (∃ g ∈ o.granted, g.1 = key ∧ g.2.1 = rid ∧ actual ≤ g.2.2) ∧
      (key, rid) ∉ o.settled
  | _ => True

instance (limit : κ → Nat) (o : Observed κ ρ) (h : Happening κ ρ) :
    Decidable (SettlesOnce limit o h) := by
  unfold SettlesOnce
  split <;> infer_instance

end Observed

/-- Two reservations of the whole limit, the second after the first has expired; then both
are settled. -/
def lateSettle : List (Happening Bytes Nat) :=
  [.call (.reserve sampleKey 10 10 1), .advance 180000000, .call (.reserve sampleKey 10 10 2),
    .call (.settle sampleKey 1 10), .call (.settle sampleKey 2 10)]

theorem late_settle_overspends : ¬ ∀ hs : List (Happening Bytes Nat),
      Each Observed.step (Observed.SettlesOnce sampleLimit)
          ⟨.init 0 reservationTTLDefault, [], []⟩ hs →
        Always Observed.step (fun o => o.ledger.Bounded sampleLimit)
          ⟨.init 0 reservationTTLDefault, [], []⟩ hs := by
  intro h
  have hbounded := h lateSettle (by decide) lateSettle List.prefix_rfl sampleKey
  have hspent : (run Observed.step ⟨.init 0 reservationTTLDefault, [], []⟩
      lateSettle).ledger.spent sampleKey = 20 := by decide
  rw [hspent] at hbounded
  exact absurd hbounded.1 (by decide)

end Windrose.Gateway

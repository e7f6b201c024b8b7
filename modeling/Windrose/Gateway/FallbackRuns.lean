/-
  Gateway/FallbackRuns.lean --- the budget over both ledgers.

  Source: services/ai-gateway/app/adapters/ledger.py (FallbackLedger).

  Each call of `FallbackLedger` goes to Redis, and to Postgres when Redis does not answer.
  The two stores know nothing of each other: a key has its whole limit in each, and a
  settlement that reaches the other store leaves the reservation where it was.
-/
import Windrose.Gateway.LedgerRuns

set_option autoImplicit false

namespace Windrose.Gateway

open Windrose.Foundation

variable {κ ρ ι : Type} [DecidableEq κ] [DecidableEq ρ] [DecidableEq ι]

/-! ## What a ledger holds -/

/-- What is spent and held under a key. -/
def Pg.used (d : Pg κ ρ) (key : κ) : Int := d.spend key + held d.reservations key

/-- Without the rows that `reserve` deletes first. -/
def Pg.unexpired (d : Pg κ ρ) (key : κ) (now : Int) : Pg κ ρ :=
  { d with reservations := d.reservations.filter fun _ r => !(r.key = key && r.expiresAt ≤ now) }

/-- Postgres holds the reservation. -/
def Pg.Holds (d : Pg κ ρ) (key : κ) (rid : ρ) : Prop :=
  ∃ row ∈ d.reservations.lookup rid, row.key = key

/-- One of the two holds the reservation. -/
def Store.Holds (s : Store κ ρ) (key : κ) (rid : ρ) : Prop :=
  (∃ a, (s.redis.resv key).lookup rid = some a) ∨ s.pg.Holds key rid

/-- The call ends the reservation. -/
def Call.ends (key : κ) (rid : ρ) : Call κ ρ → Bool
  | .settle k r _ => k = key && r = rid
  | .release k r => k = key && r = rid
  | _ => false

/-- The call makes the reservation. -/
def Call.makes (rid : ρ) : Call κ ρ → Bool
  | .reserve _ _ _ r => r = rid
  | _ => false

/-- The call reserves at least the amount. -/
def Call.grants (key : κ) (rid : ρ) (actual : Int) : Call κ ρ → Bool
  | .reserve k _ amount r => k = key && r = rid && actual ≤ amount
  | _ => false

/-- The operation goes to Redis. -/
def Cmd.onRedis : Cmd κ ρ → Bool
  | .zrangebyscore _ _ | .hdel _ _ | .zrem _ _ | .reserveLua _ _ _ _ _ | .settleLua _ _ _
  | .get _ | .hvals _ | .setNX _ => true
  | _ => false

/-- The operation takes the reservation out of a ledger. -/
def Cmd.ends (key : κ) (rid : ρ) : Cmd κ ρ → Bool
  | .settleLua k r _ => k = key && r = rid
  | .hdel k r => k = key && r = rid
  | .pgSettle k r _ => k = key && r = rid
  | .pgRelease k r => k = key && r = rid
  | _ => false

/-- The total of the settled amounts stays under the limit, and a reservation that was
settled or released is held nowhere. -/
structure BudgetKept (limit : κ → Nat) (w : LedgerPool ι κ ρ) : Prop where
  total : ∀ key, w.store.redis.spent key + w.store.pg.spend key ≤ limit key
  freed : ∀ c reply, (c, .ok reply) ∈ w.log → ∀ key rid, c.ends key rid = true →
    ¬ w.store.Holds key rid

/-- What fits one ledger fits beside the other. -/
def FitsBoth (limit own other amount : Int) : Prop :=
  own + amount ≤ limit → own + amount ≤ limit - other

/-- A reservation has a new id, and fits both ledgers together if it fits the one that is
asked; it is settled where it is held, for at most its amount, and it is not looked for
in one ledger while the other holds it. -/
def Touches (limit : κ → Nat) (w : LedgerPool ι κ ρ) : Cmd κ ρ → Prop
  | .reserveLua key amount lim rid _ =>
    lim = limit key ∧ 0 ≤ amount ∧ (∀ c ∈ w.started, c.ends key rid = false) ∧
      ¬ w.store.Holds key rid ∧
      FitsBoth lim (w.store.redis.used key) (w.store.pg.used key) amount
  | .pgReserve key lim amount rid now _ =>
    lim = limit key ∧ 0 ≤ amount ∧ (∀ c ∈ w.started, c.ends key rid = false) ∧
      ¬ w.store.Holds key rid ∧
      FitsBoth lim ((w.store.pg.unexpired key now).used key) (w.store.redis.used key) amount
  | .settleLua key rid actual => 0 ≤ actual ∧ ∃ a ∈ (w.store.redis.resv key).lookup rid, actual ≤ a
  | .pgSettle key rid actual =>
    0 ≤ actual ∧ ∃ row ∈ w.store.pg.reservations.lookup rid, row.key = key ∧ actual ≤ row.amount
  | .hdel key rid => ¬ w.store.pg.Holds key rid
  | .pgRelease key rid => (w.store.redis.resv key).lookup rid = none
  | _ => True

instance (d : Pg κ ρ) (key : κ) (rid : ρ) : Decidable (d.Holds key rid) :=
  inferInstanceAs (Decidable (∃ row ∈ d.reservations.lookup rid, row.key = key))

instance (s : Store κ ρ) (key : κ) (rid : ρ) : Decidable (s.Holds key rid) :=
  decidable_of_iff (((s.redis.resv key).lookup rid).isSome ∨ s.pg.Holds key rid)
    (by rw [Option.isSome_iff_exists]; rfl)

instance (limit own other amount : Int) : Decidable (FitsBoth limit own other amount) :=
  inferInstanceAs (Decidable (_ → _))

instance (limit : κ → Nat) (w : LedgerPool ι κ ρ) : (o : Cmd κ ρ) → Decidable (Touches limit w o)
  | .reserveLua _ _ _ _ _ => inferInstanceAs (Decidable (_ ∧ _ ∧ _ ∧ _ ∧ FitsBoth _ _ _ _))
  | .pgReserve _ _ _ _ _ _ => inferInstanceAs (Decidable (_ ∧ _ ∧ _ ∧ _ ∧ FitsBoth _ _ _ _))
  | .settleLua _ _ actual =>
    inferInstanceAs (Decidable (0 ≤ actual ∧ ∃ a ∈ (_ : Option Int), actual ≤ a))
  | .pgSettle key _ actual =>
    inferInstanceAs
      (Decidable (0 ≤ actual ∧ ∃ row ∈ (_ : Option (Row κ)), row.key = key ∧ actual ≤ row.amount))
  | .hdel _ _ => inferInstanceAs (Decidable (¬ _))
  | .pgRelease _ _ => inferInstanceAs (Decidable (_ = none))
  | .clockNow | .zrangebyscore _ _ | .zrem _ _ | .get _ | .hvals _ | .setNX _ | .pgUsage _ _
  | .pgFlagOnce _ | .pgSweepExpired _ => inferInstanceAs (Decidable True)

/-- A run of `FallbackLedger`. -/
def fallbackStep (ttl : Int) : LedgerPool ι κ ρ → LedgerMove ι κ ρ → LedgerPool ι κ ρ :=
  Pool.step (FallbackLedger.call ttl) effect advance

/-! ## The accounts of both ledgers -/

/-- The amount of a row under its key. -/
def Row.under (key : κ) (row : Row κ) : Int := if row.key = key then row.amount else 0

/-- The account of every key in Postgres. -/
def Pg.Sound (bound : κ → Int) (d : Pg κ ρ) : Prop :=
  ∀ key, 0 ≤ d.spend key ∧ Within (Row.under key) (bound key) (d.spend key) d.reservations

/-- Each ledger is sound beside the other, and no reservation is held in both. -/
structure Shared (limit : κ → Nat) (s : Store κ ρ) : Prop where
  redis : s.redis.Sound fun key => limit key - s.pg.used key
  pg : s.pg.Sound fun key => limit key - s.redis.used key
  once : ∀ key rid a, (s.redis.resv key).lookup rid = some a → ¬ s.pg.Holds key rid

variable {key k : κ} {rid : ρ} {amount actual : Int}

namespace Pg

variable {bound : κ → Int} {d : Pg κ ρ}

omit [DecidableEq ρ] in
theorem Sound.keep (h : Sound bound d) (p : ρ → Row κ → Bool) :
    Sound bound { d with reservations := d.reservations.filter p } :=
  fun k => ⟨(h k).1, (h k).2.filter p⟩

theorem Sound.reserve (h : Sound bound d) {lim : Int} (hamount : 0 ≤ amount)
    {now : Int} (hroom : (d.unexpired key now).used key + amount ≤ lim →
      (d.unexpired key now).used key + amount ≤ bound key) (rid : ρ) (expiresAt : Int) :
    Sound bound (d.reserve key lim amount rid now expiresAt).2 := by
  unfold Pg.reserve
  dsimp only
  split
  · exact h.keep _
  · rename_i hgrant
    split
    · exact h
    · intro k
      refine ⟨(h k).1, ((h k).2.filter _).grant ?_ ?_⟩
      · unfold Row.under
        split
        · exact hamount
        · exact le_rfl
      · by_cases hk : key = k
        · subst hk
          rw [Row.under, if_pos rfl]
          exact hroom (Int.not_lt.mp hgrant)
        · rw [Row.under, if_neg hk, Int.add_zero]
          exact ((h k).2.filter _).fits

theorem Sound.release (h : Sound bound d) (rid : ρ) : Sound bound (d.release rid) :=
  fun k => ⟨(h k).1, (h k).2.erase rid⟩

theorem Sound.settle (h : Sound bound d) {row : Row κ}
    (hnonneg : 0 ≤ actual) (hrow : d.reservations.lookup rid = some row) (hkey : row.key = key)
    (hactual : actual ≤ row.amount) : Sound bound (d.settle key rid actual).2 := by
  intro k
  obtain ⟨hspent, haccount⟩ := h k
  by_cases hk : k = key
  · subst hk
    have hsettled := haccount.settle hrow (show actual ≤
        row.under k by rwa [Row.under, if_pos hkey])
    refine ⟨?_, ?_⟩
    · simpa [Pg.settle] using Int.add_nonneg hspent hnonneg
    · simpa [Pg.settle, Pg.release] using hsettled
  · refine ⟨?_, ?_⟩
    · simpa [Pg.settle, hk] using hspent
    · simpa [Pg.settle, Pg.release, hk] using haccount.erase rid

theorem holds_reserve {limit : Int} {r : ρ} {now expiresAt : Int}
    (h : (d.reserve key limit amount rid now expiresAt).2.Holds k r) :
    d.Holds k r ∨ (k = key ∧ r = rid) := by
  have hkept : ∀ {p : ρ → Row κ → Bool}, ({ d with reservations := d.reservations.filter p } :
      Pg κ ρ).Holds k r → d.Holds k r := by
    rintro p ⟨row, hrow, hkey⟩
    exact ⟨row, Dict.lookup_of_filter hrow, hkey⟩
  unfold Pg.reserve at h
  dsimp only at h
  split at h
  · exact .inl (hkept h)
  · split at h
    · exact .inl h
    · obtain ⟨row, hrow, hkey⟩ := h
      by_cases hr : r = rid
      · subst hr
        rw [AList.lookup_insert] at hrow
        obtain rfl := Option.some.inj hrow
        exact .inr ⟨hkey.symm, rfl⟩
      · rw [AList.lookup_insert_ne hr] at hrow
        exact .inl (hkept ⟨row, hrow, hkey⟩)

omit [DecidableEq κ] in
theorem holds_release {r : ρ} (h : (d.release rid).Holds key r) : d.Holds key r ∧ r ≠ rid := by
  obtain ⟨row, hrow, hkey⟩ := h
  by_cases hr : r = rid
  · subst hr
    rw [release, AList.lookup_erase] at hrow
    cases hrow
  · rw [release, AList.lookup_erase_ne hr] at hrow
    exact ⟨⟨row, hrow, hkey⟩, hr⟩

theorem holds_settle {r : ρ} (h : (d.settle key rid actual).2.Holds k r) : d.Holds k r ∧ r ≠ rid :=
  holds_release (d := d) h

end Pg

/-! ## What no ledger holds any more -/

/-- The operation makes the reservation. -/
def Cmd.reserves (key : κ) (rid : ρ) : Cmd κ ρ → Prop
  | .reserveLua k _ _ r _ => k = key ∧ r = rid
  | .pgReserve k _ _ r _ _ => k = key ∧ r = rid
  | _ => False

variable {o : Cmd κ ρ} {r : Redis κ ρ} {a : Int}

section Holds

variable {limit : κ → Nat} {s : Store κ ρ} {w : LedgerPool ι κ ρ} {key : κ} {rid : ρ}

theorem Redis.lookup_of_hdel {i : ρ} (h : ((r.hdel k i).resv key).lookup rid = some a) :
    (r.resv key).lookup rid = some a ∧ (k = key → i ≠ rid) := by
  by_cases hk : key = k
  · subst hk
    simp only [Redis.hdel, Function.update_self] at h
    by_cases hi : rid = i
    · subst hi
      rw [AList.lookup_erase] at h
      cases h
    · rw [AList.lookup_erase_ne hi] at h
      exact ⟨h, fun _ => Ne.symm hi⟩
  · simp only [Redis.hdel, Function.update_of_ne hk] at h
    exact ⟨h, fun h' => absurd h'.symm hk⟩

theorem Redis.lookup_of_settleLua {i : ρ}
    (h : ((r.settleLua k i actual).2.resv key).lookup rid = some a) :
    (r.resv key).lookup rid = some a ∧ (k = key → i ≠ rid) := by
  unfold Redis.settleLua at h
  dsimp only at h
  split at h <;> exact Redis.lookup_of_hdel h

theorem Redis.lookup_of_reserveLua {i : ρ} {lim deadline : Int}
    (h : ((r.reserveLua k amount lim i deadline).2.resv key).lookup rid = some a) :
    (r.resv key).lookup rid = some a ∨ (k = key ∧ i = rid) := by
  unfold Redis.reserveLua at h
  split at h
  · exact .inl h
  · by_cases hk : key = k
    · subst hk
      simp only [Function.update_self] at h
      by_cases hi : rid = i
      · exact .inr ⟨rfl, hi.symm⟩
      · rw [AList.lookup_insert_ne hi] at h
        exact .inl h
    · simp only [Function.update_of_ne hk] at h
      exact .inl h

theorem redis_effect (h : ((effect o s).2.redis.resv key).lookup rid = some a) :
    (s.redis.resv key).lookup rid = some a ∨ (o.reserves key rid ∧ (effect o s).2.pg = s.pg) := by
  cases o with
  | reserveLua k amount lim i deadline =>
    exact (Redis.lookup_of_reserveLua h).imp_right fun h => ⟨h, rfl⟩
  | settleLua k i actual => exact .inl (Redis.lookup_of_settleLua h).1
  | hdel k i => exact .inl (Redis.lookup_of_hdel h).1
  | _ => exact .inl h

theorem pg_effect (h : (effect o s).2.pg.Holds key rid) :
    s.pg.Holds key rid ∨ (o.reserves key rid ∧ (effect o s).2.redis = s.redis) := by
  cases o with
  | pgReserve k lim amount i now expiresAt =>
    obtain h | ⟨rfl, rfl⟩ := Pg.holds_reserve h
    · exact .inl h
    · exact .inr ⟨⟨rfl, rfl⟩, rfl⟩
  | pgSettle k i actual => exact .inl (Pg.holds_settle h).1
  | pgRelease k i => exact .inl (Pg.holds_release h).1
  | pgSweepExpired now =>
    obtain ⟨row, hrow, hkey⟩ := h
    exact .inl ⟨row, Dict.lookup_of_filter hrow, hkey⟩
  | _ => exact .inl h

theorem holds_effect (h : (effect o s).2.Holds key rid) : s.Holds key rid ∨ o.reserves key rid := by
  obtain ⟨a, ha⟩ | h := h
  · exact (redis_effect ha).imp (fun ha => .inl ⟨a, ha⟩) And.left
  · exact (pg_effect h).imp .inr And.left

omit [DecidableEq ι] in
theorem Touches.fresh (ho : Touches limit w o) (h : o.reserves key rid) :
    ¬ w.store.Holds key rid ∧ ∀ c ∈ w.started, c.ends key rid = false := by
  cases o with
  | reserveLua k amount lim i deadline =>
    obtain ⟨rfl, rfl⟩ := h
    exact ⟨ho.2.2.2.1, ho.2.2.1⟩
  | pgReserve k lim amount i now expiresAt =>
    obtain ⟨rfl, rfl⟩ := h
    exact ⟨ho.2.2.2.1, ho.2.2.1⟩
  | _ => exact h.elim

omit [DecidableEq ι] in
theorem freed_effect (h : Shared limit w.store) (ho : Touches limit w o)
    (hends : o.ends key rid = true) : ¬ (effect o w.store).2.Holds key rid := by
  cases o with
  | settleLua k i actual =>
    obtain ⟨-, a, ha, -⟩ := ho
    obtain ⟨rfl, rfl⟩ : k = key ∧ i = rid := by simpa [Cmd.ends] using hends
    rintro (⟨b, hb⟩ | ⟨row, hrow, hkey⟩)
    · exact (Redis.lookup_of_settleLua hb).2 rfl rfl
    · exact h.once k i a ha ⟨row, hrow, hkey⟩
  | hdel k i =>
    obtain ⟨rfl, rfl⟩ : k = key ∧ i = rid := by simpa [Cmd.ends] using hends
    rintro (⟨b, hb⟩ | hpg)
    · exact (Redis.lookup_of_hdel hb).2 rfl rfl
    · exact ho hpg
  | pgSettle k i actual =>
    obtain ⟨-, row, hrow, hkey, -⟩ := ho
    obtain ⟨rfl, rfl⟩ : k = key ∧ i = rid := by simpa [Cmd.ends] using hends
    rintro (⟨b, hb⟩ | hpg)
    · exact h.once k i b hb ⟨row, hrow, hkey⟩
    · exact (Pg.holds_settle hpg).2 rfl
  | pgRelease k i =>
    obtain ⟨rfl, rfl⟩ : k = key ∧ i = rid := by simpa [Cmd.ends] using hends
    rintro (⟨b, hb⟩ | hpg)
    · exact absurd (hb.symm.trans ho) (by simp)
    · exact (Pg.holds_release hpg).2 rfl
  | _ => cases hends

end Holds

/-! ## The ledgers together -/

namespace Shared

variable {limit : κ → Nat} {s : Store κ ρ} {w : LedgerPool ι κ ρ}

theorem total_le (h : Shared limit s) (key : κ) :
    s.redis.spent key + s.pg.spend key ≤ limit key := by
  have hredis : s.redis.spent key ≤ limit key - s.pg.used key := (h.redis key).2.spent_le
  have hheld : 0 ≤ Pg.held s.pg.reservations key := Dict.total_nonneg (h.pg key).2.nonneg
  unfold Pg.used at hredis
  omega

theorem withRedis (h : Shared limit s) (hr : r.Sound fun key => limit key - s.pg.used key)
    (honce : ∀ key rid a, (r.resv key).lookup rid = some a → ¬ s.pg.Holds key rid) :
    Shared limit { s with redis := r } := by
  refine ⟨hr, fun key => ⟨(h.pg key).1, (h.pg key).2.nonneg, ?_⟩, honce⟩
  have hfits : r.used key ≤ limit key - s.pg.used key := (hr key).2.fits
  have hused : s.pg.used key = s.pg.spend key + s.pg.reservations.total (Row.under key) := rfl
  show s.pg.spend key + s.pg.reservations.total (Row.under key) ≤ limit key - r.used key
  omega

theorem withPg (h : Shared limit s) {d : Pg κ ρ}
    (hd : d.Sound fun key => limit key - s.redis.used key)
    (honce : ∀ key rid a, (s.redis.resv key).lookup rid = some a → ¬ d.Holds key rid) :
    Shared limit { s with pg := d } := by
  refine ⟨fun key => ⟨(h.redis key).1, (h.redis key).2.nonneg, ?_⟩, hd, honce⟩
  have hfits : d.used key ≤ limit key - s.redis.used key := (hd key).2.fits
  have hused : s.redis.used key = s.redis.spent key + (s.redis.resv key).total id := rfl
  show s.redis.spent key + (s.redis.resv key).total id ≤ limit key - d.used key
  omega

omit [DecidableEq ι] in
theorem once_effect (h : Shared limit w.store) (ho : Touches limit w o) (key : κ)
    (rid : ρ) (a : Int) (ha : ((Gateway.effect o w.store).2.redis.resv key).lookup rid = some a) :
    ¬ (Gateway.effect o w.store).2.pg.Holds key rid := by
  intro hpg
  obtain hredis | ⟨hreserves, hsame⟩ := redis_effect ha
  · obtain hpg | ⟨hreserves, -⟩ := pg_effect hpg
    · exact h.once key rid a hredis hpg
    · exact (ho.fresh hreserves).1 (.inl ⟨a, hredis⟩)
  · rw [hsame] at hpg
    exact (ho.fresh hreserves).1 (.inr hpg)

omit [DecidableEq ι] in
theorem effect (hbits : ∀ key, limit key < 2 ^ 53) (h : Shared limit w.store)
    (ho : Touches limit w o) : Shared limit (effect o w.store).2 := by
  have honce := h.once_effect ho
  cases o with
  | reserveLua key amount lim rid deadline =>
    obtain ⟨rfl, hamount, -, -, hfits⟩ := ho
    have hpg : 0 ≤ w.store.pg.used key :=
      Int.add_nonneg (h.pg key).1 (Dict.total_nonneg (h.pg key).2.nonneg)
    have hbound : (limit key : Int) - w.store.pg.used key ≤ limit key := by omega
    exact h.withRedis
      (h.redis.reserveLua (by exact_mod_cast hbits key) hbound hamount hfits rid deadline) honce
  | settleLua key rid actual =>
    obtain ⟨hnonneg, a, ha, hactual⟩ := ho
    exact h.withRedis (h.redis.settleLua hnonneg ha hactual) honce
  | hdel key rid => exact h.withRedis (h.redis.hdel key rid) honce
  | pgReserve key lim amount rid now expiresAt =>
    obtain ⟨rfl, hamount, -, -, hfits⟩ := ho
    exact h.withPg (h.pg.reserve hamount hfits rid expiresAt) honce
  | pgSettle key rid actual =>
    obtain ⟨hnonneg, row, hrow, hkey, hactual⟩ := ho
    exact h.withPg (h.pg.settle hnonneg hrow hkey hactual) honce
  | pgRelease key rid => exact h.withPg (h.pg.release rid) honce
  | pgSweepExpired now => exact h.withPg (h.pg.keep _) honce
  | _ => exact ⟨h.redis, h.pg, h.once⟩

end Shared

/-! ## The calls that end a reservation -/

/-- The program answers only after an operation that ended the reservation, unless that is
done already. -/
def Pending (key : κ) (rid : ρ) : Bool → LedgerProg κ ρ Reply → Prop
  | gone, .done _ => gone = true
  | _, .raise _ => True
  | gone, .await o k =>
    (∀ e, Pending key rid gone (k (.error e))) ∧
      ∀ a, Pending key rid (gone || o.ends key rid) (k (.ok a))

section Pending

variable {key : κ} {rid : ρ} {gone : Bool}

theorem pending_exec {f : o.Ans → LedgerProg κ ρ Reply}
    (h : ∀ a, Pending key rid (gone || o.ends key rid) (f a)) :
    Pending key rid gone (exec o >>= f) :=
  ⟨fun _ => trivial, h⟩

theorem Pending.tryCatch {p : LedgerProg κ ρ Reply} {f : Exn → LedgerProg κ ρ Reply}
    (hp : Pending key rid gone p) (hf : ∀ gone e, Pending key rid gone (f e)) :
    Pending key rid gone (p.tryCatch f) := by
  induction p generalizing gone with
  | done a => exact hp
  | raise e => exact hf gone e
  | await o k ih => exact ⟨fun e => ih (.error e) (hp.1 e), fun a => ih (.ok a) (hp.2 a)⟩

theorem Pending.orUnavailable {p : LedgerProg κ ρ Reply} (hp : Pending key rid gone p) :
    Pending key rid gone (orUnavailable p) :=
  hp.tryCatch fun _ _ => trivial

theorem pending_ends (o : Cmd κ ρ) {f : o.Ans → Reply} (h : o.ends key rid = true) :
    Pending key rid gone (exec o >>= fun a => .done (f a)) :=
  pending_exec fun _ => by rw [h, Bool.or_true]; rfl

theorem pending_redis (ttl : Int) {c : Call κ ρ} (h : c.ends key rid = true) :
    Pending key rid gone (RedisLedger.call ttl c) := by
  cases c with
  | settle k r actual => exact (pending_ends (.settleLua k r actual) h).orUnavailable
  | release k r =>
    refine (pending_exec fun _ => pending_exec fun _ => ?_).orUnavailable
    rw [show (Cmd.hdel k r).ends key rid = true from h, Bool.or_true, Bool.true_or]
    rfl
  | _ => cases h

theorem pending_pg (ttl : Int) {c : Call κ ρ} (h : c.ends key rid = true) :
    Pending key rid gone (PgLedger.call ttl c) := by
  cases c with
  | settle k r actual => exact (pending_ends (.pgSettle k r actual) h).orUnavailable
  | release k r => exact (pending_ends (.pgRelease k r) h).orUnavailable
  | _ => cases h

theorem pending_call (ttl : Int) {c : Call κ ρ} (h : c.ends key rid = true) :
    Pending key rid gone (FallbackLedger.call ttl c) := by
  refine (pending_redis ttl h).tryCatch fun gone e => ?_
  cases e with
  | ledgerUnavailable => exact pending_pg ttl h
  | _ => trivial

end Pending

/-! ## Whole runs -/

/-- What a call that ends a reservation still has to do. -/
def Ending (c : Call κ ρ) (p : LedgerProg κ ρ Reply) (s : Store κ ρ) : Prop :=
  ∀ key rid, c.ends key rid = true →
    ∃ gone, Pending key rid gone p ∧ (gone = true → ¬ s.Holds key rid)

section Ending

variable {limit : κ → Nat} {w : LedgerPool ι κ ρ} {o : Cmd κ ρ} {c : Call κ ρ}

omit [DecidableEq ι] in
theorem not_holds_effect (ho : Touches limit w o) (hc : c ∈ w.started)
    (hends : c.ends key rid = true) (hfree : ¬ w.store.Holds key rid) :
    ¬ (effect o w.store).2.Holds key rid := by
  intro hholds
  obtain h | h := holds_effect hholds
  · exact hfree h
  · have hnone := (ho.fresh h).2 c hc
    rw [hends] at hnone
    cases hnone

omit [DecidableEq ι] in
theorem Ending.others (ho : Touches limit w o) (hc : c ∈ w.started) {p : LedgerProg κ ρ Reply}
    (h : Ending c p w.store) : Ending c p (effect o w.store).2 := by
  intro key rid hends
  obtain ⟨gone, hp, hfree⟩ := h key rid hends
  exact ⟨gone, hp, fun hgone => not_holds_effect ho hc hends (hfree hgone)⟩

omit [DecidableEq ι] in
theorem Ending.next (hshared : Shared limit w.store) (ho : Touches limit w o) (hc : c ∈ w.started)
    {k : Except Exn o.Ans → LedgerProg κ ρ Reply} (h : Ending c (.await o k) w.store) :
    Ending c (k (effect o w.store).1) (effect o w.store).2 := by
  intro key rid hends
  obtain ⟨gone, ⟨herror, hok⟩, hfree⟩ := h key rid hends
  cases hanswer : (effect o w.store).1 with
  | error e => exact ⟨gone, herror e, fun hgone => not_holds_effect ho hc hends (hfree hgone)⟩
  | ok a =>
    refine ⟨gone || o.ends key rid, hok a, fun hgone => ?_⟩
    obtain hgone | hgone := (Bool.or_eq_true _ _).mp hgone
    · exact not_holds_effect ho hc hends (hfree hgone)
    · exact freed_effect hshared ho hgone

end Ending

/-- The operation of a move meets the condition. -/
def MoveTouches (limit : κ → Nat) (w : LedgerPool ι κ ρ) (m : LedgerMove ι κ ρ) : Prop :=
  ∀ o ∈ w.operation m, Touches limit w o

instance (limit : κ → Nat) (w : LedgerPool ι κ ρ) (m : LedgerMove ι κ ρ) :
    Decidable (MoveTouches limit w m) :=
  inferInstanceAs (Decidable (∀ o ∈ w.operation m, Touches limit w o))

/-- The budget holds over both ledgers in a run in which no ledger grants what does not fit
beside the other, and each reservation is settled or released where it is held. -/
theorem fallback_budget (limit : κ → Nat) (hbits : ∀ key, limit key < 2 ^ 53) (now ttl : Int)
    (ms : List (LedgerMove ι κ ρ))
    (hms : Each (fallbackStep ttl) (MoveTouches limit) (Pool.idle (.init now)) ms) :
    Always (fallbackStep ttl) (BudgetKept limit) (Pool.idle (.init now)) ms := by
  have hinit : Shared limit (.init now : Store κ ρ) :=
    ⟨Redis.sound_init fun _ => Int.natCast_nonneg _,
      fun _ => ⟨le_rfl, Within.empty (Int.natCast_nonneg _)⟩, fun _ _ _ h => by cases h⟩
  have hattended := Pool.run_attended (FallbackLedger.call ttl) effect advance
    (I := Shared limit) (T := Ending) (C := Touches limit)
    (fun c s _ key rid hends => ⟨false, pending_call ttl hends, by simp⟩)
    (fun w o h ho _ => h.effect hbits ho)
    (fun w o _ ho c hc p h => h.others ho hc)
    (fun w o h ho c hc k hk => hk.next h ho hc)
    (fun s c o k e h key rid hends =>
      (h key rid hends).imp fun _ hp => ⟨hp.1.1 e, hp.2⟩)
    (fun s t h => ⟨⟨h.redis, h.pg, h.once⟩, fun c p hp => hp⟩) hinit ms hms
  intro done hdone
  obtain ⟨hshared, -, hlog⟩ := hattended done hdone
  refine ⟨fun key => hshared.total_le key, fun c reply hmem key rid hends => ?_⟩
  obtain ⟨gone, hgone, hfree⟩ := (hlog c _ hmem).2 key rid hends
  exact hfree hgone

/-! ## An outage between two reservations -/

/-- A reservation of 7 cents in Redis and one of 3 in Postgres, both settled. -/
theorem fallback_budget_sample :
    Always (fallbackStep reservationTTLDefault) (BudgetKept sampleLimit)
      (Pool.idle (.init 0) : LedgerPool Bool Bytes Nat)
      [.start true (.reserve sampleKey 10 7 1), .go true, .go true, .go true, .go true,
        .start true (.settle sampleKey 1 7), .go true,
        .start true (.reserve sampleKey 10 3 2), .go true, .fail true .exception, .go true,
          .go true,
        .start true (.settle sampleKey 2 3), .fail true .exception, .go true] :=
  fallback_budget sampleLimit (fun _ => show 10 < 2 ^ 53 by decide) 0 reservationTTLDefault _
    (by decide)

/-- What the callers and the fallback do: a reservation has the limit of its key, no negative
amount and a new id; a settlement follows its reservation, once, and takes at most its
amount; Postgres does not fail, and no time passes. -/
def Orderly (limit : κ → Nat) (w : LedgerPool ι κ ρ) : LedgerMove ι κ ρ → Prop
  | .start _ (.reserve key lim amount rid) =>
    lim = limit key ∧ 0 ≤ amount ∧ ∀ c ∈ w.started, c.makes rid = false
  | .start _ (.settle key rid actual) =>
    0 ≤ actual ∧ (∃ e ∈ w.log, e.2 = .ok (.reserved true) ∧ e.1.grants key rid actual = true) ∧
      ∀ c ∈ w.started, c.ends key rid = false
  | .fail i _ => ∀ p ∈ w.busy i, ∀ o ∈ p.2.head?, o.onRedis = true
  | .other _ => False
  | _ => True

instance (limit : κ → Nat) (w : LedgerPool ι κ ρ) (m : LedgerMove ι κ ρ) :
    Decidable (Orderly limit w m) := by
  unfold Orderly
  split <;> infer_instance

/-- The whole limit in Redis, settled; then Redis is down, and the whole limit again. -/
def outage : List (LedgerMove Bool Bytes Nat) :=
  [.start true (.reserve sampleKey 10 10 1), .go true, .go true, .go true, .go true,
    .start true (.settle sampleKey 1 10), .go true,
    .start true (.reserve sampleKey 10 10 2), .go true, .fail true .exception, .go true, .go true,
    .start true (.settle sampleKey 2 10), .fail true .exception, .go true]

theorem outage_overspends : ¬ ∀ ms : List (LedgerMove Bool Bytes Nat),
      Each (fallbackStep reservationTTLDefault) (Orderly sampleLimit) (Pool.idle (.init 0)) ms →
        Always (fallbackStep reservationTTLDefault) (BudgetKept sampleLimit)
          (Pool.idle (.init 0)) ms := by
  intro h
  have hkept := h outage (by decide) outage List.prefix_rfl
  have htotal := hkept.total sampleKey
  have hspent : (run (fallbackStep reservationTTLDefault) (Pool.idle (.init 0))
      outage).store.redis.spent
      sampleKey = 10 := by decide
  have hspend : (run (fallbackStep reservationTTLDefault) (Pool.idle (.init 0))
      outage).store.pg.spend
      sampleKey = 10 := by decide
  rw [hspent, hspend] at htotal
  exact absurd htotal (by decide)

end Windrose.Gateway

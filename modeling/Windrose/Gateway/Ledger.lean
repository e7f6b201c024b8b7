/-
  Gateway/Ledger.lean --- the budget ledgers.

  Source: services/ai-gateway/app/adapters/ledger.py (InMemoryLedger, RedisLedger with
  its Lua scripts, PgLedger, FallbackLedger).

  A call of `InMemoryLedger` never awaits, so it is one step.  `RedisLedger` and
  `PgLedger` are programs over their commands: each Redis command and each Lua script
  is one operation, and so is each transaction of Postgres, which holds the row of its
  window from its first statement on.  A reading of the clock is an operation too.

  Times are in microseconds.  A Lua number is a double, so the reserve script adds and
  compares rounded amounts; `INCRBY` fails outside 64 bits, and what the script did
  before it stays.  A ledger key is abstract: `PgLedger._parse` splits it without loss.
  The count that `sweep_expired` returns is left out.
-/
import Windrose.Foundation.Await
import Windrose.Foundation.Double
import Windrose.Foundation.Holds
import Windrose.Gateway.Domain

set_option autoImplicit false

namespace Windrose.Gateway

open Windrose.Foundation

variable {κ ρ : Type}

/-- The calls of `LedgerStore`. -/
inductive Call (κ ρ : Type) where
  | reserve (key : κ) (limitCents amountCents : Int) (reservationID : ρ)
  | settle (key : κ) (reservationID : ρ) (actualCents : Int)
  | release (key : κ) (reservationID : ρ)
  | usage (key : κ)
  | flagOnce (flagKey : Bytes)
  | sweepExpired
  deriving DecidableEq

/-- What they return. -/
inductive Reply where
  | reserved (ok : Bool)
  | settled (prev new : Int)
  | released
  | usage (spent reserved : Int)
  | flagged (first : Bool)
  | swept
  deriving DecidableEq

/-- An amount and when it expires. -/
structure Hold where
  amount : Int
  deadline : Int
  deriving DecidableEq

/-! ## InMemoryLedger -/

/-- `InMemoryLedger`, with the clock it reads. -/
structure InMemoryLedger (κ ρ : Type) where
  now : Int
  reservationTTL : Int
  spent : κ → Int
  reservations : κ → Dict ρ Hold
  flags : List Bytes

namespace InMemoryLedger

variable [DecidableEq κ] [DecidableEq ρ] (s : InMemoryLedger κ ρ)

def init (now reservationTTL : Int) : InMemoryLedger κ ρ :=
  { now, reservationTTL, spent := fun _ => 0, reservations := fun _ => ∅, flags := [] }

/-- `now < deadline`. -/
def live (_ : ρ) (h : Hold) : Bool := s.now < h.deadline

/-- `_expire`. -/
def expire (key : κ) : InMemoryLedger κ ρ :=
  { s with reservations := Function.update s.reservations key ((s.reservations key).filter s.live) }

def reserved (key : κ) : Int := (s.reservations key).total (·.amount)

def drop (key : κ) (rid : ρ) : InMemoryLedger κ ρ :=
  { s with reservations := Function.update s.reservations key ((s.reservations key).erase rid) }

/-- Check and add, when the expired reservations are gone. -/
def reserve (key : κ) (limit amount : Int) (rid : ρ) : Reply × InMemoryLedger κ ρ :=
  if limit < s.spent key + s.reserved key + amount then (.reserved false, s)
  else
    (.reserved true,
      { s with
        reservations := Function.update s.reservations key
          ((s.reservations key).insert rid ⟨amount, s.now + s.reservationTTL⟩) })

/-- `settle`. -/
def settle (key : κ) (rid : ρ) (actual : Int) : Reply × InMemoryLedger κ ρ :=
  (.settled (s.spent key) (s.spent key + actual),
    { s.drop key rid with spent := Function.update s.spent key (s.spent key + actual) })

/-- `sweep_expired`. -/
def sweepExpired : InMemoryLedger κ ρ :=
  { s with reservations := fun key => (s.reservations key).filter s.live }

/-- One call. -/
def call : Call κ ρ → Reply × InMemoryLedger κ ρ
  | .reserve key limit amount rid => (s.expire key).reserve key limit amount rid
  | .settle key rid actual => s.settle key rid actual
  | .release key rid => (.released, s.drop key rid)
  | .usage key => (.usage (s.spent key) ((s.expire key).reserved key), s.expire key)
  | .flagOnce flag =>
    if flag ∈ s.flags then (.flagged false, s)
    else (.flagged true, { s with flags := s.flags ++ [flag] })
  | .sweepExpired => (.swept, s.sweepExpired)

end InMemoryLedger

/-! ## The commands of Redis and Postgres -/

/-- `{key}:spent`, `{key}:resv`, `{key}:resvz` of every key, and the flags. -/
structure Redis (κ ρ : Type) where
  spent : κ → Int
  resv : κ → Dict ρ Int
  resvz : κ → Dict ρ Int
  flags : List Bytes

/-- A row of `budget_reservations`; its id is the key of the dictionary. -/
structure Row (κ : Type) where
  key : κ
  amount : Int
  expiresAt : Int
  deriving DecidableEq

/-- `budget_spend`, `budget_reservations` and `budget_threshold_flags`. -/
structure Pg (κ ρ : Type) where
  spend : κ → Int
  reservations : Dict ρ (Row κ)
  flags : List Bytes

/-- What the ledgers work on. -/
structure Store (κ ρ : Type) where
  now : Int
  redis : Redis κ ρ
  pg : Pg κ ρ

/-- The operations: the clock, the commands and scripts of Redis, the transactions of
Postgres. -/
inductive Cmd (κ ρ : Type) where
  | clockNow
  | zrangebyscore (key : κ) (max : Int)
  | hdel (key : κ) (rid : ρ)
  | zrem (key : κ) (rid : ρ)
  | reserveLua (key : κ) (amount limit : Int) (rid : ρ) (deadline : Int)
  | settleLua (key : κ) (rid : ρ) (actual : Int)
  | get (key : κ)
  | hvals (key : κ)
  | setNX (flagKey : Bytes)
  | pgReserve (key : κ) (limit amount : Int) (rid : ρ) (now expiresAt : Int)
  | pgSettle (key : κ) (rid : ρ) (actual : Int)
  | pgRelease (key : κ) (rid : ρ)
  | pgUsage (key : κ) (now : Int)
  | pgFlagOnce (flagKey : Bytes)
  | pgSweepExpired (now : Int)
  deriving DecidableEq

namespace Cmd

/-- What an operation answers. -/
abbrev Ans : Cmd κ ρ → Type
  | clockNow => Int
  | zrangebyscore _ _ => List ρ
  | hdel _ _ => Unit
  | zrem _ _ => Unit
  | reserveLua _ _ _ _ _ => Bool
  | settleLua _ _ _ => Int × Int
  | get _ => Int
  | hvals _ => List Int
  | setNX _ => Bool
  | pgReserve _ _ _ _ _ _ => Bool
  | pgSettle _ _ _ => Int × Int
  | pgRelease _ _ => Unit
  | pgUsage _ _ => Int × Int
  | pgFlagOnce _ => Bool
  | pgSweepExpired _ => Unit

end Cmd

/-- The sum in the reserve script. -/
def luaSum (vals : List Int) : Int := vals.foldl (fun held v => toDouble (held + toDouble v)) 0

/-- A signed 64-bit number. -/
def isInt64 (v : Int) : Bool := -2 ^ 63 ≤ v && v < 2 ^ 63

namespace Redis

variable [DecidableEq κ] [DecidableEq ρ] (r : Redis κ ρ)

def init : Redis κ ρ := ⟨fun _ => 0, fun _ => ∅, fun _ => ∅, []⟩

def reserveLua (key : κ) (amount limit : Int) (rid : ρ) (deadline : Int) : Bool × Redis κ ρ :=
  if toDouble limit <
      toDouble (toDouble (toDouble (r.spent key) + luaSum (r.resv key).values) + toDouble amount)
  then (false, r)
  else
    (true,
      { r with
        resv := Function.update r.resv key ((r.resv key).insert rid amount)
        resvz := Function.update r.resvz key ((r.resvz key).insert rid deadline) })

def hdel (key : κ) (rid : ρ) : Redis κ ρ :=
  { r with resv := Function.update r.resv key ((r.resv key).erase rid) }

def zrem (key : κ) (rid : ρ) : Redis κ ρ :=
  { r with resvz := Function.update r.resvz key ((r.resvz key).erase rid) }

/-- `_SETTLE_LUA`: `HDEL`, `ZREM`, `INCRBY`. -/
def settleLua (key : κ) (rid : ρ) (actual : Int) : Except Exn (Int × Int) × Redis κ ρ :=
  let dropped := (r.hdel key rid).zrem key rid
  let new := r.spent key + actual
  if isInt64 actual && isInt64 new then
    (.ok (toDouble (r.spent key), toDouble new),
      { dropped with spent := Function.update dropped.spent key new })
  else (.error .exception, dropped)

end Redis

namespace Pg

variable [DecidableEq κ] [DecidableEq ρ] (d : Pg κ ρ)

def init : Pg κ ρ := ⟨fun _ => 0, ∅, []⟩

/-- The sum of `amount_cents` over the rows of a window. -/
def held (rows : Dict ρ (Row κ)) (key : κ) : Int :=
  rows.total fun r => if r.key = key then r.amount else 0

/-- The transaction of `reserve`; a second row with one id is an integrity error, which
rolls back. -/
def reserve (key : κ) (limit amount : Int) (rid : ρ) (now expiresAt : Int) :
    Except Exn Bool × Pg κ ρ :=
  let kept := d.reservations.filter fun _ r => !(r.key = key && r.expiresAt ≤ now)
  if limit < d.spend key + held kept key + amount then
    (.ok false, { d with reservations := kept })
  else if rid ∈ kept then (.error .exception, d)
  else (.ok true, { d with reservations := kept.insert rid ⟨key, amount, expiresAt⟩ })

/-- The transaction of `release`: by id, whatever the window of the row. -/
def release (rid : ρ) : Pg κ ρ := { d with reservations := d.reservations.erase rid }

/-- The transaction of `settle`. -/
def settle (key : κ) (rid : ρ) (actual : Int) : (Int × Int) × Pg κ ρ :=
  let new := d.spend key + actual
  ((new - actual, new), { d.release rid with spend := Function.update d.spend key new })

/-- `usage`. -/
def usage (key : κ) (now : Int) : Int × Int :=
  (d.spend key, held (d.reservations.filter fun _ r => now < r.expiresAt) key)

/-- `sweep_expired`. -/
def sweepExpired (now : Int) : Pg κ ρ :=
  { d with reservations := d.reservations.filter fun _ r => now < r.expiresAt }

end Pg

/-- Set a flag, if it is not set. -/
def setFlag (flags : List Bytes) (flagKey : Bytes) : Bool × List Bytes :=
  if flagKey ∈ flags then (false, flags) else (true, flags ++ [flagKey])

/-- What an operation does. -/
def effect [DecidableEq κ] [DecidableEq ρ] :
    (c : Cmd κ ρ) → Store κ ρ → Except Exn c.Ans × Store κ ρ
  | .clockNow, s => (.ok s.now, s)
  | .zrangebyscore key max, s => (.ok ((s.redis.resvz key).filter fun _ score =>
    score ≤ max).keys, s)
  | .hdel key rid, s => (.ok (), { s with redis := s.redis.hdel key rid })
  | .zrem key rid, s => (.ok (), { s with redis := s.redis.zrem key rid })
  | .reserveLua key amount limit rid deadline, s =>
    (.ok (s.redis.reserveLua key amount limit rid deadline).1,
      { s with redis := (s.redis.reserveLua key amount limit rid deadline).2 })
  | .settleLua key rid actual, s =>
    ((s.redis.settleLua key rid actual).1,
      { s with redis := (s.redis.settleLua key rid actual).2 })
  | .get key, s => (.ok (s.redis.spent key), s)
  | .hvals key, s => (.ok (s.redis.resv key).values, s)
  | .setNX flag, s =>
    (.ok (setFlag s.redis.flags flag).1,
      { s with redis := { s.redis with flags := (setFlag s.redis.flags flag).2 } })
  | .pgReserve key limit amount rid now expiresAt, s =>
    ((s.pg.reserve key limit amount rid now expiresAt).1,
      { s with pg := (s.pg.reserve key limit amount rid now expiresAt).2 })
  | .pgSettle key rid actual, s =>
    (.ok (s.pg.settle key rid actual).1, { s with pg := (s.pg.settle key rid actual).2 })
  | .pgRelease _ rid, s => (.ok (), { s with pg := s.pg.release rid })
  | .pgUsage key now, s => (.ok (s.pg.usage key now), s)
  | .pgFlagOnce flag, s =>
    (.ok (setFlag s.pg.flags flag).1,
      { s with pg := { s.pg with flags := (setFlag s.pg.flags flag).2 } })
  | .pgSweepExpired now, s => (.ok (), { s with pg := s.pg.sweepExpired now })

/-- Time passes. -/
def advance (dt : Nat) (s : Store κ ρ) : Store κ ρ := { s with now := s.now + dt }

/-! ## RedisLedger, PgLedger and FallbackLedger -/

/-- A program of a ledger. -/
abbrev LedgerProg (κ ρ α : Type) : Type := Await (Cmd κ ρ) Cmd.Ans Exn α

/-- One operation. -/
def exec (c : Cmd κ ρ) : LedgerProg κ ρ c.Ans := Await.ask c

/-- `except LedgerUnavailable: raise`, `except Exception as exc: raise LedgerUnavailable`. -/
def orUnavailable {α : Type} (p : LedgerProg κ ρ α) : LedgerProg κ ρ α :=
  p.tryCatch fun e => .raise (if e.isException then .ledgerUnavailable else e)

/-- The time a reservation lives, `RESERVATION_TTL_SECONDS` in microseconds by default. -/
def reservationTTLDefault : Int := 180 * 1000000

namespace RedisLedger

/-- `_sweep_key`. -/
def sweepKey (key : κ) : LedgerProg κ ρ Unit := do
  let now : Int ← exec .clockNow
  let expired : List ρ ← exec (.zrangebyscore key now)
  expired.forM fun rid => do
    let _ : Unit ← exec (.hdel key rid)
    let _ : Unit ← exec (.zrem key rid)
    pure ()

/-- `reserve`. -/
def reserve (ttl : Int) (key : κ) (limit amount : Int) (rid : ρ) : LedgerProg κ ρ Reply :=
  orUnavailable do
    sweepKey key
    let now : Int ← exec .clockNow
    let ok : Bool ← exec (.reserveLua key amount limit rid (now + ttl))
    pure (.reserved ok)

/-- `settle`. -/
def settle (key : κ) (rid : ρ) (actual : Int) : LedgerProg κ ρ Reply :=
  orUnavailable do
    let out : Int × Int ← exec (.settleLua key rid actual)
    pure (.settled out.1 out.2)

/-- `release`. -/
def release (key : κ) (rid : ρ) : LedgerProg κ ρ Reply :=
  orUnavailable do
    let _ : Unit ← exec (.hdel key rid)
    let _ : Unit ← exec (.zrem key rid)
    pure .released

/-- `usage`. -/
def usage (key : κ) : LedgerProg κ ρ Reply :=
  orUnavailable do
    sweepKey key
    let spent : Int ← exec (.get key)
    let vals : List Int ← exec (.hvals key)
    pure (.usage spent vals.sum)

/-- `flag_once`. -/
def flagOnce (flagKey : Bytes) : LedgerProg κ ρ Reply :=
  orUnavailable do
    let ok : Bool ← exec (.setNX flagKey)
    pure (.flagged ok)

/-- A call of the ledger. -/
def call (ttl : Int) : Call κ ρ → LedgerProg κ ρ Reply
  | .reserve key limit amount rid => reserve ttl key limit amount rid
  | .settle key rid actual => settle key rid actual
  | .release key rid => release key rid
  | .usage key => usage key
  | .flagOnce flagKey => flagOnce flagKey
  | .sweepExpired => pure .swept

end RedisLedger

namespace PgLedger

/-- `reserve`. -/
def reserve (ttl : Int) (key : κ) (limit amount : Int) (rid : ρ) : LedgerProg κ ρ Reply := do
  let now : Int ← exec .clockNow
  orUnavailable do
    let ok : Bool ← exec (.pgReserve key limit amount rid now (now + ttl))
    pure (.reserved ok)

/-- `settle`. -/
def settle (key : κ) (rid : ρ) (actual : Int) : LedgerProg κ ρ Reply :=
  orUnavailable do
    let out : Int × Int ← exec (.pgSettle key rid actual)
    pure (.settled out.1 out.2)

/-- `release`. -/
def release (key : κ) (rid : ρ) : LedgerProg κ ρ Reply :=
  orUnavailable do
    let _ : Unit ← exec (.pgRelease key rid)
    pure .released

/-- `usage`. -/
def usage (key : κ) : LedgerProg κ ρ Reply :=
  orUnavailable do
    let now : Int ← exec .clockNow
    let out : Int × Int ← exec (.pgUsage key now)
    pure (.usage out.1 out.2)

/-- `flag_once`. -/
def flagOnce (flagKey : Bytes) : LedgerProg κ ρ Reply :=
  orUnavailable do
    let ok : Bool ← exec (.pgFlagOnce flagKey)
    pure (.flagged ok)

/-- `sweep_expired`. -/
def sweepExpired : LedgerProg κ ρ Reply :=
  orUnavailable do
    let now : Int ← exec .clockNow
    let _ : Unit ← exec (.pgSweepExpired now)
    pure .swept

/-- A call of the ledger. -/
def call (ttl : Int) : Call κ ρ → LedgerProg κ ρ Reply
  | .reserve key limit amount rid => reserve ttl key limit amount rid
  | .settle key rid actual => settle key rid actual
  | .release key rid => release key rid
  | .usage key => usage key
  | .flagOnce flagKey => flagOnce flagKey
  | .sweepExpired => sweepExpired

end PgLedger

namespace FallbackLedger

/-- `_call`: the primary, and the fallback when it is unavailable. -/
def call (ttl : Int) (c : Call κ ρ) : LedgerProg κ ρ Reply :=
  (RedisLedger.call ttl c).tryCatch fun
    | .ledgerUnavailable => PgLedger.call ttl c
    | e => .raise e

end FallbackLedger

end Windrose.Gateway

/-
  Audit/Chain.lean --- appending to the per-tenant, per-day hash chain.

  Source: services/audit-service/internal/chain/chain.go (Manager, Link, Append,
  AppendBatch, batchMissingAssignments, seed, getAssignment, putAssignment) and
  chstore/chstore.go (ChainScan, ChainTip).

  The store of one tenant on one ingest day: the Redis keys `audit:chain:assign:*`,
  `audit:chain:seq` and `audit:chain:head`, the Postgres checkpoint `chain_heads`, and the
  ClickHouse rows.  `append` and `appendBatch` are programs over it (`Foundation.Prog`),
  with one command for every round trip.  They run under the lock of the tenant's day, hence
  one at a time; a lock that cannot be taken is the command `lock` failing.

  An assignment is the JSON text of a `Link`; a value that does not decode counts as absent,
  so the key holds an `Option Link`.  Keys do not expire within the day, and a day does not
  reach 2^63 events.
-/
import Windrose.Foundation.Faulty
import Windrose.Audit.Verify

set_option autoImplicit false

namespace Windrose.Audit

open Windrose.Foundation

/-- `Link`: the chain position assigned to an event. -/
structure Link where
  chainDate : Bytes
  seq : Nat
  hash : Bytes
  deriving DecidableEq

/-- Everything one tenant's chain of one day is stored in. -/
structure Store where
  /-- `audit:chain:assign:<tenant>:<event>` -/
  assign : Uuid → Option Link
  /-- `audit:chain:seq:<tenant>:<date>` -/
  seq : Option Nat
  /-- `audit:chain:head:<tenant>:<date>` -/
  head : Option Bytes
  /-- the `chain_heads` row: head hash and events count -/
  checkpoint : Option (Bytes × Nat)
  /-- the `audit_events` rows, in the order they were inserted -/
  rows : List Record

namespace Store

/-- A day nothing was written to yet. -/
def empty : Store := ⟨fun _ => none, none, none, none, []⟩

def setSeq (s : Store) (n : Nat) : Store := { s with seq := some n }
def setHead (s : Store) (h : Bytes) : Store := { s with head := some h }
def setCheckpoint (s : Store) (h : Bytes) (n : Nat) : Store := { s with checkpoint := some (h, n) }
/-- `putAssignment`. -/
def putAssignment (s : Store) (e : Uuid) (l : Link) : Store :=
  { s with assign := Function.update s.assign e (some l) }

end Store

/-! ## The durable rows -/

/-- The sorting key of the `ReplacingMergeTree`. -/
def Record.key (r : Record) : Uuid × (Int × Nat) × Uuid :=
  (r.tenantID, r.occurredAt.instant, r.eventID)

/-- `FINAL`: of rows with equal keys only the last inserted one. -/
def finalRows : List Record → List Record
  | [] => []
  | r :: rs => if rs.any (fun r' => r'.key == r.key) then finalRows rs else r :: finalRows rs

/-- `ChainScan`: the day's rows by ascending sequence number. -/
def chainScan (rows : List Record) : List Record :=
  (finalRows rows).insertionSort (fun r r' => r.chainSeq ≤ r'.chainSeq)

/-- `ChainTip`: the highest sequence number and its hash. -/
def chainTip (rows : List Record) : Option (Nat × Bytes) :=
  (chainScan rows).getLast?.map fun r => (r.chainSeq, r.chainHash)

/-! ## The two programs -/

/-- The round trips of `Append` and `AppendBatch`. -/
inductive Cmd where
  /-- the read of the assignment before the lock -/
  | getAssignment
  | lock
  /-- the read of the assignment under the lock -/
  | recheck
  | existsSeq
  | chainTip
  | seedSeq
  | seedHead
  | incr
  | getHead
  | putAssignment
  | setHead
  | upsertChainHead
  /-- `AppendBatch`: the sequence read, and the MULTI/EXEC transaction -/
  | getSeq
  | exec
  deriving DecidableEq

/-- A program over the store of a day. -/
abbrev ChainProg : Type → Type := Prog Cmd Store

/-- `Manager`: the hash, the tenant and ingest day it works on, and whether it
has a ClickHouse tip to recover from. -/
structure Manager where
  sum256 : Bytes → Bytes
  tenant : Uuid
  date : Bytes
  hasTip : Bool

namespace Manager

variable (m : Manager)

def genesis : Bytes := genesisHash m.sum256 m.tenant m.date

/-- The cold-start counter and head of a store. -/
def seedOf (s : Store) : Nat × Bytes :=
  match (if m.hasTip then chainTip s.rows else none) with
  | some tip => tip
  | none => (0, m.genesis)

/-- `seed`. -/
def seed : ChainProg (Nat × Bytes) :=
  if m.hasTip then .cmd .chainTip fun s => (m.seedOf s, s) else pure (0, m.genesis)

/-- `getAssignment`, at either of its two places. -/
def getAssignment (c : Cmd) (e : Uuid) : ChainProg (Option Link) := .cmd c fun s => (s.assign e, s)

/-- `acquire`. -/
def acquire : ChainProg Unit := .cmd .lock fun s => ((), s)

/-- Seed the counter and the head, when the counter is cold. -/
def seedCold : ChainProg Unit := do
  let hot ← Prog.cmd Cmd.existsSeq fun s : Store => (s.seq.isSome, s)
  if hot then pure ()
  else
    let (seedSeq, seedHead) ← m.seed
    Prog.cmd Cmd.seedSeq fun s : Store => ((), s.setSeq seedSeq)
    Prog.cmd Cmd.seedHead fun s : Store => ((), s.setHead seedHead)

/-- The tail of `Append` from INCR on, under the lock. -/
def advance (it : BatchItem) : ChainProg Link := do
  let seq ← Prog.cmd Cmd.incr fun s : Store => (s.seq.getD 0 + 1, s.setSeq (s.seq.getD 0 + 1))
  let read ← Prog.cmd Cmd.getHead fun s : Store => (s.head.getD [], s)
  let prev := if read = [] then m.genesis else read
  let hash := linkHash m.sum256 prev it
  let link : Link := ⟨m.date, seq, hash⟩
  -- The position is recorded before the head advances.
  Prog.cmd Cmd.putAssignment fun s : Store => ((), s.putAssignment it.eventID link)
  Prog.cmd Cmd.setHead fun s : Store => ((), s.setHead hash)
  -- Best effort: a failed checkpoint does not fail the append.
  Prog.attempt Cmd.upsertChainHead fun s : Store => s.setCheckpoint hash seq
  pure link

/-- `Append`. -/
def append (it : BatchItem) : ChainProg Link := do
  match ← getAssignment .getAssignment it.eventID with
  | some link => pure link
  | none =>
    acquire
    match ← getAssignment .recheck it.eventID with
    | some link => pure link
    | none =>
      m.seedCold
      m.advance it

/-- `batchMissingAssignments`: read the assignment of every item whose link is
still missing.  A missing link is `none`. -/
def batchMissingAssignments (c : Cmd) (items : List (BatchItem × Option Link)) :
    ChainProg (List (BatchItem × Option Link)) :=
  .cmd c fun s => (items.map fun p => (p.1, p.2 <|> s.assign p.1.eventID), s)

/-- The assignment loop of `AppendBatch`: the links of all items in order, the
assignments to write, and the running counter and previous hash. -/
def assignPending : Nat → Bytes → List (BatchItem × Option Link) →
    List Link × List (Uuid × Link) × Nat × Bytes
  | seq, prev, [] => ([], [], seq, prev)
  | seq, prev, (_, some link) :: rest =>
    let (links, sets, seq, prev) := assignPending seq prev rest
    (link :: links, sets, seq, prev)
  | seq, prev, (it, none) :: rest =>
    let hash := linkHash m.sum256 prev it
    let link : Link := ⟨m.date, seq + 1, hash⟩
    let (links, sets, seq, prev) := assignPending (seq + 1) hash rest
    (link :: links, (it.eventID, link) :: sets, seq, prev)

/-- The counter and the previous hash `AppendBatch` starts from. -/
def batchStart : ChainProg (Nat × Bytes) := do
  let hot ← Prog.cmd Cmd.existsSeq fun s : Store => (s.seq.isSome, s)
  if hot then
    let seq ← Prog.cmd Cmd.getSeq fun s : Store => (s.seq.getD 0, s)
    let head ← Prog.cmd Cmd.getHead fun s : Store => (s.head, s)
    pure (seq, head.getD m.genesis)
  else m.seed

/-- The MULTI/EXEC transaction: every assignment, then the counter and the
head. -/
def execBatch (s : Store) (sets : List (Uuid × Link)) (seq : Nat) (prev : Bytes) : Store :=
  { s with
    assign := sets.foldl (fun f p => Function.update f p.1 (some p.2)) s.assign
    seq := some seq
    head := some prev }

/-- `AppendBatch`. -/
def appendBatch : List BatchItem → ChainProg (List Link)
  | [] => pure []
  | [it] => do
      let link ← m.append it
      pure [link]
  | items => do
      let links ← batchMissingAssignments .getAssignment (items.map fun it => (it, none))
      if links.all (fun p => p.2.isSome) then pure (links.filterMap (·.2))
      else
        acquire
        let links ← batchMissingAssignments .recheck links
        if links.all (fun p => p.2.isSome) then pure (links.filterMap (·.2))
        else
          let (seq, prev) ← m.batchStart
          let (out, sets, seq, prev) := m.assignPending seq prev links
          Prog.cmd Cmd.exec fun s : Store => ((), execBatch s sets seq prev)
          Prog.attempt Cmd.upsertChainHead fun s : Store => s.setCheckpoint prev seq
          pure out

/-- `Append` once per item, in order, under one continuously held lock. -/
def appendEach : List BatchItem → ChainProg (List Link)
  | [] => pure []
  | it :: items => do
      let link ← m.append it
      let links ← appendEach items
      pure (link :: links)

end Manager

end Windrose.Audit

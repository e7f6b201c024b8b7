/-
  Audit/Sealing.lean --- the head of a sealed manifest.

  Source: services/audit-service/internal/export/export.go (ExportDay), chain/chain.go
  (Append, AppendBatch, Verify) and pgstore/pgstore.go (UpsertChainHead).

  `ExportDay` writes the head of the `chain_heads` row into the manifest and falls back to
  the last row.  The row is a best-effort checkpoint: what an append writes there is the
  head of that moment, and a later append may fail to.
-/
import Windrose.Audit.Export

set_option autoImplicit false

namespace Windrose.Audit

open Windrose.Foundation

/-! ## Numbering -/

/-- The numbers of the rows are `1, 2, ...`. -/
def Gapless (rows : List Record) : Prop := rows.map Record.chainSeq = List.range' 1 rows.length

instance (rows : List Record) : Decidable (Gapless rows) := inferInstanceAs (Decidable (_ = _))

theorem Chained.map_chainSeq {sum256 : Bytes → Bytes} (rows : List Record) :
    ∀ {prev : Bytes} {n : Nat}, Chained sum256 prev n rows →
      rows.map Record.chainSeq = List.range' n rows.length := by
  induction rows with
  | nil => exact fun _ => rfl
  | cons r rows ih =>
    intro prev n h
    rw [List.map_cons, List.length_cons, List.range'_succ, h.1, ih h.2.2]

/-! ## The checkpoint of one call -/

/-- The checkpoint is the old one. -/
def Store.SameCheckpoint (s s' : Store) : Prop := s'.checkpoint = s.checkpoint

theorem Store.SameCheckpoint.refl (s : Store) : s.SameCheckpoint s := rfl

variable {s : Store}

theorem Store.SameCheckpoint.trans {t u : Store} (hst : s.SameCheckpoint t)
    (htu : t.SameCheckpoint u) : s.SameCheckpoint u := Eq.trans htu hst

/-- The checkpoint is the old one, or the head and the counter of the new store. -/
def Store.Checkpointed (s s' : Store) : Prop :=
  s'.checkpoint = s.checkpoint ∨
    ∃ h n, s'.checkpoint = some (h, n) ∧ s'.head = some h ∧ s'.seq = some n

variable {order : List Uuid}

namespace Manager

variable (m : Manager)

theorem checkpointed_bind {α β : Type} {p : ChainProg α} {k : α → ChainProg β}
    (hp : p.Relates Store.SameCheckpoint) (hk : ∀ a, (k a).Relates Store.Checkpointed) :
    (p >>= k).Relates Store.Checkpointed := by
  refine Prog.Relates.bind (fun s t h => .inl h) ?_ hp hk
  rintro s t u hst (htu | htu)
  · exact .inl (Store.SameCheckpoint.trans hst htu)
  · exact .inr htu

variable {α : Type}

theorem checkpointed_pure (a : α) : (pure a : ChainProg α).Relates Store.Checkpointed :=
  Prog.Relates.pure (fun _ => .inl rfl) a

theorem keeps_bind {α β : Type} {p : ChainProg α} {k : α → ChainProg β}
    (hp : p.Relates Store.SameCheckpoint) (hk : ∀ a, (k a).Relates Store.SameCheckpoint) :
    (p >>= k).Relates Store.SameCheckpoint :=
  .bind (fun _ _ h => h) (fun _ _ _ => Store.SameCheckpoint.trans) hp hk

theorem keeps_pure (a : α) : (pure a : ChainProg α).Relates Store.SameCheckpoint :=
  Prog.Relates.pure Store.SameCheckpoint.refl a

theorem keeps_cmd {c : Cmd} {f : Store → α × Store}
    (heffect : ∀ s : Store, s.SameCheckpoint (f s).2) :
    (Prog.cmd c f).Relates Store.SameCheckpoint :=
  Prog.Relates.cmd Store.SameCheckpoint.refl heffect

theorem keeps_read (c : Cmd) (g : Store → α) :
    (Prog.cmd c fun s : Store => (g s, s)).Relates Store.SameCheckpoint :=
  keeps_cmd Store.SameCheckpoint.refl

theorem seed_keeps : m.seed.Relates Store.SameCheckpoint := by
  unfold seed
  split
  · exact keeps_read .chainTip _
  · exact keeps_pure _

theorem seedCold_keeps : m.seedCold.Relates Store.SameCheckpoint := by
  refine keeps_bind (keeps_read .existsSeq _) fun hot => ?_
  split
  · exact keeps_pure _
  · refine keeps_bind m.seed_keeps fun start => ?_
    refine keeps_bind (keeps_cmd fun s => ?_) fun _ => keeps_cmd fun s => ?_
    · exact .refl s
    · exact .refl s

theorem attempt_checkpointed (a : α) {h : Bytes} {n : Nat} (fate : Cmd → Fate)
    (hhead : s.head = some h) (hseq : s.seq = some n) : s.Checkpointed ((do
      Prog.attempt Cmd.upsertChainHead fun s : Store => s.setCheckpoint h n
      pure a : ChainProg α).run fate s).2 := by
  have hwritten : s.Checkpointed (s.setCheckpoint h n) := .inr ⟨h, n, rfl, hhead, hseq⟩
  rcases Prog.attempt_bind_cases Cmd.upsertChainHead (fun s : Store => s.setCheckpoint h n)
    (fun _ => pure a) fate s with hrun | hrun | hrun
  · rw [hrun]
    exact hwritten
  · rw [hrun]
    exact .inl rfl
  · rw [hrun]
    exact hwritten

theorem advance_checkpointed (it : BatchItem) : (m.advance it).Relates Store.Checkpointed := by
  intro fate s
  unfold advance
  cases hincr : fate .incr with
  | error =>
    rw [Prog.cmd_bind_error hincr]
    exact .inl rfl
  | crash =>
    rw [Prog.cmd_bind_crash hincr]
    exact .inl rfl
  | ok =>
    rw [Prog.cmd_bind_ok hincr]
    cases hget : fate .getHead with
    | error =>
      rw [Prog.cmd_bind_error hget]
      exact .inl rfl
    | crash =>
      rw [Prog.cmd_bind_crash hget]
      exact .inl rfl
    | ok =>
      rw [Prog.cmd_bind_ok hget]
      cases hput : fate .putAssignment with
      | error =>
        rw [Prog.cmd_bind_error hput]
        exact .inl rfl
      | crash =>
        rw [Prog.cmd_bind_crash hput]
        exact .inl rfl
      | ok =>
        rw [Prog.cmd_bind_ok hput]
        cases hset : fate .setHead with
        | error =>
          rw [Prog.cmd_bind_error hset]
          exact .inl rfl
        | crash =>
          rw [Prog.cmd_bind_crash hset]
          exact .inl rfl
        | ok =>
          rw [Prog.cmd_bind_ok hset]
          exact attempt_checkpointed _ fate rfl rfl

theorem append_checkpointed (it : BatchItem) : (m.append it).Relates Store.Checkpointed := by
  refine checkpointed_bind (keeps_read .getAssignment _) fun found => ?_
  cases found with
  | some link => exact checkpointed_pure link
  | none =>
    refine checkpointed_bind (keeps_read .lock _) fun _ => ?_
    refine checkpointed_bind (keeps_read .recheck _) fun again => ?_
    cases again with
    | some link => exact checkpointed_pure link
    | none => exact checkpointed_bind m.seedCold_keeps fun _ => m.advance_checkpointed it

theorem batchStart_keeps : m.batchStart.Relates Store.SameCheckpoint := by
  refine keeps_bind (keeps_read .existsSeq _) fun hot => ?_
  split
  · refine keeps_bind (keeps_read .getSeq _) fun seq => ?_
    exact keeps_bind (keeps_read .getHead _) fun head => keeps_pure _
  · exact m.seed_keeps

theorem exec_checkpointed (out : List Link) (sets : List (Uuid × Link)) (seq : Nat) (prev : Bytes) :
    (do
      Prog.cmd Cmd.exec fun s : Store => ((), execBatch s sets seq prev)
      Prog.attempt Cmd.upsertChainHead fun s : Store => s.setCheckpoint prev seq
      pure out : ChainProg (List Link)).Relates Store.Checkpointed := by
  intro fate s
  cases hexec : fate .exec with
  | error =>
    rw [Prog.cmd_bind_error hexec]
    exact .inl rfl
  | crash =>
    rw [Prog.cmd_bind_crash hexec]
    exact .inl rfl
  | ok =>
    rw [Prog.cmd_bind_ok hexec]
    exact attempt_checkpointed out fate rfl rfl

theorem appendBatch_checkpointed (items : List BatchItem) :
    (m.appendBatch items).Relates Store.Checkpointed := by
  match items with
  | [] => exact checkpointed_pure []
  | [it] =>
    intro fate s
    have hone := m.append_checkpointed it fate s
    rw [appendBatch, Prog.run_bind]
    generalize (m.append it).run fate s = out at hone ⊢
    obtain ⟨_ | link, t⟩ := out
    · exact hone
    · exact hone
  | a :: b :: rest =>
    refine checkpointed_bind (keeps_read .getAssignment _) fun found => ?_
    split
    · exact checkpointed_pure _
    · refine checkpointed_bind (keeps_read .lock _) fun _ => ?_
      refine checkpointed_bind (keeps_read .recheck _) fun again => ?_
      split
      · exact checkpointed_pure _
      · refine checkpointed_bind m.batchStart_keeps fun start => ?_
        exact exec_checkpointed _ _ _ _

variable {m : Manager} {env : Uuid → Envelope}

theorem step_checkpointed (w : World) (c : Call) : w.store.Checkpointed (m.step env w c).store := by
  have hdeliver : ∀ (es : List Uuid) (inserted : Bool) (out : Option (List Link) × Store),
      w.store.Checkpointed out.2 → w.store.Checkpointed
        (m.deliver env w es inserted out).store := by
    intro es inserted out h
    obtain ⟨_ | links, s⟩ := out
    · exact h
    · cases inserted with
      | true => exact h
      | false => exact h
  cases c with
  | append e fate inserted =>
    exact hdeliver [e] inserted _ (m.append_checkpointed (buildPending env e) fate w.store)
  | appendBatch es fate inserted =>
    exact hdeliver es inserted _ (m.appendBatch_checkpointed _ fate w.store)

/-! ## The checkpoint of a run -/

/-- The checkpoint is the head and the number of some first events. -/
def CheckpointInv (m : Manager) (env : Uuid → Envelope) (order : List Uuid) (s : Store) : Prop :=
  ∀ h n, s.checkpoint = some (h, n) → n ≤ order.length ∧ h = m.headOf env (order.take n)

theorem CheckpointInv.step {order' : List Uuid} {s' : Store}
    (h : CheckpointInv m env order s) (hinv : m.Inv env order' s') (hpre : order <+: order')
    (hstep : s.Checkpointed s') : CheckpointInv m env order' s' := by
  intro head n hcheckpoint
  rcases hstep with hsame | ⟨head', n', hnew, hhead, hseq⟩
  · obtain ⟨hn, hhead⟩ := h head n (hsame ▸ hcheckpoint)
    obtain ⟨t, rfl⟩ := hpre
    refine ⟨hn.trans (by simp), ?_⟩
    rw [List.take_append_of_le_length hn]
    exact hhead
  · rw [hcheckpoint, Option.some.injEq, Prod.mk.injEq] at hnew
    obtain ⟨rfl, rfl⟩ := hnew
    rcases hinv.tip with ⟨hnone, -, -⟩ | ⟨hsome, hsome' | ⟨hnone, -⟩⟩
    · rw [hnone] at hseq
      cases hseq
    · rw [hsome] at hseq
      rw [hsome'] at hhead
      cases hseq
      cases hhead
      exact ⟨le_rfl, by rw [List.take_length]⟩
    · rw [hnone] at hhead
      cases hhead

theorem run_checkpointInv (hne : ∀ b, m.sum256 b ≠ []) (calls : List Call) :
    ∀ {events order : List Uuid} {w : World}, WorldInv m env events order w →
      CheckpointInv m env order w.store → m.CleanRun env w calls →
      ∃ order', m.Inv env order' (m.run env w calls).store ∧
        CheckpointInv m env order' (m.run env w calls).store := by
  induction calls with
  | nil =>
    intro events order w h hcheckpoint _
    exact ⟨order, h.1, hcheckpoint⟩
  | cons c calls ih =>
    intro events order w h hcheckpoint hclean
    obtain ⟨order', hpre, h'⟩ := step_inv hne h hclean.1
    exact ih h' (hcheckpoint.step h'.1 hpre (step_checkpointed w c)) hclean.2

/-! ## The exported rows -/

/-- The row is the one of the event at a position. -/
def AtPosition (m : Manager) (env : Uuid → Envelope) (order : List Uuid) (k : Nat)
    (r : Record) : Prop :=
  order[k]? = some r.eventID ∧ r = m.rowOf env r.eventID (m.linkAt env order k)

theorem AtPosition.chainHash {k : Nat} {r : Record}
    (h : AtPosition m env order k r) : r.chainHash = m.headOf env (order.take (k + 1)) := by
  rw [h.2]
  rfl

theorem chained_of_positions (rows : List Record) :
    ∀ n, (∀ i r, rows[i]? = some r → AtPosition m env order (n + i) r) →
      Chained m.sum256 (m.headOf env (order.take n)) (n + 1) rows ∧
        HashChain.head (linkHash m.sum256) (m.headOf env (order.take n))
          (rows.map Record.item) = m.headOf env (order.take (n + rows.length)) := by
  induction rows with
  | nil => exact fun n _ => ⟨trivial, rfl⟩
  | cons r rows ih =>
    intro n h
    have hr : AtPosition m env order n r := h 0 r rfl
    have hseq : r.chainSeq = n + 1 := by
      rw [hr.2]
      rfl
    have hhash : r.chainHash = linkHash m.sum256 (m.headOf env (order.take n)) r.item := by
      rw [hr.chainHash, headOf_take_succ hr.1, hr.2]
      rfl
    obtain ⟨hchained, hhead⟩ := ih (n + 1) fun i r' hr' => by
      rw [Nat.add_right_comm]
      exact h (i + 1) r' hr'
    rw [← hr.chainHash] at hchained hhead
    refine ⟨⟨hseq, hhash, hchained⟩, ?_⟩
    rw [List.map_cons, HashChain.head_cons, ← hhash, hhead, List.length_cons,
      Nat.add_right_comm, Nat.add_assoc]

theorem Inv.positions (h : m.Inv env order s)
    (hgap : Gapless (chainScan s.rows)) {i : Nat} {r : Record}
    (hr : (chainScan s.rows)[i]? = some r) : AtPosition m env order i r := by
  have hmem : r ∈ s.rows := (finalRows_sublist _).mem
    ((List.mem_insertionSort _).mp (List.mem_of_getElem? hr))
  obtain ⟨l, hl, hrow⟩ := h.rows r hmem
  obtain ⟨k, hk, rfl⟩ := (h.assign _ l).mp hl
  have hseq : r.chainSeq = k + 1 := by
    rw [hrow]
    rfl
  have hnumber : ((chainScan s.rows).map Record.chainSeq)[i]? = some r.chainSeq := by
    rw [List.getElem?_map, hr]
    rfl
  have hlt := (List.getElem?_eq_some_iff.mp hr).1
  rw [hgap, List.getElem?_range' hlt, hseq] at hnumber
  obtain rfl : i = k := by
    have := Option.some.inj hnumber
    omega
  exact ⟨hk, hrow⟩

end Manager

/-! ## The sealed manifest -/

namespace Export

open Manager

/-- The manifest an object is. -/
def Stores.manifestAt (s : Stores) (key : Bytes) : Option Manifest :=
  match s.objects key with
  | some (.manifest man) => some man
  | _ => none

/-- What an export of the rows comes to: nothing when there are none, and else they are in
the file of the revision, and the head of its manifest is the hash of the last one and
verifies them. -/
def Agrees (sum256 : Bytes → Bytes) (day : Day) (rows : List Record) :
    Except ExportError (Option ManifestRow) × Stores → Prop
  | (.error _, _) => False
  | (.ok none, _) => rows = []
  | (.ok (some row), t) =>
    t.objects (fileKey day row.revision) = some (.parquet rows) ∧
      ∃ man ∈ t.manifestAt (manifestKey day row.revision),
        rows.getLast?.map Record.chainHash = some man.chainHead ∧
          (verify sum256 rows day.1 day.2 man.chainHead).valid = true ∧
          (verify sum256 rows day.1 day.2 man.chainHead).manifestMatch = true

instance (sum256 : Bytes → Bytes) (day : Day) (rows : List Record) :
    ∀ out, Decidable (Agrees sum256 day rows out)
  | (.error _, _) => .isFalse id
  | (.ok none, _) => inferInstanceAs (Decidable (rows = []))
  | (.ok (some _), _) => inferInstanceAs (Decidable (_ ∧ _))

/-- The rows and the checkpoint of the day are those of the chain. -/
structure Holds (s : Stores) (day : Day) (t : Store) : Prop where
  rows : s.chainScan day = Audit.chainScan t.rows
  checkpoint : (s.heads.lookup day).map (fun h => (h.headHash, h.eventsCount)) = t.checkpoint

/-- The day has no checkpoint, or it counts the stored rows. -/
def Current (s : Stores) (day : Day) : Prop :=
  ∀ h ∈ s.heads.lookup day, h.eventsCount = (s.chainScan day).length

instance (s : Stores) (day : Day) : Decidable (Current s day) :=
  inferInstanceAs (Decidable (∀ h ∈ s.heads.lookup day, _))

variable {m : Manager}

theorem headOf_take_inj (env : Uuid → Envelope) (hsum : Function.Injective m.sum256) {n k : Nat}
    (hn : n ≤ order.length) (hk : k ≤ order.length)
    (h : m.headOf env (order.take n) = m.headOf env (order.take k)) : n = k := by
  have hlen := (same_of_head_eq hsum h).length_eq
  rw [List.length_map, List.length_map, List.length_take, List.length_take] at hlen
  omega

/-- An export of some rows agrees when its head is the hash of the last row and the rows
replay with it. -/
theorem agrees_iff_of_cons {sum256 : Bytes → Bytes} {x : Exporter} {s : Stores} {day : Day}
    {first : Record} {rest : List Record} (h : s.chainScan day = first :: rest) :
    Agrees sum256 day (s.chainScan day) ((x.exportDay day).alone s) ↔
      (rest.getLastD first).chainHash = Exporter.headOf s day (rest.getLastD first) ∧
        (verify sum256 (s.chainScan day) day.1 day.2
          (Exporter.headOf s day (rest.getLastD first))).valid = true ∧
        (verify sum256 (s.chainScan day) day.1 day.2
          (Exporter.headOf s day (rest.getLastD first))).manifestMatch = true := by
  obtain ⟨man, hrev, hhead, hout, hfile, hman⟩ := Exporter.exportDay_alone_cons (x := x) h
  generalize (x.exportDay day).alone s = out at hout hfile hman ⊢
  obtain ⟨result, t⟩ := out
  dsimp only at hout hfile hman
  subst hout
  have hat : t.manifestAt (manifestKey day man.revision) = some man := by
    rw [Stores.manifestAt, hman]
  have hlast : (first :: rest).getLast? = some (rest.getLastD first) := by
    rw [List.getLast?_cons, List.getLastD_eq_getLast?]
  have hrow : (x.row day man (first :: rest).length).revision = man.revision := rfl
  rw [Agrees, hrow, hfile, hat, h, hlast, hhead.symm]
  simp

/-- Rows without gaps end in the head after as many events, and replay. -/
theorem gapless_rows {env : Uuid → Envelope} {t : Store} (hinv : m.Inv env order t)
    (hgap : Gapless (Audit.chainScan t.rows)) {last : Record}
    (hlast : (Audit.chainScan t.rows).getLast? = some last) :
    (Audit.chainScan t.rows).length ≤ order.length ∧
      last.chainHash = m.headOf env (order.take (Audit.chainScan t.rows).length) ∧
      (verify m.sum256 (Audit.chainScan t.rows) m.tenant m.date last.chainHash).valid = true := by
  have hpos : 0 < (Audit.chainScan t.rows).length := by
    refine List.length_pos_of_ne_nil fun hnil => ?_
    rw [hnil] at hlast
    cases hlast
  rw [List.getLast?_eq_getElem?] at hlast
  have hat := hinv.positions hgap hlast
  have hlen : (Audit.chainScan t.rows).length - 1 + 1 = (Audit.chainScan t.rows).length := by omega
  have hhash : last.chainHash = m.headOf env (order.take (Audit.chainScan t.rows).length) := by
    rw [hat.chainHash, hlen]
  have hpositions : ∀ i r, (Audit.chainScan t.rows)[i]? = some r →
      AtPosition m env order (0 + i) r := by
    intro i r hr
    rw [Nat.zero_add]
    exact hinv.positions hgap hr
  obtain ⟨hchained, hhead⟩ := chained_of_positions _ 0 hpositions
  refine ⟨?_, hhash, ?_⟩
  · have hbound := (List.getElem?_eq_some_iff.mp hat.1).1
    omega
  · rw [verify_valid_iff, hhash]
    rw [Nat.zero_add] at hhead
    exact ⟨hchained, fun _ => hhead⟩

/-- **The manifest of a clean day agrees with its rows** exactly when these have no gap and
the checkpoint, if there is one, counts all of them. -/
theorem exportDay_agrees_iff (m : Manager) (hsum : Function.Injective m.sum256)
    (hne : ∀ b, m.sum256 b ≠ []) (env : Uuid → Envelope) (calls : List Call)
    (hclean : m.CleanRun env World.init calls) (x : Exporter) (s : Stores)
    (hholds : Holds s (m.tenant, m.date) (m.run env World.init calls).store) :
    Agrees m.sum256 (m.tenant, m.date) (s.chainScan (m.tenant, m.date))
        ((x.exportDay (m.tenant, m.date)).alone s) ↔
      s.chainScan (m.tenant, m.date) = [] ∨
        Gapless (s.chainScan (m.tenant, m.date)) ∧ Current s (m.tenant, m.date) := by
  have hinit : WorldInv m env [] [] World.init :=
    ⟨inv_empty, nofun, fun e he => he⟩
  obtain ⟨order, hinv, hcheckpoint⟩ := run_checkpointInv hne calls hinit
    (fun h n hnone => by cases hnone) hclean
  cases hrows : s.chainScan (m.tenant, m.date) with
  | nil =>
      rw [Exporter.exportDay_alone_nil hrows]
      exact ⟨fun _ => .inl rfl, fun _ => rfl⟩
  | cons first rest =>
      rw [← hrows, agrees_iff_of_cons hrows]
      have hscan := hholds.rows
      have hlast : (Audit.chainScan (m.run env World.init calls).store.rows).getLast? =
          some (rest.getLastD first) := by
        rw [← hscan, hrows, List.getLast?_cons, List.getLastD_eq_getLast?]
      -- The checkpoint, when there is one, is the head after the events it counts.
      have hhead : ∀ h ∈ s.heads.lookup (m.tenant, m.date), h.eventsCount ≤ order.length ∧
          h.headHash = m.headOf env (order.take h.eventsCount) := by
        intro h hh
        refine hcheckpoint h.headHash h.eventsCount ?_
        rw [← hholds.checkpoint, Option.mem_def.mp hh]
        rfl
      constructor
      · rintro ⟨hhash, hvalid, -⟩
        have hgap : Gapless (s.chainScan (m.tenant, m.date)) :=
          ((verify_valid_iff _ _ _ _ _).mp hvalid).1.map_chainSeq
        refine .inr ⟨hgap, fun h hh => ?_⟩
        rw [hscan] at hgap ⊢
        obtain ⟨hlen, hlasthash, -⟩ := gapless_rows hinv hgap hlast
        refine headOf_take_inj env hsum (hhead h hh).1 hlen ?_
        rw [← (hhead h hh).2, ← hlasthash, hhash, Exporter.headOf, Option.mem_def.mp hh]
        rfl
      · rintro (hnil | ⟨hgap, hcurrent⟩)
        · rw [hrows] at hnil
          cases hnil
        · have hgap' := hgap
          rw [hscan] at hgap'
          obtain ⟨-, hlasthash, hvalid⟩ := gapless_rows hinv hgap' hlast
          have heq : Exporter.headOf s (m.tenant, m.date) (rest.getLastD first) =
              (rest.getLastD first).chainHash := by
            rw [Exporter.headOf]
            cases hlookup : s.heads.lookup (m.tenant, m.date) with
            | none => rfl
            | some h =>
                have hcount := hcurrent h (Option.mem_def.mpr hlookup)
                show h.headHash = _
                rw [(hhead h (Option.mem_def.mpr hlookup)).2, hcount, hscan, hlasthash]
          have hne' : (rest.getLastD first).chainHash ≠ [] := by
            rw [hlasthash]
            exact headOf_ne_nil hne _
          rw [heq, hscan]
          exact ⟨rfl, hvalid, verify_manifestMatch m.sum256 hne' hvalid⟩

/-- The stores with the rows and the checkpoint of one day only. -/
def Stores.ofDay (now : Time) (day : Day) (t : Store) : Stores :=
  { Stores.empty now with
    rows := t.rows
    heads := match t.checkpoint with
      | none => ∅
      | some (h, n) => AList.singleton day ⟨h, n, none⟩ }

/-- An exporter; the hashes of the rows stand for their Parquet bytes. -/
def sampleExporter : Exporter :=
  { sum256 := sampleSum256
    parquet := fun rows => rows.flatMap Record.chainHash
    bucket := bytes "audit" }

/-- Noon of the day after the sample day. -/
def sampleNoon : Time := .ofSec 63919195200

/-- Only the given command fails. -/
def failAt (c : Cmd) : Cmd → Fate := fun c' => if c' = c then .error else .ok

/-- The sample day after two appends, the second with the given fates. -/
def sampleDay (fate : Cmd → Fate) : Stores :=
  .ofDay sampleNoon (Uuid.ofByte 1, bytes "2026-07-08") (sample.run sampleEnv World.init
    [.append (Uuid.ofByte 2) Prog.noFault true, .append (Uuid.ofByte 3) fate true]).store

/-- Both checkpoints are written: the manifest verifies the two rows. -/
theorem exportDay_agrees_sample : Agrees sampleSum256 (Uuid.ofByte 1, bytes "2026-07-08")
      ((sampleDay Prog.noFault).chainScan (Uuid.ofByte 1, bytes "2026-07-08"))
      ((sampleExporter.exportDay (Uuid.ofByte 1, bytes "2026-07-08")).alone
        (sampleDay Prog.noFault)) :=
  (exportDay_agrees_iff sample sampleSum256_injective sampleSum256_ne_nil sampleEnv
    [.append (Uuid.ofByte 2) Prog.noFault true, .append (Uuid.ofByte 3) Prog.noFault true]
    (by decide) sampleExporter (sampleDay Prog.noFault)
    ⟨by decide +kernel, by decide +kernel⟩).mpr (.inr (by decide +kernel))

/-- The second checkpoint fails: the manifest has the hash of the first row. -/
theorem exportDay_stale_checkpoint : ¬ Agrees sampleSum256 (Uuid.ofByte 1, bytes "2026-07-08")
      ((sampleDay (failAt .upsertChainHead)).chainScan (Uuid.ofByte 1, bytes "2026-07-08"))
      ((sampleExporter.exportDay (Uuid.ofByte 1, bytes "2026-07-08")).alone
        (sampleDay (failAt .upsertChainHead))) := by
  decide +kernel

end Export

end Windrose.Audit

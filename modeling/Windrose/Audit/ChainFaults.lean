/-
  Audit/ChainFaults.lean --- what a failing append can leave behind.

  Whatever the fates of its commands, an append leaves the chain where it was, or as a
  complete append leaves it, up to the best-effort checkpoint, or it was interrupted between
  INCR and the SET of the head.  `CleanAppend` excludes the last.
-/
import Windrose.Audit.ChainBatch

set_option autoImplicit false

namespace Windrose.Audit

open Windrose.Foundation

namespace Store

/-- Equal up to the Postgres checkpoint. -/
def SameChain (s s' : Store) : Prop :=
  s.assign = s'.assign ∧ s.seq = s'.seq ∧ s.head = s'.head ∧ s.rows = s'.rows

theorem SameChain.refl (s : Store) : s.SameChain s := ⟨rfl, rfl, rfl, rfl⟩

end Store

namespace Manager

variable (m : Manager)

/-- The chain did not move: at most the seed of a cold counter was written, the
counter first and then the head. -/
def Unmoved (s s' : Store) : Prop :=
  s'.SameChain s ∨ (s.seq = none ∧ (s'.SameChain (s.setSeq (m.seedOf s).1) ∨
    s'.SameChain ((s.setSeq (m.seedOf s).1).setHead (m.seedOf s).2)))

/-- The commands that put the seed in place, from a store. -/
def seedCmds (s : Store) : List Cmd :=
  .existsSeq ::
    match s.seq with
    | some _ => []
    | none => (if m.hasTip then [.chainTip] else []) ++ [.seedSeq, .seedHead]

/-- The commands `Append` issues before INCR, from a store. -/
def beforeIncr (s : Store) : List Cmd := [.getAssignment, .lock, .recheck] ++ m.seedCmds s

/-- From INCR on: INCR has no effect, or everything up to the SET of the head
has. -/
def CompletesFromIncr (fate : Cmd → Fate) : Prop :=
  fate .incr = .error ∨
    (fate .incr = .ok ∧ fate .getHead = .ok ∧ fate .putAssignment = .ok ∧ fate .setHead ≠ .error)

/-- The append of an event is not interrupted between INCR and the SET of the
head: it is assigned already, or it does not get to INCR, or it completes. -/
def CleanAppend (s : Store) (e : Uuid) (fate : Cmd → Fate) : Prop :=
  s.assign e = none → (∀ c ∈ m.beforeIncr s, fate c = .ok) → CompletesFromIncr fate

instance (fate : Cmd → Fate) : Decidable (CompletesFromIncr fate) :=
  inferInstanceAs (Decidable (_ ∨ _ ∧ _ ∧ _ ∧ _))

instance (s : Store) (e : Uuid) (fate : Cmd → Fate) : Decidable (m.CleanAppend s e fate) :=
  inferInstanceAs (Decidable (_ → _ → _))

/-! ## The seed -/

theorem seed_cases (fate : Cmd → Fate) (s : Store) : (m.seed.run fate s = (some (m.seedOf s), s) ∧
      ∀ c ∈ (if m.hasTip then [Cmd.chainTip] else []), fate c = .ok) ∨
    m.seed.run fate s = (none, s) := by
  unfold seed
  by_cases htip : m.hasTip = true
  · rw [if_pos htip, if_pos htip]
    cases hf : fate .chainTip with
    | ok => exact .inl ⟨Prog.run_cmd_ok s hf, by simpa using hf⟩
    | error => exact .inr (Prog.run_cmd_error s hf)
    | crash => exact .inr (Prog.run_cmd_crash s hf)
  · rw [if_neg htip, if_neg htip]
    exact .inl ⟨by simp [seedOf, htip], by simp⟩

theorem unmoved_refl (s : Store) : m.Unmoved s s := .inl (.refl s)

theorem unmoved_warmed (s : Store) : m.Unmoved s (m.warmed s) := by
  unfold warmed
  cases hseq : s.seq with
  | some n => exact m.unmoved_refl s
  | none => exact .inr ⟨hseq, .inr (.refl _)⟩

/-- The seeding of a cold counter completes, with all its commands, or stops
with the chain unmoved. -/
theorem seedCold_cases (fate : Cmd → Fate) (s : Store) :
    (m.seedCold.run fate s = (some (), m.warmed s) ∧ ∀ c ∈ m.seedCmds s, fate c = .ok) ∨
    ∃ s', m.seedCold.run fate s = (none, s') ∧ m.Unmoved s s' := by
  unfold seedCold
  rcases Prog.read_bind_cases Cmd.existsSeq (fun s : Store => s.seq.isSome)
    _ fate s with ⟨hexists, hrun⟩ | ⟨-, hrun⟩
  · rw [hrun]
    unfold warmed seedCmds
    cases hseq : s.seq with
    | some n => exact .inl ⟨rfl, by simpa using hexists⟩
    | none =>
      simp only [Option.isSome_none, Bool.false_eq_true, if_false]
      rcases m.seed_cases fate s with ⟨hseed, htip⟩ | hseed
      · rw [Prog.run_bind_of_some hseed]
        -- The counter is set before the head, and each may be the last.
        cases hset : fate .seedSeq with
        | error => exact .inr ⟨s, Prog.cmd_bind_error hset, m.unmoved_refl s⟩
        | crash => exact .inr ⟨_, Prog.cmd_bind_crash hset, .inr ⟨hseq, .inl (.refl _)⟩⟩
        | ok =>
          rw [Prog.cmd_bind_ok hset]
          cases hhead : fate .seedHead with
          | error => exact .inr ⟨_, Prog.run_cmd_error _ hhead, .inr ⟨hseq, .inl (.refl _)⟩⟩
          | crash => exact .inr ⟨_, Prog.run_cmd_crash _ hhead, .inr ⟨hseq, .inr (.refl _)⟩⟩
          | ok =>
            refine .inl ⟨Prog.run_cmd_ok _ hhead, fun c hc => ?_⟩
            rw [List.mem_cons, List.mem_append] at hc
            rcases hc with rfl | hc | hc
            · exact hexists
            · exact htip c hc
            · simp only [List.mem_cons, List.not_mem_nil, or_false] at hc
              rcases hc with rfl | rfl
              · exact hset
              · exact hhead
      · exact .inr ⟨s, Prog.run_bind_of_none hseed, m.unmoved_refl s⟩
  · exact .inr ⟨s, hrun, m.unmoved_refl s⟩

/-! ## One append -/

/-- From INCR on, an append that completes leaves the appended store. -/
theorem advance_cases {fate : Cmd → Fate} (hclean : CompletesFromIncr fate) (s : Store)
    (it : BatchItem) : (m.advance it).run fate (m.warmed s) = (none, m.warmed s) ∨
    ∃ r s', (m.advance it).run fate (m.warmed s) = (r, s') ∧
      (r = none ∨ r = some (m.nextLink s it)) ∧ s'.SameChain (m.appended s it) := by
  rcases hclean with hincr | ⟨hincr, hget, hput, hset⟩
  · exact .inl (Prog.cmd_bind_error hincr)
  · right
    have hmoved : ((m.recorded s it).setHead (m.nextLink s it).hash).SameChain
        (m.appended s it) := by
      rw [← m.recorded_setHead]
      exact ⟨rfl, rfl, rfl, rfl⟩
    rw [m.advance_recorded hincr hget hput, settle]
    cases hf : fate .setHead with
    | error => exact absurd hf hset
    | crash => exact ⟨_, _, Prog.cmd_bind_crash hf, .inl rfl, hmoved⟩
    | ok =>
      rw [Prog.cmd_bind_ok hf]
      rcases Prog.attempt_bind_cases Cmd.upsertChainHead
        (fun s' : Store => s'.setCheckpoint (m.nextLink s it).hash (m.nextLink s it).seq)
        (fun _ => pure (m.nextLink s it)) fate
        ((m.recorded s it).setHead (m.nextLink s it).hash) with hrun | hrun | hrun
      · exact ⟨_, _, hrun, .inr rfl, hmoved⟩
      · exact ⟨_, _, hrun, .inr rfl, hmoved⟩
      · exact ⟨_, _, hrun, .inl rfl, hmoved⟩

/-- What a clean append may come to: the assignment that was there, or nothing,
with the chain unmoved; or a complete append of a new event, whether or not the
caller learns the link. -/
def AppendOutcome (s : Store) (it : BatchItem) (out : Option Link × Store) : Prop :=
  ((out.1 = none ∨ out.1 = s.assign it.eventID) ∧ m.Unmoved s out.2) ∨
  (s.assign it.eventID = none ∧ (out.1 = none ∨ out.1 = some (m.nextLink s it)) ∧
    out.2.SameChain (m.appended s it))

theorem AppendOutcome.nothing (s : Store) (it : BatchItem) : m.AppendOutcome s it (none, s) :=
  .inl ⟨.inl rfl, m.unmoved_refl s⟩

theorem append_outcome {s : Store} {it : BatchItem} {fate : Cmd → Fate}
    (hclean : m.CleanAppend s it.eventID fate) :
    m.AppendOutcome s it ((m.append it).run fate s) := by
  unfold append getAssignment acquire
  rcases Prog.read_bind_cases Cmd.getAssignment (fun s : Store => s.assign it.eventID) _ fate s
    with ⟨hread, hrun⟩ | ⟨-, hrun⟩
  · rw [hrun]
    cases hassign : s.assign it.eventID with
    | some link => exact .inl ⟨.inr hassign.symm, m.unmoved_refl s⟩
    | none =>
      dsimp only
      rcases Prog.read_bind_cases Cmd.lock (fun _ : Store => ()) _ fate s with
        ⟨hlock, hrun⟩ | ⟨-, hrun⟩
      · rw [hrun]
        rcases Prog.read_bind_cases Cmd.recheck (fun s : Store => s.assign it.eventID) _ fate s
          with ⟨hrecheck, hrun⟩ | ⟨-, hrun⟩
        · rw [hrun, hassign]
          dsimp only
          rcases m.seedCold_cases fate s with ⟨hseed, hcmds⟩ | ⟨s', hseed, hunmoved⟩
          · -- Everything before INCR answered: the append is one that completes.
            have hcomplete : CompletesFromIncr fate := by
              refine hclean hassign fun c hc => ?_
              rw [beforeIncr, List.mem_append] at hc
              rcases hc with hc | hc
              · simp only [List.mem_cons, List.not_mem_nil, or_false] at hc
                rcases hc with rfl | rfl | rfl
                · exact hread
                · exact hlock
                · exact hrecheck
              · exact hcmds c hc
            rw [Prog.run_bind_of_some hseed]
            rcases m.advance_cases hcomplete s it with hrun | ⟨r, s', hrun, hr, hsame⟩
            · rw [hrun]
              exact .inl ⟨.inl rfl, m.unmoved_warmed s⟩
            · rw [hrun]
              exact .inr ⟨hassign, hr, hsame⟩
          · rw [Prog.run_bind_of_none hseed]
            exact .inl ⟨.inl rfl, hunmoved⟩
        · rw [hrun]
          exact .nothing m s it
      · rw [hrun]
        exact .nothing m s it
  · rw [hrun]
    exact .nothing m s it

/-! ## A batch -/

theorem batchStart_cases (fate : Cmd → Fate) (s : Store) :
    m.batchStart.run fate s = (some (m.start s), s) ∨ m.batchStart.run fate s = (none, s) := by
  unfold batchStart start
  rcases Prog.read_bind_cases Cmd.existsSeq (fun s : Store => s.seq.isSome) _ fate s with
    ⟨-, hrun⟩ | ⟨-, hrun⟩
  · rw [hrun]
    cases hseq : s.seq with
    | none =>
      rcases m.seed_cases fate s with ⟨hseed, -⟩ | hseed
      · exact .inl hseed
      · exact .inr hseed
    | some n =>
      simp only [Option.isSome_some, if_true]
      rcases Prog.read_bind_cases Cmd.getSeq (fun s : Store => s.seq.getD 0) _ fate s with
        ⟨-, hrun⟩ | ⟨-, hrun⟩
      · rw [hrun]
        rcases Prog.read_bind_cases Cmd.getHead (fun s : Store => s.head) _ fate s with
          ⟨-, hrun⟩ | ⟨-, hrun⟩
        · exact .inl (by rw [hrun, hseq]; rfl)
        · exact .inr hrun
      · exact .inr hrun
  · exact .inr hrun

/-- What a batch may come to: nothing, with the chain as it was; or its
transaction, whether or not the caller learns the links. -/
def BatchOutcome (s : Store) (items : List BatchItem) (out : Option (List Link) × Store) : Prop :=
  (out.1 = none ∧ out.2.SameChain s) ∨
  ((out.1 = none ∨ out.1 = some (m.planned s items).1) ∧
    out.2.SameChain (if pending s items = [] then s else committed s (m.planned s items)))

theorem BatchOutcome.nothing (s : Store) (items : List BatchItem) :
    m.BatchOutcome s items (none, s) :=
  .inl ⟨rfl, .refl s⟩

theorem execTail_outcome (fate : Cmd → Fate) {s : Store} {items : List BatchItem}
    (hne : pending s items ≠ []) : m.BatchOutcome s items
      ((do
        Prog.cmd Cmd.exec fun s' : Store => ((), execBatch s' (m.planned s items).2.1
          (m.planned s items).2.2.1 (m.planned s items).2.2.2)
        Prog.attempt Cmd.upsertChainHead fun s' : Store =>
          s'.setCheckpoint (m.planned s items).2.2.2 (m.planned s items).2.2.1
        pure (m.planned s items).1 : ChainProg (List Link)).run fate s) := by
  have hsame : (execBatch s (m.planned s items).2.1 (m.planned s items).2.2.1
      (m.planned s items).2.2.2).SameChain
        (if pending s items = [] then s else committed s (m.planned s items)) := by
    rw [if_neg hne]
    exact ⟨rfl, rfl, rfl, rfl⟩
  cases hexec : fate .exec with
  | error =>
    rw [Prog.cmd_bind_error hexec]
    exact .nothing m s items
  | crash =>
    rw [Prog.cmd_bind_crash hexec]
    exact .inr ⟨.inl rfl, hsame⟩
  | ok =>
    rw [Prog.cmd_bind_ok hexec]
    rcases Prog.attempt_bind_cases Cmd.upsertChainHead (fun s' : Store =>
      s'.setCheckpoint (m.planned s items).2.2.2 (m.planned s items).2.2.1)
      (fun _ => pure (m.planned s items).1) fate
      (execBatch s (m.planned s items).2.1 (m.planned s items).2.2.1
        (m.planned s items).2.2.2) with hrun | hrun | hrun
    · rw [hrun]
      exact .inr ⟨.inr rfl, hsame⟩
    · rw [hrun]
      exact .inr ⟨.inr rfl, hsame⟩
    · rw [hrun]
      exact .inr ⟨.inl rfl, hsame⟩

/-- **A batch** of two items or more, whatever fails. -/
theorem appendBatch_outcome (fate : Cmd → Fate) (s : Store) {items : List BatchItem}
    (hlen : 2 ≤ items.length) : m.BatchOutcome s items ((m.appendBatch items).run fate s) := by
  match items, hlen with
  | a :: b :: rest, _ =>
  unfold appendBatch batchMissingAssignments acquire
  rcases Prog.read_bind_cases Cmd.getAssignment (fun s : Store =>
    (List.map (fun it : BatchItem => (it, (none : Option Link))) (a :: b :: rest)).map
      (fun p => (p.1, p.2 <|> s.assign p.1.eventID))) _ fate s with ⟨-, hrun⟩ | ⟨-, hrun⟩
  · rw [hrun, lookups_first]
    by_cases hall : (lookups s (a :: b :: rest)).all (fun p => p.2.isSome) = true
    · have hnil := (lookups_all_iff s (a :: b :: rest)).mp hall
      rw [if_pos hall]
      refine .inr ⟨.inr ?_, by rw [if_pos hnil]; exact .refl s⟩
      rw [planned, m.assignPending_of_all hall]
      rfl
    · have hne : pending s (a :: b :: rest) ≠ [] := fun h => hall ((lookups_all_iff s _).mpr h)
      rw [if_neg hall]
      rcases Prog.read_bind_cases Cmd.lock (fun _ : Store => ()) _ fate s with
        ⟨-, hrun⟩ | ⟨-, hrun⟩
      · rw [hrun]
        rcases Prog.read_bind_cases Cmd.recheck (fun s' : Store =>
          (lookups s (a :: b :: rest)).map (fun p => (p.1, p.2 <|> s'.assign p.1.eventID))) _ fate s
          with ⟨-, hrun⟩ | ⟨-, hrun⟩
        · rw [hrun, lookups_again, if_neg hall]
          rcases m.batchStart_cases fate s with hstart | hstart
          · rw [Prog.run_bind_of_some hstart]
            exact m.execTail_outcome fate hne
          · rw [Prog.run_bind_of_none hstart]
            exact .nothing m s _
        · rw [hrun]
          exact .nothing m s _
      · rw [hrun]
        exact .nothing m s _
  · rw [hrun]
    exact .nothing m s _

end Manager

end Windrose.Audit

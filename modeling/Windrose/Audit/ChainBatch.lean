/-
  Audit/ChainBatch.lean --- when a batch append is an iterated append.

  `AppendBatch` reads which items are still unassigned once, before it assigns
  any of them; `Append` reads the assignment of each event after the previous
  one was written.  Without failures the two agree exactly when no unassigned
  event is listed twice and the head the batch starts from is not the empty
  text (`Append` replaces an empty head by the genesis hash, the batch does
  not).
-/
import Windrose.Audit.Chain

set_option autoImplicit false

namespace Windrose.Audit

open Windrose.Foundation

namespace Store

/-- The store with the counter, the head and the checkpoint moved to a link. -/
def advanceTo (s : Store) (h : Bytes) (n : Nat) : Store :=
  ((s.setSeq n).setHead h).setCheckpoint h n

end Store

namespace Manager

variable (m : Manager)

/-! ## Closed forms without faults -/

/-- The counter and head an append starts from. -/
def start (s : Store) : Nat × Bytes :=
  match s.seq with
  | some n => (n, s.head.getD m.genesis)
  | none => m.seedOf s

/-- `Append` reads an empty head as no head. -/
def orGenesis (h : Bytes) : Bytes := if h = [] then m.genesis else h

/-- The link `Append` gives to a new event. -/
def nextLink (s : Store) (it : BatchItem) : Link :=
  ⟨m.date, (m.start s).1 + 1, linkHash m.sum256 (m.orGenesis (m.start s).2) it⟩

/-- The store `Append` leaves for a new event. -/
def appended (s : Store) (it : BatchItem) : Store :=
  (s.putAssignment it.eventID (m.nextLink s it)).advanceTo (m.nextLink s it).hash
    (m.nextLink s it).seq

theorem orGenesis_getD (h : Option Bytes) :
    (if h.getD [] = [] then m.genesis else h.getD []) = m.orGenesis (h.getD m.genesis) := by
  cases h with
  | none => simp [orGenesis]
  | some h => rfl

theorem seed_noFault (s : Store) : m.seed.run Prog.noFault s = (some (m.seedOf s), s) := by
  unfold seed
  split
  · rfl
  · rename_i htip
    simp [seedOf, htip]

/-- The store in which the counter and the head are in place. -/
def warmed (s : Store) : Store :=
  match s.seq with
  | some _ => s
  | none => (s.setSeq (m.seedOf s).1).setHead (m.seedOf s).2

theorem seedCold_noFault (s : Store) : m.seedCold.run Prog.noFault s = (some (), m.warmed s) := by
  unfold seedCold warmed
  rw [Prog.cmd_bind_noFault]
  cases hseq : s.seq with
  | some n => rfl
  | none =>
    simp only [Option.isSome_none, Bool.false_eq_true, if_false]
    rw [Prog.run_bind_of_some (m.seed_noFault s)]
    rfl

theorem start_warmed (s : Store) : (m.warmed s).seq.getD 0 = (m.start s).1 ∧
      m.orGenesis ((m.warmed s).head.getD m.genesis) = m.orGenesis (m.start s).2 := by
  unfold warmed start
  cases hseq : s.seq with
  | some n => simp [hseq]
  | none => exact ⟨rfl, rfl⟩

/-- The tail of `Append` once the position is recorded. -/
def settle (link : Link) : ChainProg Link := do
  Prog.cmd Cmd.setHead fun s : Store => ((), s.setHead link.hash)
  Prog.attempt Cmd.upsertChainHead fun s : Store => s.setCheckpoint link.hash link.seq
  pure link

/-- The store once the position is recorded and before the head moves. -/
def recorded (s : Store) (it : BatchItem) : Store :=
  ((m.warmed s).setSeq (m.nextLink s it).seq).putAssignment it.eventID (m.nextLink s it)

theorem advance_recorded {fate : Cmd → Fate} (hincr : fate .incr = .ok)
    (hget : fate .getHead = .ok) (hput : fate .putAssignment = .ok) (s : Store) (it : BatchItem) :
    (m.advance it).run fate (m.warmed s) =
      (settle (m.nextLink s it)).run fate (m.recorded s it) := by
  obtain ⟨hseq, hhead⟩ := m.start_warmed s
  unfold advance
  rw [Prog.cmd_bind_ok hincr, Prog.cmd_bind_ok hget, Prog.cmd_bind_ok hput]
  simp only [Store.setSeq, orGenesis_getD, hseq, hhead]
  rfl

theorem recorded_setHead (s : Store) (it : BatchItem) :
    ((m.recorded s it).setHead (m.nextLink s it).hash).setCheckpoint (m.nextLink s it).hash
      (m.nextLink s it).seq = m.appended s it := by
  unfold recorded warmed
  cases s.seq with
  | some n => rfl
  | none => rfl

theorem advance_noFault (s : Store) (it : BatchItem) :
    (m.advance it).run Prog.noFault (m.warmed s) = (some (m.nextLink s it), m.appended s it) := by
  rw [m.advance_recorded rfl rfl rfl, ← m.recorded_setHead]
  rfl

theorem append_noFault (s : Store) (it : BatchItem) : (m.append it).run Prog.noFault s =
      match s.assign it.eventID with
      | some link => (some link, s)
      | none => (some (m.nextLink s it), m.appended s it) := by
  unfold append getAssignment acquire
  rw [Prog.cmd_bind_noFault]
  cases hassign : s.assign it.eventID with
  | some link => rfl
  | none =>
    simp only [Prog.cmd_bind_noFault, hassign]
    rw [Prog.run_bind_of_some (m.seedCold_noFault s)]
    exact m.advance_noFault s it

theorem batchStart_noFault (s : Store) :
    m.batchStart.run Prog.noFault s = (some (m.start s), s) := by
  unfold batchStart start
  rw [Prog.cmd_bind_noFault]
  cases hseq : s.seq with
  | some n => simp [hseq]
  | none => exact m.seed_noFault s

/-- The items and what Redis holds for them. -/
def lookups (s : Store) (items : List BatchItem) : List (BatchItem × Option Link) :=
  items.map fun it => (it, s.assign it.eventID)

/-- The items without an assignment. -/
def pending (s : Store) (items : List BatchItem) : List BatchItem :=
  items.filter fun it => (s.assign it.eventID).isNone

/-- The assignment loop of the batch from a store. -/
def planned (s : Store) (items : List BatchItem) :
    List Link × List (Uuid × Link) × Nat × Bytes :=
  m.assignPending (m.start s).1 (m.start s).2 (lookups s items)

/-- The transaction and the checkpoint of a batch. -/
def committed (s : Store) (r : List Link × List (Uuid × Link) × Nat × Bytes) : Store :=
  (execBatch s r.2.1 r.2.2.1 r.2.2.2).setCheckpoint r.2.2.2 r.2.2.1

theorem lookups_first (s : Store) (items : List BatchItem) :
    (items.map fun it => (it, (none : Option Link))).map
      (fun p => (p.1, p.2 <|> s.assign p.1.eventID)) = lookups s items := by
  simp [lookups]

theorem lookups_again (s : Store) (items : List BatchItem) :
    (lookups s items).map (fun p => (p.1, p.2 <|> s.assign p.1.eventID)) = lookups s items := by
  simp only [lookups, List.map_map]
  refine List.map_congr_left fun it _ => ?_
  cases h : s.assign it.eventID <;> simp [h]

theorem lookups_all_iff (s : Store) (items : List BatchItem) :
    (lookups s items).all (fun p => p.2.isSome) = true ↔ pending s items = [] := by
  simp only [lookups, pending, List.all_map, List.all_eq_true, List.filter_eq_nil_iff,
    Function.comp_apply, Option.isNone_iff_eq_none, Option.isSome_iff_ne_none]

theorem assignPending_of_all {seq : Nat} {prev : Bytes} :
    ∀ {l : List (BatchItem × Option Link)}, l.all (fun p => p.2.isSome) = true →
      m.assignPending seq prev l = (l.filterMap (·.2), [], seq, prev) := by
  intro l
  induction l with
  | nil => intro _; rfl
  | cons p l ih =>
    intro h
    obtain ⟨it, o⟩ := p
    cases o with
    | none => simp at h
    | some link =>
      rw [List.all_cons, Option.isSome_some, Bool.true_and] at h
      simp [assignPending, ih h]

variable {items : List BatchItem} {s : Store} {it : BatchItem}

theorem appendBatch_noFault (s : Store) (hlen : 2 ≤ items.length) :
    (m.appendBatch items).run Prog.noFault s =
      (some (m.planned s items).1,
        if pending s items = [] then s else committed s (m.planned s items)) := by
  match items, hlen with
  | a :: b :: rest, _ =>
  unfold appendBatch batchMissingAssignments acquire
  rw [Prog.cmd_bind_noFault, lookups_first]
  by_cases hall : (lookups s (a :: b :: rest)).all (fun p => p.2.isSome) = true
  · have hnil := (lookups_all_iff s (a :: b :: rest)).mp hall
    rw [if_pos hall, if_pos hnil, planned, m.assignPending_of_all hall]
    rfl
  · have hne : pending s (a :: b :: rest) ≠ [] := fun h => hall ((lookups_all_iff s _).mpr h)
    rw [if_neg hall, Prog.cmd_bind_noFault, Prog.cmd_bind_noFault, lookups_again, if_neg hall,
      if_neg hne, Prog.run_bind_of_some (m.batchStart_noFault s)]
    rfl

/-! ## The iterated append -/

/-- `appendEach` on the store alone. -/
def each (s : Store) : List BatchItem → List Link × Store
  | [] => ([], s)
  | it :: items =>
    match s.assign it.eventID with
    | some link => (link :: (each s items).1, (each s items).2)
    | none =>
      (m.nextLink s it :: (each (m.appended s it) items).1, (each (m.appended s it) items).2)

theorem appendEach_noFault (items : List BatchItem) :
    ∀ s : Store, (m.appendEach items).run Prog.noFault s =
      (some (m.each s items).1, (m.each s items).2) := by
  induction items with
  | nil => intro s; rfl
  | cons it items ih =>
    intro s
    have happend := m.append_noFault s it
    unfold appendEach each
    cases hassign : s.assign it.eventID with
    | some link =>
      rw [hassign] at happend
      rw [Prog.run_bind_of_some happend, Prog.run_bind_of_some (ih s)]
      rfl
    | none =>
      rw [hassign] at happend
      rw [Prog.run_bind_of_some happend, Prog.run_bind_of_some (ih (m.appended s it))]
      rfl

/-! ## Agreement -/

/-- The links and the Redis keys two calls leave are the same. -/
def SameOutcome (r r' : Option (List Link) × Store) : Prop :=
  r.1 = r'.1 ∧ r.2.assign = r'.2.assign ∧ r.2.seq = r'.2.seq ∧ r.2.head = r'.2.head

/-- A call of at most one item, or one that lists no unassigned event twice and,
if it has an unassigned event, does not start from an empty head text. -/
def BatchFaithful (s : Store) (items : List BatchItem) : Prop :=
  items.length ≤ 1 ∨
    (((pending s items).map BatchItem.eventID).Nodup ∧
      (pending s items = [] ∨ (m.start s).2 ≠ []))

instance (s : Store) (items : List BatchItem) : Decidable (m.BatchFaithful s items) :=
  inferInstanceAs (Decidable (_ ∨ _ ∧ (_ ∨ _)))

variable {m}

theorem orGenesis_of_ne_nil {h : Bytes} (hh : h ≠ []) : m.orGenesis h = h := if_neg hh

theorem start_appended (s : Store) (it : BatchItem) :
    m.start (m.appended s it) = ((m.start s).1 + 1, (m.nextLink s it).hash) := rfl

theorem sha256Hex_ne_nil {sum256 : Bytes → Bytes} (hne : ∀ b, sum256 b ≠ []) (b : Bytes) :
    sha256Hex sum256 b ≠ [] := by
  intro h
  have hlen := congrArg List.length h
  rw [sha256Hex, hexEncode_length, List.length_nil] at hlen
  exact hne b (List.length_eq_zero_iff.mp (by omega))

theorem assign_appended_of_ne {e : Uuid} (h : e ≠ it.eventID) :
    (m.appended s it).assign e = s.assign e :=
  Function.update_of_ne h _ _

theorem assign_appended_self (s : Store) (it : BatchItem) :
    (m.appended s it).assign it.eventID = some (m.nextLink s it) :=
  Function.update_self ..

theorem lookups_appended (h : ∀ a ∈ items, a.eventID ≠ it.eventID) :
    lookups (m.appended s it) items = lookups s items := by
  refine List.map_congr_left fun a ha => ?_
  rw [assign_appended_of_ne (h a ha)]

theorem pending_appended (h : ∀ a ∈ items, a.eventID ≠ it.eventID) :
    pending (m.appended s it) items = pending s items := by
  refine List.filter_congr fun a ha => ?_
  rw [assign_appended_of_ne (h a ha)]

theorem pending_cons_some {link : Link}
    (h : s.assign it.eventID = some link) : pending s (it :: items) = pending s items := by
  simp [pending, h]

theorem pending_cons_none
    (h : s.assign it.eventID = none) : pending s (it :: items) = it :: pending s items := by
  simp [pending, h]

theorem eventID_ne_of_nodup (hassign : s.assign it.eventID = none)
    (hnodup : ((pending s (it :: items)).map BatchItem.eventID).Nodup) :
    ∀ a ∈ items, a.eventID ≠ it.eventID := by
  intro a ha heq
  rw [pending_cons_none hassign, List.map_cons, List.nodup_cons] at hnodup
  refine hnodup.1 (List.mem_map.mpr ⟨a, List.mem_filter.mpr ⟨ha, ?_⟩, heq⟩)
  rw [heq, hassign]
  rfl

/-- The batch and the iterated append keep step: the same links, and the same
store once everything is written. -/
theorem each_eq_planned (hne : ∀ b, m.sum256 b ≠ []) (items : List BatchItem) :
    ∀ s : Store, ((pending s items).map BatchItem.eventID).Nodup →
      (pending s items = [] ∨ (m.start s).2 ≠ []) →
      m.each s items = ((m.planned s items).1,
        if pending s items = [] then s else committed s (m.planned s items)) := by
  induction items with
  | nil => intro s _ _; rfl
  | cons it items ih =>
    intro s hnodup hhead
    cases hassign : s.assign it.eventID with
    | some link =>
      rw [pending_cons_some hassign] at hnodup hhead ⊢
      simp only [each, hassign, ih s hnodup hhead]
      simp [planned, lookups, hassign, assignPending, committed]
    | none =>
      have hothers := eventID_ne_of_nodup hassign hnodup
      have hstart : (m.start s).2 ≠ [] :=
        hhead.resolve_left (by rw [pending_cons_none hassign]; exact List.cons_ne_nil _ _)
      rw [pending_cons_none hassign, List.map_cons, List.nodup_cons] at hnodup
      -- The link is the batch's own, since the head is not empty.
      have hlink : m.nextLink s it =
          ⟨m.date, (m.start s).1 + 1, linkHash m.sum256 (m.start s).2 it⟩ := by
        rw [nextLink, orGenesis_of_ne_nil hstart]
      have hrest := ih (m.appended s it) (by rw [pending_appended hothers]; exact hnodup.2)
        (.inr (sha256Hex_ne_nil hne _))
      have hplan : m.planned (m.appended s it) items =
          m.assignPending ((m.start s).1 + 1) (m.nextLink s it).hash (lookups s items) := by
        rw [planned, lookups_appended hothers, start_appended]
      rw [pending_appended hothers, hplan] at hrest
      have hstep : m.planned s (it :: items) =
          (m.nextLink s it :: (m.assignPending ((m.start s).1 + 1) (m.nextLink s it).hash
            (lookups s items)).1,
           (it.eventID, m.nextLink s it) :: (m.assignPending ((m.start s).1 + 1)
            (m.nextLink s it).hash (lookups s items)).2.1,
           (m.assignPending ((m.start s).1 + 1) (m.nextLink s it).hash
            (lookups s items)).2.2) := by
        rw [hlink]
        simp [planned, lookups, hassign, assignPending]
      simp only [each, hassign, hrest, pending_cons_none hassign, reduceCtorEq, if_false, hstep]
      refine Prod.ext rfl ?_
      split
      · rename_i hnil
        rw [m.assignPending_of_all ((lookups_all_iff s items).mpr hnil)]
        rfl
      · rfl

theorem start_each (items : List BatchItem) : ∀ s : Store, (m.start (m.each s items).2).1 =
      (m.start s).1 + ((pending s items).map BatchItem.eventID).toFinset.card := by
  induction items with
  | nil => intro s; rfl
  | cons it items ih =>
    intro s
    cases hassign : s.assign it.eventID with
    | some link =>
      rw [pending_cons_some hassign]
      simp only [each, hassign]
      exact ih s
    | none =>
      simp only [each, hassign]
      rw [ih (m.appended s it), start_appended, pending_cons_none hassign]
      have hset : (((it :: pending s items)).map BatchItem.eventID).toFinset =
          insert it.eventID
            ((pending (m.appended s it) items).map BatchItem.eventID).toFinset := by
        ext e
        simp only [List.map_cons, List.toFinset_cons, Finset.mem_insert, List.mem_toFinset,
          List.mem_map, pending, List.mem_filter, Option.isNone_iff_eq_none]
        by_cases he : e = it.eventID
        · simp [he]
        · simp only [he, false_or]
          constructor
          · rintro ⟨a, ⟨ha, hnone⟩, rfl⟩
            exact ⟨a, ⟨ha, by rw [assign_appended_of_ne he]; exact hnone⟩, rfl⟩
          · rintro ⟨a, ⟨ha, hnone⟩, rfl⟩
            exact ⟨a, ⟨ha, by rw [assign_appended_of_ne he] at hnone; exact hnone⟩, rfl⟩
      have hnotin : it.eventID ∉
          ((pending (m.appended s it) items).map BatchItem.eventID).toFinset := by
        simp only [List.mem_toFinset, List.mem_map, pending, List.mem_filter,
          Option.isNone_iff_eq_none]
        rintro ⟨a, ⟨_, hnone⟩, heq⟩
        rw [heq, assign_appended_self] at hnone
        exact absurd hnone (by simp)
      rw [hset, Finset.card_insert_of_notMem hnotin]
      omega

theorem assignPending_seq (l : List (BatchItem × Option Link)) :
    ∀ (seq : Nat) (prev : Bytes), (m.assignPending seq prev l).2.2.1 =
      seq + (l.filter fun p => p.2.isNone).length := by
  induction l with
  | nil => intro seq prev; rfl
  | cons p l ih =>
    intro seq prev
    obtain ⟨it, o⟩ := p
    cases o with
    | some link => simpa [assignPending] using ih seq prev
    | none =>
      simp only [assignPending, ih, List.filter_cons, Option.isNone_none, if_true, List.length_cons]
      omega

theorem length_filter_lookups (s : Store) (items : List BatchItem) :
    ((lookups s items).filter fun p => p.2.isNone).length = (pending s items).length := by
  rw [lookups, List.filter_map, List.length_map]
  rfl

theorem start_head_of_links_eq (hsum : Function.Injective m.sum256)
    (hne : ∀ b, m.sum256 b ≠ []) (hstart : (m.start s).2 = []) :
    ∀ items : List BatchItem, (m.each s items).1 = (m.planned s items).1 →
      pending s items = [] := by
  intro items
  induction items with
  | nil => intro _; rfl
  | cons it items ih =>
    intro h
    cases hassign : s.assign it.eventID with
    | some link =>
      rw [pending_cons_some hassign]
      refine ih ?_
      simp only [each, planned, lookups, List.map_cons, hassign, assignPending,
        List.cons.injEq, true_and] at h
      exact h
    | none =>
      simp only [each, planned, lookups, List.map_cons, hassign, assignPending,
        List.cons.injEq, nextLink, Link.mk.injEq, true_and] at h
      have hprev := (chainHash_inj hsum ⟨m.sum256 (genesisPreimage m.tenant m.date), by
        rw [hstart]; rfl⟩ ⟨[], hstart⟩ h.1).1
      rw [hstart] at hprev
      exact absurd hprev (sha256Hex_ne_nil hne _)

/-- **The batch is the iterated append exactly on faithful calls.** -/
theorem appendBatch_eq_appendEach_iff (m : Manager) (hsum : Function.Injective m.sum256)
    (hne : ∀ b, m.sum256 b ≠ []) (s : Store) (items : List BatchItem) :
    SameOutcome ((m.appendBatch items).run Prog.noFault s)
        ((m.appendEach items).run Prog.noFault s) ↔ m.BatchFaithful s items := by
  match items with
  | [] => exact ⟨fun _ => .inl (by simp), fun _ => ⟨rfl, rfl, rfl, rfl⟩⟩
  | [it] =>
      have hsame : (m.appendBatch [it]).run Prog.noFault s =
          (m.appendEach [it]).run Prog.noFault s := rfl
      rw [hsame]
      exact ⟨fun _ => .inl (by simp), fun _ => ⟨rfl, rfl, rfl, rfl⟩⟩
  | a :: b :: rest =>
      rw [m.appendBatch_noFault s (by simp), m.appendEach_noFault]
      constructor
      · rintro ⟨hlinks, -, hseq, -⟩
        refine .inr ⟨?_, ?_⟩
        · by_cases hnil : pending s (a :: b :: rest) = []
          · rw [hnil]
            exact List.nodup_nil
          · -- Both counters were moved: compare how far.
            have hcount := m.start_each (a :: b :: rest) s
            rw [if_neg hnil] at hseq
            have hbatch : (m.each s (a :: b :: rest)).2.seq =
                some ((m.start s).1 + (pending s (a :: b :: rest)).length) := by
              rw [← hseq, ← length_filter_lookups, ← assignPending_seq]
              rfl
            rw [start, hbatch] at hcount
            have hcard : ((pending s (a :: b :: rest)).map BatchItem.eventID).toFinset.card =
                ((pending s (a :: b :: rest)).map BatchItem.eventID).length := by
              rw [List.length_map]
              exact (Nat.add_left_cancel hcount).symm
            exact Multiset.coe_nodup.mp (Multiset.toFinset_card_eq_card_iff_nodup.mp hcard)
        · by_cases hstart : (m.start s).2 = []
          · exact .inl (start_head_of_links_eq hsum hne hstart _ (Option.some.inj hlinks).symm)
          · exact .inr hstart
      · intro hfaithful
        rcases hfaithful with hlen | ⟨hnodup, hhead⟩
        · simp at hlen
        · rw [each_eq_planned hne _ s hnodup hhead]
          exact ⟨rfl, rfl, rfl, rfl⟩

/-- The chain of the sample day. -/
def sample : Manager := ⟨sampleSum256, Uuid.ofByte 1, bytes "2026-07-08", true⟩

/-- Two different events of the sample day: the batch appends them as two calls
would. -/
theorem appendBatch_eq_appendEach_sample : SameOutcome
      ((sample.appendBatch [sampleItem, { sampleItem with eventID := Uuid.ofByte 3 }]).run
        Prog.noFault Store.empty)
      ((sample.appendEach [sampleItem, { sampleItem with eventID := Uuid.ofByte 3 }]).run
        Prog.noFault Store.empty) :=
  (appendBatch_eq_appendEach_iff sample sampleSum256_injective sampleSum256_ne_nil Store.empty
    [sampleItem, { sampleItem with eventID := Uuid.ofByte 3 }]).mpr (by decide)

/-- A redelivered copy in one batch: the batch gives the event two positions, two
appends give it one. -/
theorem appendBatch_repeated_event :
    ¬ SameOutcome ((sample.appendBatch [sampleItem, sampleItem]).run Prog.noFault Store.empty)
      ((sample.appendEach [sampleItem, sampleItem]).run Prog.noFault Store.empty) := by
  intro h
  have hseqs : ((sample.appendBatch [sampleItem, sampleItem]).run Prog.noFault
        Store.empty).1.map (List.map Link.seq) = some [1, 2] ∧
      ((sample.appendEach [sampleItem, sampleItem]).run Prog.noFault
        Store.empty).1.map (List.map Link.seq) = some [1, 1] := by decide
  rw [h.1, hseqs.2] at hseqs
  exact absurd hseqs.1 (by decide)

end Manager

end Windrose.Audit

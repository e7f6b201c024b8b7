/-
  X12/Envelopes.lean --- whole interchanges.

  An `Interchange` is what a stream should consist of: an ISA, groups and their
  transactions, and an IEA, told by the kinds of the segments alone.  What the numbers in
  them say is `Closed`.  The decoder tracks neither a stack nor a tree, only the numbers
  that are in force; `Carries` says what a part of a stream does to a decoder between two
  transactions.

  The decoder looks at no order, so `Level` says where in an interchange a segment comes.
-/
import Windrose.X12.Decode

set_option autoImplicit false

namespace Windrose.X12

open Windrose.Foundation

/-! ## The structure of a stream -/

/-- The segment opens and closes nothing. -/
def Kind.inner (k : Kind) : Bool := k = .ta1 || k = .data

/-- ST to SE. -/
structure Transaction where
  st : Segment
  body : List Segment
  se : Segment
  st_kind : st.kind = .st
  body_inner : ∀ s ∈ body, s.kind.inner = true
  se_kind : se.kind = .se

/-- What stands between other envelopes: a transaction, or a TA1. -/
inductive Piece where
  | transaction (t : Transaction)
  | acknowledgment (s : Segment) (kind : s.kind = .ta1)

/-- GS to GE. -/
structure Group where
  gs : Segment
  pieces : List Piece
  ge : Segment
  gs_kind : gs.kind = .gs
  ge_kind : ge.kind = .ge

/-- What stands in an interchange. -/
inductive Part where
  | group (g : Group)
  | piece (p : Piece)

/-- ISA to IEA. -/
structure Interchange where
  isa : Segment
  parts : List Part
  iea : Segment
  isa_kind : isa.kind = .isa
  iea_kind : iea.kind = .iea

def Transaction.segments (t : Transaction) : List Segment := t.st :: t.body ++ [t.se]

def Piece.segments : Piece → List Segment
  | .transaction t => t.segments
  | .acknowledgment s _ => [s]

def Group.segments (g : Group) : List Segment := g.gs :: g.pieces.flatMap Piece.segments ++ [g.ge]

def Part.segments : Part → List Segment
  | .group g => g.segments
  | .piece p => p.segments

def Interchange.segments (i : Interchange) : List Segment :=
  i.isa :: i.parts.flatMap Part.segments ++ [i.iea]

/-! ## What the numbers say -/

/-- The transaction set is one that is decoded, SE02 is ST02, and SE01, when it is a
number, is the number of segments from ST to SE. -/
def Transaction.Closed (t : Transaction) : Prop :=
  t.st.elStrip 1 ∈ supportedTransactionSets ∧ t.se.elStrip 2 = t.st.elStrip 2 ∧
    (isdigit (t.se.elStrip 1) = true → pyInt (t.se.elStrip 1) = some t.segments.length)

def Piece.Closed : Piece → Prop
  | .transaction t => t.Closed
  | .acknowledgment _ _ => True

/-- GE02 is GS06, and the transactions are closed. -/
def Group.Closed (g : Group) : Prop := g.ge.elStrip 2 = g.gs.elStrip 6 ∧ ∀ p ∈ g.pieces, p.Closed

def Part.Closed : Part → Prop
  | .group g => g.Closed
  | .piece p => p.Closed

/-- IEA02 is ISA13, and the groups are closed. -/
def Interchange.Closed (i : Interchange) : Prop :=
  i.iea.elStrip 2 = i.isa.elStrip 13 ∧ ∀ p ∈ i.parts, p.Closed

/-! ## Their rows -/

section Collect

variable {α : Type}

/-- One after the other: the envelope that is left, and the rows of all. -/
def collect (f : α → Envelope → Envelope × List Row) (env : Envelope) :
    List α → Envelope × List Row
  | [] => (env, [])
  | a :: as =>
    let first := f a env
    let others := collect f first.1 as
    (others.1, first.2 ++ others.2)

theorem collect_env {β : Type} {f : α → Envelope → Envelope × List Row} {g : Envelope → β}
    {as : List α} (h : ∀ a ∈ as, ∀ env, g (f a env).1 = g env) (env : Envelope) :
    g (collect f env as).1 = g env := by
  induction as generalizing env with
  | nil => rfl
  | cons a as ih =>
    have hothers := ih (fun b hb => h b (List.mem_cons_of_mem _ hb)) (f a env).1
    exact hothers.trans (h a List.mem_cons_self env)

end Collect

/-- A segment of a body: a TA1 has a row of its own, any other is fed. -/
def bodyRow (env : Envelope) (h : Handler) (s : Segment) : Handler × List Row :=
  if s.kind = .ta1 then (h, [ta1Row env s]) else h.feed env s

/-- The segments of a body: the handler, and the rows. -/
def bodyRows (env : Envelope) : Handler → List Segment → Handler × List Row
  | h, [] => (h, [])
  | h, s :: body =>
    let first := bodyRow env h s
    let others := bodyRows env first.1 body
    (others.1, first.2 ++ others.2)

/-- The rows of a transaction: what its handler makes of the body, and what it has in
flight at the end. -/
def Transaction.out (t : Transaction) (env : Envelope) : Envelope × List Row :=
  let env := { env with st01 := t.st.elStrip 1, st02 := t.st.elStrip 2 }
  match handlers.lookup (t.st.elStrip 1) with
  | none => (env, [])
  | some h =>
    let r := bodyRows env h t.body
    (env, r.2 ++ (r.1.flush env).2)

/-- A TA1 is a row. -/
def Piece.out (p : Piece) (env : Envelope) : Envelope × List Row :=
  match p with
  | .transaction t => t.out env
  | .acknowledgment s _ => (env, [ta1Row env s])

def Group.out (g : Group) (env : Envelope) : Envelope × List Row :=
  collect Piece.out { env with gs06 := g.gs.elStrip 6 } g.pieces

def Part.out (p : Part) (env : Envelope) : Envelope × List Row :=
  match p with
  | .group g => g.out env
  | .piece p => p.out env

def Interchange.out (i : Interchange) (env : Envelope) : Envelope × List Row :=
  collect Part.out
    { env with
      isa06 := i.isa.elStrip 6, isa08 := i.isa.elStrip 8, isa13 := i.isa.elStrip 13 } i.parts

/-- The rows of a stream. -/
def rowsOf (is : List Interchange) : List Row := (collect Interchange.out {} is).2

/-! ## Parts of a stream -/

open Decoder

/-- No transaction is open. -/
structure Decoder.Between (s : Decoder) : Prop where
  handler : s.handler = none
  stOpen : s.stOpen = false
  segmentCount : s.segmentCount ≤ maxSegmentsPerTransaction

/-- What the segments do to a decoder between two transactions: when they are accepted,
the envelope and the rows, and whether an IEA is among them. -/
structure Carries (batchSize : Int) (segs : List Segment)
    (out : Envelope → Envelope × List Row) (accepted : Envelope → Prop) (iea : Bool) :
    Prop where
  accepts : ∀ s : Decoder, s.Between →
    ((∃ s', Reads batchSize s segs s') ↔
      accepted s.env ∧ s.segmentCount + segs.length ≤ maxSegmentsPerTransaction)
  leads : ∀ s s' : Decoder, s.Between → Reads batchSize s segs s' →
    s'.Between ∧ s'.env = (out s.env).1 ∧ s'.allRows = s.allRows ++ (out s.env).2 ∧
      s'.segmentCount = s.segmentCount + segs.length ∧ s'.seenIea = (s.seenIea || iea)

variable {seg : Segment}

namespace Carries

variable {batchSize : Int} {segs segs₁ segs₂ : List Segment}
variable {out out₁ out₂ : Envelope → Envelope × List Row}
variable {accepted accepted₁ accepted₂ : Envelope → Prop} {iea iea₁ iea₂ : Bool}

theorem congr (h : Carries batchSize segs out₁ accepted₁ iea)
    (hout : ∀ env, out₁ env = out₂ env) (haccepted : ∀ env, accepted₁ env ↔ accepted₂ env) :
    Carries batchSize segs out₂ accepted₂ iea := by
  obtain rfl : out₁ = out₂ := funext hout
  obtain rfl : accepted₁ = accepted₂ := funext fun env => propext (haccepted env)
  exact h

theorem nil : Carries batchSize [] (fun env => (env, [])) (fun _ => True) false := by
  constructor
  · intro s hs
    simp [reads_nil, hs.segmentCount]
  · intro s s' hs hreads
    rw [reads_nil] at hreads
    subst hreads
    simp [hs]

theorem append (h₁ : Carries batchSize segs₁ out₁ accepted₁ iea₁)
    (h₂ : Carries batchSize segs₂ out₂ accepted₂ iea₂) : Carries batchSize (segs₁ ++ segs₂)
      (fun env => ((out₂ (out₁ env).1).1, (out₁ env).2 ++ (out₂ (out₁ env).1).2))
      (fun env => accepted₁ env ∧ accepted₂ (out₁ env).1) (iea₁ || iea₂) := by
  constructor
  · intro s hs
    rw [List.length_append]
    constructor
    · rintro ⟨s', hreads⟩
      obtain ⟨m, hfirst, hmore⟩ := reads_append.mp hreads
      obtain ⟨hm, henv, -, hcount, -⟩ := h₁.leads s m hs hfirst
      obtain ⟨haccepted₁, -⟩ := (h₁.accepts s hs).mp ⟨m, hfirst⟩
      obtain ⟨haccepted₂, hcap⟩ := (h₂.accepts m hm).mp ⟨s', hmore⟩
      rw [henv] at haccepted₂
      exact ⟨⟨haccepted₁, haccepted₂⟩, by omega⟩
    · rintro ⟨⟨haccepted₁, haccepted₂⟩, hcap⟩
      obtain ⟨m, hfirst⟩ := (h₁.accepts s hs).mpr ⟨haccepted₁, by omega⟩
      obtain ⟨hm, henv, -, hcount, -⟩ := h₁.leads s m hs hfirst
      rw [← henv] at haccepted₂
      obtain ⟨s', hmore⟩ := (h₂.accepts m hm).mpr ⟨haccepted₂, by omega⟩
      exact ⟨s', reads_append.mpr ⟨m, hfirst, hmore⟩⟩
  · intro s s' hs hreads
    obtain ⟨m, hfirst, hmore⟩ := reads_append.mp hreads
    obtain ⟨hm, henv, hrows, hcount, hseen⟩ := h₁.leads s m hs hfirst
    obtain ⟨hs', henv', hrows', hcount', hseen'⟩ := h₂.leads m s' hm hmore
    rw [henv] at henv' hrows'
    refine ⟨hs', henv', by rw [hrows', hrows, List.append_assoc], ?_, ?_⟩
    · rw [hcount', hcount, List.length_append, Nat.add_assoc]
    · rw [hseen', hseen, Bool.or_assoc]

theorem collect {α : Type} {parts : List α} {segsOf : α → List Segment}
    {outOf : α → Envelope → Envelope × List Row} {acceptedOf : α → Prop}
    (h : ∀ a ∈ parts, Carries batchSize (segsOf a) (outOf a) (fun _ => acceptedOf a) iea) :
    Carries batchSize (parts.flatMap segsOf) (fun env => X12.collect outOf env parts)
      (fun _ => ∀ a ∈ parts, acceptedOf a) (iea && !parts.isEmpty) := by
  induction parts with
  | nil =>
    rw [List.isEmpty_nil, Bool.not_true, Bool.and_false]
    refine nil.congr (fun _ => rfl) fun env => ?_
    simp
  | cons a parts ih =>
    have happend := (h a List.mem_cons_self).append
      (ih fun b hb => h b (List.mem_cons_of_mem _ hb))
    have hiea : (iea || (iea && !parts.isEmpty)) = (iea && !(a :: parts).isEmpty) := by
      cases iea <;> simp
    rw [hiea] at happend
    exact happend.congr (fun _ => rfl) (by simp)

theorem single {take : Decoder → Decoder} (htake : ∀ s m : Decoder, s.handler = none →
      (s.take seg = .ok m ↔ accepted s.env ∧ m = take s))
    (hframe : ∀ s : Decoder, (take s).handler = s.handler ∧ (take s).stOpen = s.stOpen ∧
      (take s).segmentCount = s.segmentCount ∧ (take s).env = (out s.env).1 ∧
      (take s).allRows = s.allRows ++ (out s.env).2 ∧ (take s).seenIea = (s.seenIea || iea)) :
    Carries batchSize [seg] out accepted iea := by
  constructor
  · intro s hs
    simp only [reads_cons, reads_nil, step_eq_ok, htake s.counted _ hs.handler]
    constructor
    · rintro ⟨_, _, ⟨hcap, _, ⟨haccepted, _⟩, _⟩, _⟩
      exact ⟨haccepted, hcap⟩
    · rintro ⟨haccepted, hcap⟩
      exact ⟨_, _, ⟨hcap, _, ⟨haccepted, rfl⟩, rfl⟩, rfl⟩
  · intro s s' hs hreads
    simp only [reads_cons, reads_nil, step_eq_ok, htake s.counted _ hs.handler] at hreads
    obtain ⟨_, ⟨hcap, _, ⟨_, rfl⟩, rfl⟩, rfl⟩ := hreads
    obtain ⟨henv, hhandler, hopen, -, hcount, hseen, hrows⟩ :=
      batched_frame batchSize (take s.counted)
    obtain ⟨fhandler, fopen, fcount, fenv, frows, fseen⟩ := hframe s.counted
    refine ⟨⟨?_, ?_, ?_⟩, ?_, ?_, ?_, ?_⟩
    · rw [hhandler, fhandler]
      exact hs.handler
    · rw [hopen, fopen]
      exact hs.stOpen
    · rw [hcount, fcount]
      exact hcap
    · rw [henv, fenv]
      rfl
    · rw [hrows, frows]
      rfl
    · rw [hcount, fcount]
      rfl
    · rw [hseen, fseen]
      rfl

end Carries

/-! ## Transactions -/

/-- The handler `h` of an open transaction is at work. -/
structure Decoder.Within (s : Decoder) (h : Handler) : Prop where
  handler : s.handler = some h
  stOpen : s.stOpen = true
  segmentCount : s.segmentCount ≤ maxSegmentsPerTransaction

section Transactions

variable (batchSize : Int) {s s' : Decoder} {h : Handler} {seg : Segment}

theorem Kind.inner_cases {k : Kind} (hk : k.inner = true) : k = .ta1 ∨ k = .data := by
  simpa [Kind.inner] using hk

theorem acknowledge_frame (s : Decoder) (seg : Segment) :
    (s.acknowledge seg).handler = s.handler ∧ (s.acknowledge seg).stOpen = s.stOpen ∧
      (s.acknowledge seg).env = s.env ∧
      (s.acknowledge seg).allRows = s.allRows ++ [ta1Row s.env seg] ∧
      (s.acknowledge seg).segmentCount = s.segmentCount ∧
      (s.acknowledge seg).stSegmentCount = s.stSegmentCount ∧
      (s.acknowledge seg).seenIea = s.seenIea := by
  have hrest : s.rest.env = s.env ∧ s.rest.handler = s.handler ∧ s.rest.stOpen = s.stOpen ∧
      s.rest.segmentCount = s.segmentCount ∧ s.rest.stSegmentCount = s.stSegmentCount ∧
      s.rest.seenIea = s.seenIea ∧ s.rest.rows = [] := by
    unfold rest
    split
    · exact ⟨rfl, rfl, rfl, rfl, rfl, rfl, ‹_›⟩
    · exact ⟨rfl, rfl, rfl, rfl, rfl, rfl, rfl⟩
  obtain ⟨renv, rhandler, ropen, rcount, rstCount, rseen, rrows⟩ := hrest
  have hall := rest_allRows s
  simp only [allRows, rrows, List.append_nil] at hall
  simp [acknowledge, allRows, renv, rhandler, ropen, rcount, rstCount, rseen, rrows, hall]

theorem take_body (hs : s.handler = some h) (hinner : seg.kind.inner = true) :
    ∃ m, s.take seg = .ok m ∧ m.handler = some (bodyRow s.env h seg).1 ∧
      m.stOpen = s.stOpen ∧ m.env = s.env ∧ m.allRows = s.allRows ++ (bodyRow s.env h seg).2 ∧
      m.segmentCount = s.segmentCount ∧ m.stSegmentCount = s.stSegmentCount ∧
      m.seenIea = s.seenIea := by
  obtain hkind | hkind := Kind.inner_cases hinner
  · obtain ⟨ahandler, aopen, aenv, arows, acount, astCount, aseen⟩ := acknowledge_frame s seg
    refine ⟨s.acknowledge seg, by simp [take, hkind], ?_⟩
    simp [bodyRow, hkind, ahandler, aopen, aenv, arows, acount, astCount, aseen, hs]
  · refine ⟨s.fed seg, by simp [take, hkind], ?_⟩
    simp [fed, bodyRow, hkind, hs, allRows]

theorem step_body (hs : s.Within h) (hinner : seg.kind.inner = true) :
    ((∃ m, s.step batchSize seg = .ok m) ↔ s.segmentCount < maxSegmentsPerTransaction) ∧
      ∀ m, s.step batchSize seg = .ok m →
        m.Within (bodyRow s.env h seg).1 ∧ m.env = s.env ∧
          m.allRows = s.allRows ++ (bodyRow s.env h seg).2 ∧
          m.segmentCount = s.segmentCount + 1 ∧ m.stSegmentCount = s.stSegmentCount + 1 ∧
          m.seenIea = s.seenIea := by
  obtain ⟨t, htake, thandler, topen, tenv, trows, tcount, tstCount, tseen⟩ :=
    take_body (s := s.counted) hs.handler hinner
  simp only [step_eq_ok, htake, Except.ok.injEq]
  refine ⟨⟨fun ⟨_, hcap, _⟩ => hcap, fun hcap => ⟨_, hcap, t, rfl, rfl⟩⟩, ?_⟩
  rintro m ⟨hcap, _, rfl, rfl⟩
  obtain ⟨benv, bhandler, bopen, bstCount, bcount, bseen, brows⟩ := batched_frame batchSize t
  have hcounted : s.counted.stSegmentCount = s.stSegmentCount + 1 := by simp [counted, hs.stOpen]
  refine ⟨⟨bhandler.trans thandler, ?_, ?_⟩, benv.trans tenv, brows.trans trows,
    bcount.trans tcount, ?_, bseen.trans tseen⟩
  · rw [bopen, topen]
    exact hs.stOpen
  · rw [bcount, tcount]
    exact hcap
  · rw [bstCount, tstCount, hcounted]

theorem reads_body {body : List Segment} (hs : s.Within h)
    (hinner : ∀ seg ∈ body, seg.kind.inner = true) : ((∃ s', Reads batchSize s body s') ↔
        s.segmentCount + body.length ≤ maxSegmentsPerTransaction) ∧
      ∀ s', Reads batchSize s body s' →
        s'.Within (bodyRows s.env h body).1 ∧ s'.env = s.env ∧
          s'.allRows = s.allRows ++ (bodyRows s.env h body).2 ∧
          s'.segmentCount = s.segmentCount + body.length ∧
          s'.stSegmentCount = s.stSegmentCount + body.length ∧ s'.seenIea = s.seenIea := by
  induction body generalizing s h with
  | nil =>
    refine ⟨by simp [reads_nil, hs.segmentCount], fun s' hreads => ?_⟩
    rw [reads_nil] at hreads
    subst hreads
    simp [bodyRows, hs]
  | cons seg body ih =>
    have hbody : ∀ seg ∈ body, seg.kind.inner = true := fun b hb =>
      hinner b (List.mem_cons_of_mem _ hb)
    obtain ⟨haccepts, hleads⟩ := step_body batchSize hs
      (hinner seg List.mem_cons_self)
    simp only [reads_cons, List.length_cons]
    constructor
    · constructor
      · rintro ⟨s', m, hstep, hreads⟩
        obtain ⟨hm, -, -, hcount, -⟩ := hleads m hstep
        have hcap := (ih hm hbody).1.mp ⟨s', hreads⟩
        omega
      · intro hcap
        obtain ⟨m, hstep⟩ := haccepts.mpr (by omega)
        obtain ⟨hm, -, -, hcount, -⟩ := hleads m hstep
        obtain ⟨s', hreads⟩ := (ih hm hbody).1.mpr (by omega)
        exact ⟨s', m, hstep, hreads⟩
    · rintro s' ⟨m, hstep, hreads⟩
      obtain ⟨hm, henv, hrows, hcount, hstCount, hseen⟩ := hleads m hstep
      obtain ⟨hs', henv', hrows', hcount', hstCount', hseen'⟩ := (ih hm hbody).2 s' hreads
      rw [henv] at hs' hrows'
      refine ⟨hs', henv'.trans henv, ?_, by omega, by omega, hseen'.trans hseen⟩
      rw [hrows', hrows, List.append_assoc]
      rfl

theorem step_st (hkind : seg.kind = .st) : ((∃ m, s.step batchSize seg = .ok m) ↔
        s.segmentCount < maxSegmentsPerTransaction ∧ seg.elStrip 1 ∈ supportedTransactionSets) ∧
      ∀ m, s.step batchSize seg = .ok m →
        ∃ h, handlers.lookup (seg.elStrip 1) = some h ∧ m.Within h ∧
          m.env = { s.env with st01 := seg.elStrip 1, st02 := seg.elStrip 2 } ∧
          m.allRows = s.allRows ∧ m.segmentCount = s.segmentCount + 1 ∧
          m.stSegmentCount = 1 ∧ m.seenIea = s.seenIea := by
  simp only [step_eq_ok, take, hkind, openTransaction, ← handlers_lookup]
  cases hlookup : handlers.lookup (seg.elStrip 1) with
  | none => simp
  | some h =>
    simp only [Except.ok.injEq]
    refine ⟨⟨fun ⟨_, hcap, _⟩ => ⟨hcap, h, rfl⟩, fun ⟨hcap, _⟩ => ⟨_, hcap, _, rfl, rfl⟩⟩, ?_⟩
    rintro m ⟨hcap, _, rfl, rfl⟩
    obtain ⟨benv, bhandler, bopen, bstCount, bcount, bseen, brows⟩ := batched_frame batchSize
      { s.counted with
        env := { s.counted.env with st01 := seg.elStrip 1, st02 := seg.elStrip 2 }
        stSegmentCount := 1
        stOpen := true
        handler := some h
        lastColumns := h.columns }
    exact ⟨h, rfl, ⟨bhandler, bopen, by rw [bcount]; exact hcap⟩, benv, brows, bcount, bstCount,
      bseen⟩

theorem step_se (hs : s.Within h) (hkind : seg.kind = .se) : ((∃ m, s.step batchSize seg = .ok m) ↔
        s.segmentCount < maxSegmentsPerTransaction ∧ seg.elStrip 2 = s.env.st02 ∧
          (isdigit (seg.elStrip 1) = true → pyInt (seg.elStrip 1) = some (s.stSegmentCount + 1))) ∧
      ∀ m, s.step batchSize seg = .ok m →
        m.Between ∧ m.env = s.env ∧ m.allRows = s.allRows ++ (h.flush s.env).2 ∧
          m.segmentCount = s.segmentCount + 1 ∧ m.seenIea = s.seenIea := by
  have hcounted : s.counted.flushed.stSegmentCount = s.stSegmentCount + 1 := by
    simp [counted, flushed, hs.stOpen]
  have hclose : ∀ m, s.counted.closeTransaction seg = .ok m ↔
      (seg.elStrip 2 = s.env.st02 ∧ (isdigit (seg.elStrip 1) = true →
        pyInt (seg.elStrip 1) = some (s.stSegmentCount + 1))) ∧
        m = { s.counted.flushed with stOpen := false } := by
    intro m
    have henv : s.counted.flushed.env = s.env := rfl
    simp only [closeTransaction, henv, hcounted]
    by_cases hmatch : seg.elStrip 2 = s.env.st02
    · cases hdigit : isdigit (seg.elStrip 1) with
      | false => simp [hmatch, eq_comm]
      | true =>
        cases hint : pyInt (seg.elStrip 1) with
        | none => simp [hmatch]
        | some n =>
          by_cases hn : n = s.stSegmentCount + 1
          · simp [hmatch, hn, eq_comm]
          · simp [hmatch, hn]
    · simp [hmatch]
  simp only [step_eq_ok, take, hkind, hclose]
  refine ⟨⟨fun ⟨_, hcap, _, ⟨hclosed, _⟩, _⟩ => ⟨hcap, hclosed⟩,
    fun ⟨hcap, hclosed⟩ => ⟨_, hcap, _, ⟨hclosed, rfl⟩, rfl⟩⟩, ?_⟩
  rintro m ⟨hcap, _, ⟨_, rfl⟩, rfl⟩
  obtain ⟨benv, bhandler, bopen, -, bcount, bseen, brows⟩ :=
    batched_frame batchSize { s.counted.flushed with stOpen := false }
  refine ⟨⟨bhandler, bopen, by rw [bcount]; exact hcap⟩, benv, ?_, bcount, bseen⟩
  rw [brows]
  simp [allRows, flushed, counted, hs.handler]

theorem Transaction.carries (t : Transaction) :
    Carries batchSize t.segments t.out (fun _ => t.Closed) false := by
  have hlength : t.segments.length = t.body.length + 2 := by simp [Transaction.segments]
  constructor
  · intro s hs
    obtain ⟨hopens, hopened⟩ := step_st (s := s) batchSize t.st_kind
    rw [hlength, Transaction.Closed, hlength]
    simp only [Transaction.segments, List.cons_append, reads_cons, reads_append, reads_nil]
    constructor
    · rintro ⟨s', m, hst, n, hbody, _, hse, -⟩
      obtain ⟨-, hset⟩ := hopens.mp ⟨m, hst⟩
      obtain ⟨h, -, hm, henv, -, hcount, hstCount, -⟩ := hopened m hst
      obtain ⟨hn, henv', -, hcount', hstCount', -⟩ :=
          (reads_body batchSize hm t.body_inner).2 n hbody
      obtain ⟨hcap, hmatch, hnumber⟩ := (step_se batchSize hn t.se_kind).1.mp ⟨_, hse⟩
      rw [henv', henv] at hmatch
      rw [hstCount', hstCount] at hnumber
      refine ⟨⟨hset, hmatch, fun hdigit => ?_⟩, by omega⟩
      rw [hnumber hdigit]
      congr 1
      omega
    · rintro ⟨⟨hset, hmatch, hnumber⟩, hcap⟩
      obtain ⟨m, hst⟩ := hopens.mpr ⟨by omega, hset⟩
      obtain ⟨h, -, hm, henv, -, hcount, hstCount, -⟩ := hopened m hst
      obtain ⟨hbody, hbodied⟩ := reads_body batchSize hm t.body_inner
      obtain ⟨n, hbody⟩ := hbody.mpr (by omega)
      obtain ⟨hn, henv', -, hcount', hstCount', -⟩ := hbodied n hbody
      obtain ⟨s', hse⟩ := (step_se batchSize hn t.se_kind).1.mpr ⟨by omega, by
        rw [henv', henv]
        exact hmatch, fun hdigit => by
        rw [hnumber hdigit, hstCount', hstCount]
        congr 1
        omega⟩
      exact ⟨s', m, hst, n, hbody, s', hse, rfl⟩
  · intro s s' hs hreads
    simp only [Transaction.segments, List.cons_append, reads_cons, reads_append,
      reads_nil] at hreads
    obtain ⟨m, hst, n, hbody, _, hse, rfl⟩ := hreads
    obtain ⟨h, hlookup, hm, henv, hrows, hcount, -, hseen⟩ := (step_st batchSize t.st_kind).2 m hst
    obtain ⟨hn, henv', hrows', hcount', -, hseen'⟩ :=
        (reads_body batchSize hm t.body_inner).2 n hbody
    obtain ⟨hs', henv'', hrows'', hcount'', hseen''⟩ := (step_se batchSize hn t.se_kind).2 _ hse
    rw [henv] at hrows'
    rw [henv', henv] at hrows'' henv''
    simp only [Transaction.out, hlookup]
    refine ⟨hs', henv'', ?_, by omega, ?_⟩
    · rw [hrows'', hrows', hrows, List.append_assoc]
    · rw [hseen'', hseen', hseen, Bool.or_false]

end Transactions

/-! ## Groups and interchanges -/

section Interchanges

variable (batchSize : Int)

theorem carries_ta1 (hkind : seg.kind = .ta1) :
    Carries batchSize [seg] (fun env => (env, [ta1Row env seg])) (fun _ => True) false := by
  have htake : ∀ s m : Decoder, s.handler = none →
      (s.take seg = .ok m ↔ True ∧ m = s.acknowledge seg) := by
    intro s m _
    simp [take, hkind, eq_comm]
  apply Carries.single htake
  intro s
  obtain ⟨ahandler, aopen, aenv, arows, acount, -, aseen⟩ := acknowledge_frame s seg
  exact ⟨ahandler, aopen, acount, aenv, arows, by rw [aseen, Bool.or_false]⟩

theorem Piece.carries (p : Piece) :
    Carries batchSize p.segments p.out (fun _ => p.Closed) false := by
  cases p with
  | transaction t => exact t.carries batchSize
  | acknowledgment s kind => exact carries_ta1 batchSize kind

theorem carries_gs (hkind : seg.kind = .gs) :
    Carries batchSize [seg] (fun env => ({ env with gs06 := seg.elStrip 6 }, [])) (fun _ => True)
      false := by
  have htake : ∀ s m : Decoder, s.handler = none →
      (s.take seg = .ok m ↔ True ∧ m = { s with env := { s.env with gs06 := seg.elStrip 6 } }) := by
    intro s m _
    simp [take, hkind, eq_comm]
  apply Carries.single htake
  intro s
  simp [allRows]

theorem carries_ge (hkind : seg.kind = .ge) :
    Carries batchSize [seg] (fun env => (env, [])) (fun env => seg.elStrip 2 = env.gs06)
      false := by
  have htake : ∀ s m : Decoder, s.handler = none →
      (s.take seg = .ok m ↔ seg.elStrip 2 = s.env.gs06 ∧ m = id s) := by
    intro s m _
    by_cases hmatch : seg.elStrip 2 = s.env.gs06
    · simp [take, hkind, closeGroup, hmatch, eq_comm]
    · simp [take, hkind, closeGroup, hmatch]
  apply Carries.single htake
  intro s
  simp

theorem Group.carries (g : Group) :
    Carries batchSize g.segments g.out (fun _ => g.Closed) false := by
  have hpieces : Carries batchSize (g.pieces.flatMap Piece.segments)
      (fun env => X12.collect Piece.out env g.pieces) (fun _ => ∀ p ∈ g.pieces, p.Closed)
      (false && !g.pieces.isEmpty) := Carries.collect fun p _ => p.carries batchSize
  refine (((carries_gs batchSize g.gs_kind).append hpieces).append
    (carries_ge batchSize g.ge_kind)).congr ?_ ?_
  · intro env
    simp [Group.out]
  · intro env
    have hkept : ∀ p ∈ g.pieces, ∀ env : Envelope, (p.out env).1.gs06 = env.gs06 := by
      intro p _ env
      cases p with
      | acknowledgment s kind => rfl
      | transaction t =>
        simp only [Piece.out, Transaction.out]
        split <;> rfl
    have hgs06 := collect_env hkept { env with gs06 := g.gs.elStrip 6 }
    simp only [hgs06, Group.Closed, true_and]
    exact and_comm

theorem Part.carries (p : Part) : Carries batchSize p.segments p.out (fun _ => p.Closed) false := by
  cases p with
  | group g => exact g.carries batchSize
  | piece p => exact p.carries batchSize

theorem carries_isa (hkind : seg.kind = .isa) : Carries batchSize [seg]
      (fun env =>
        ({ env with
            isa06 := seg.elStrip 6, isa08 := seg.elStrip 8, isa13 := seg.elStrip 13 }, []))
      (fun _ => True) false := by
  have htake : ∀ s m : Decoder, s.handler = none →
      (s.take seg = .ok m ↔ True ∧ m = s.openInterchange seg) := by
    intro s m _
    simp [take, hkind, eq_comm]
  apply Carries.single htake
  intro s
  simp [openInterchange, allRows]

theorem carries_iea (hkind : seg.kind = .iea) :
    Carries batchSize [seg] (fun env => (env, [])) (fun env => seg.elStrip 2 = env.isa13)
      true := by
  have htake : ∀ s m : Decoder, s.handler = none →
      (s.take seg = .ok m ↔ seg.elStrip 2 = s.env.isa13 ∧ m = { s with seenIea := true }) := by
    intro s m _
    by_cases hmatch : seg.elStrip 2 = s.env.isa13
    · simp [take, hkind, closeInterchange, hmatch, eq_comm]
    · simp [take, hkind, closeInterchange, hmatch]
  apply Carries.single htake
  intro s
  simp [allRows]

theorem Interchange.carries (i : Interchange) :
    Carries batchSize i.segments i.out (fun _ => i.Closed) true := by
  have hparts : Carries batchSize (i.parts.flatMap Part.segments)
      (fun env => X12.collect Part.out env i.parts) (fun _ => ∀ p ∈ i.parts, p.Closed)
      (false && !i.parts.isEmpty) := Carries.collect fun p _ => p.carries batchSize
  refine (((carries_isa batchSize i.isa_kind).append hparts).append
    (carries_iea batchSize i.iea_kind)).congr ?_ ?_
  · intro env
    simp [Interchange.out]
  · intro env
    have hpiece : ∀ (p : Piece) (env : Envelope), (p.out env).1.isa13 = env.isa13 := by
      intro p env
      cases p with
      | acknowledgment s kind => rfl
      | transaction t =>
        simp only [Piece.out, Transaction.out]
        split <;> rfl
    have hkept : ∀ p ∈ i.parts, ∀ env : Envelope, (p.out env).1.isa13 = env.isa13 := by
      intro p _ env
      cases p with
      | piece p => exact hpiece p env
      | group g =>
        exact collect_env (g := Envelope.isa13) (fun p _ => hpiece p)
          { env with gs06 := g.gs.elStrip 6 }
    have hisa13 := collect_env hkept
      { env with
        isa06 := i.isa.elStrip 6, isa08 := i.isa.elStrip 8, isa13 := i.isa.elStrip 13 }
    simp only [hisa13, Interchange.Closed, true_and]
    exact and_comm

end Interchanges

/-! ## Streams -/

/-- A stream whose envelopes nest is accepted, when the tokenizer accepts it and there are
not too many segments, exactly when all of them are closed; then its rows are those of
its transactions and of its TA1 segments, in order. -/
theorem decode_interchanges {b : Int} {chunks : List Bytes} {is : List Interchange}
    (hnest : (segments chunks).1 = is.flatMap Interchange.segments) :
    ((decodeX12 b chunks).outcome = .ok () ↔
        (segments chunks).2 = .ok () ∧ is ≠ [] ∧ (∀ i ∈ is, i.Closed) ∧
          (segments chunks).1.length ≤ maxSegmentsPerTransaction) ∧
      ((decodeX12 b chunks).outcome = .ok () → (decodeX12 b chunks).rows = rowsOf is) := by
  have hcarries : Carries b (segments chunks).1
      (fun env => X12.collect Interchange.out env is) (fun _ => ∀ i ∈ is, i.Closed)
      (true && !is.isEmpty) := by
    rw [hnest]
    exact Carries.collect fun i _ => i.carries b
  have hstart : ({} : Decoder).Between := ⟨rfl, rfl, Nat.zero_le _⟩
  have haccepts := hcarries.accepts {} hstart
  rw [Nat.zero_add] at haccepts
  constructor
  · rw [decodeX12_ok]
    constructor
    · rintro ⟨htokens, s, hreads, -, hiea⟩
      obtain ⟨hclosed, hcap⟩ := haccepts.mp ⟨s, hreads⟩
      obtain ⟨-, -, -, -, hseen⟩ := hcarries.leads _ s hstart hreads
      rw [hiea] at hseen
      refine ⟨htokens, ?_, hclosed, hcap⟩
      rintro rfl
      simp at hseen
    · rintro ⟨htokens, hne, hclosed, hcap⟩
      obtain ⟨s, hreads⟩ := haccepts.mpr ⟨hclosed, hcap⟩
      obtain ⟨hs, -, -, -, hseen⟩ := hcarries.leads _ s hstart hreads
      refine ⟨htokens, s, hreads, hs.stOpen, ?_⟩
      rw [hseen]
      simpa using hne
  · intro hok
    obtain ⟨htokens, s, hreads, hopen, hiea⟩ := decodeX12_ok.mp hok
    obtain ⟨-, -, hrows, -⟩ := hcarries.leads _ s hstart hreads
    rw [decodeX12_rows htokens hreads hopen hiea, hrows]
    rfl

/-! ## The order of the segments -/

/-- Where in an interchange a segment comes; a transaction, also whether in a group. -/
inductive Level where
  | outside
  | interchange
  | group
  | transaction (grouped : Bool)
  deriving DecidableEq

/-- Where a segment leads to; `none` where it does not belong. -/
def Level.next : Level → Kind → Option Level
  | .outside, .isa => some .interchange
  | .interchange, .gs => some .group
  | .interchange, .st => some (.transaction false)
  | .interchange, .ta1 => some .interchange
  | .interchange, .iea => some .outside
  | .group, .st => some (.transaction true)
  | .group, .ta1 => some .group
  | .group, .ge => some .interchange
  | .transaction g, .ta1 => some (.transaction g)
  | .transaction g, .data => some (.transaction g)
  | .transaction g, .se => some (if g then .group else .interchange)
  | _, _ => none

/-- Where the segments lead to, if each of them belongs. -/
def Level.through : Level → List Segment → Option Level
  | l, [] => some l
  | l, s :: segs => (l.next s.kind).bind fun l => l.through segs

/-- Each segment belongs where it comes, and the last ends its interchange. -/
def InTurn (segs : List Segment) : Prop := Level.outside.through segs = some .outside

instance (segs : List Segment) : Decidable (InTurn segs) :=
  inferInstanceAs (Decidable (_ = _))

namespace Level

/-- What is left of an interchange, and the interchanges behind it. -/
def EndsInterchange (segs : List Segment) : Prop :=
  ∃ (parts : List Part) (iea : Segment) (is : List Interchange), iea.kind = .iea ∧
    segs = parts.flatMap Part.segments ++ iea :: is.flatMap Interchange.segments

/-- What is left of a group, and of its interchange. -/
def EndsGroup (segs : List Segment) : Prop :=
  ∃ (pieces : List Piece) (ge : Segment) (more : List Segment), ge.kind = .ge ∧
    segs = pieces.flatMap Piece.segments ++ ge :: more ∧ EndsInterchange more

/-- What is left at a level. -/
def Ends : Level → List Segment → Prop
  | .outside, segs => ∃ is : List Interchange, segs = is.flatMap Interchange.segments
  | .interchange, segs => EndsInterchange segs
  | .group, segs => EndsGroup segs
  | .transaction g, segs => ∃ (body : List Segment) (se : Segment) (more : List Segment),
      (∀ s ∈ body, s.kind.inner = true) ∧ se.kind = .se ∧ segs = body ++ se :: more ∧
        if g then EndsGroup more else EndsInterchange more

theorem Ends.transaction {g : Bool} {st : Segment} {segs : List Segment} (hst : st.kind = .st)
    (h : Ends (.transaction g) segs) :
    if g then EndsGroup (st :: segs) else EndsInterchange (st :: segs) := by
  obtain ⟨body, se, more, hbody, hse, rfl, hmore⟩ := h
  let t : Transaction := ⟨st, body, se, hst, hbody, hse⟩
  cases g with
  | false =>
    obtain ⟨parts, iea, is, hiea, rfl⟩ := hmore
    exact ⟨.piece (.transaction t) :: parts, iea, is, hiea, by
      simp [t, Part.segments, Piece.segments, Transaction.segments]⟩
  | true =>
    obtain ⟨pieces, ge, rest, hge, rfl, hrest⟩ := hmore
    exact ⟨.transaction t :: pieces, ge, rest, hge, by
      simp [t, Piece.segments, Transaction.segments], hrest⟩

theorem Ends.cons {l l' : Level} {s : Segment} {segs : List Segment}
    (hnext : l.next s.kind = some l') (h : l'.Ends segs) : l.Ends (s :: segs) := by
  unfold next at hnext
  split at hnext <;> cases hnext
  next hkind =>
    obtain ⟨parts, iea, is, hiea, rfl⟩ := h
    exact ⟨⟨s, parts, iea, hkind, hiea⟩ :: is, by simp [Interchange.segments]⟩
  next hkind =>
    obtain ⟨pieces, ge, more, hge, rfl, parts, iea, is, hiea, rfl⟩ := h
    exact ⟨.group ⟨s, pieces, ge, hkind, hge⟩ :: parts, iea, is, hiea, by
      simp [Part.segments, Group.segments]⟩
  next hkind => exact h.transaction hkind
  next hkind =>
    obtain ⟨parts, iea, is, hiea, rfl⟩ := h
    exact ⟨.piece (.acknowledgment s hkind) :: parts, iea, is, hiea, rfl⟩
  next hkind =>
    obtain ⟨is, rfl⟩ := h
    exact ⟨[], s, is, hkind, rfl⟩
  next hkind => exact h.transaction hkind
  next hkind =>
    obtain ⟨pieces, ge, more, hge, rfl, hmore⟩ := h
    exact ⟨.acknowledgment s hkind :: pieces, ge, more, hge, rfl, hmore⟩
  next hkind => exact ⟨[], s, segs, hkind, rfl, h⟩
  next g hkind =>
    obtain ⟨body, se, more, hbody, hse, rfl, hmore⟩ := h
    exact ⟨s :: body, se, more,
      List.forall_mem_cons.mpr ⟨by rw [hkind]; rfl, hbody⟩, hse, rfl, hmore⟩
  next g hkind =>
    obtain ⟨body, se, more, hbody, hse, rfl, hmore⟩ := h
    exact ⟨s :: body, se, more,
      List.forall_mem_cons.mpr ⟨by rw [hkind]; rfl, hbody⟩, hse, rfl, hmore⟩
  next g hkind =>
    refine ⟨[], s, segs, by simp, hkind, rfl, ?_⟩
    cases g <;> exact h

theorem ends_of_through {l : Level} {segs : List Segment}
    (h : l.through segs = some .outside) : l.Ends segs := by
  induction segs generalizing l with
  | nil =>
    cases h
    exact ⟨[], rfl⟩
  | cons s segs ih =>
    obtain ⟨l', hnext, hmore⟩ := Option.bind_eq_some_iff.mp h
    exact Ends.cons hnext (ih hmore)

theorem through_append (l : Level) (segs more : List Segment) :
    l.through (segs ++ more) = (l.through segs).bind fun l => l.through more := by
  induction segs generalizing l with
  | nil => rfl
  | cons s segs ih =>
    rw [List.cons_append, through, through, Option.bind_assoc]
    exact congrArg _ (funext fun l => ih l)

theorem through_flatMap {α : Type} {l : Level} {segsOf : α → List Segment}
    (h : ∀ a, l.through (segsOf a) = some l) (as : List α) :
    l.through (as.flatMap segsOf) = some l := by
  induction as with
  | nil => rfl
  | cons a as ih => rw [List.flatMap_cons, through_append, h, Option.bind_some, ih]

theorem through_transaction (t : Transaction) (l : Level) (g : Bool)
    (hopen : l.next .st = some (.transaction g)) (hclose : (transaction g).next .se = some l) :
    l.through t.segments = some l := by
  have hbody : ∀ body : List Segment, (∀ s ∈ body, s.kind.inner = true) →
      (transaction g).through body = some (.transaction g) := by
    intro body hinner
    induction body with
    | nil => rfl
    | cons s body ih =>
      obtain ⟨hs, hmore⟩ := List.forall_mem_cons.mp hinner
      obtain hkind | hkind := Kind.inner_cases hs
      all_goals rw [through, hkind]; exact ih hmore
  rw [Transaction.segments, List.cons_append, through, t.st_kind, hopen, Option.bind_some,
    through_append, hbody _ t.body_inner, Option.bind_some, through, t.se_kind, hclose]
  rfl

theorem through_piece (p : Piece) {l : Level} (h : l = .interchange ∨ l = .group) :
    l.through p.segments = some l := by
  cases p with
  | transaction t =>
    obtain rfl | rfl := h
    · exact through_transaction t _ false rfl rfl
    · exact through_transaction t _ true rfl rfl
  | acknowledgment s kind =>
    rw [Piece.segments, through, kind]
    obtain rfl | rfl := h <;> rfl

theorem through_part (p : Part) : interchange.through p.segments = some .interchange := by
  cases p with
  | piece p => exact through_piece p (.inl rfl)
  | group g =>
    rw [Part.segments, Group.segments, List.cons_append, through, g.gs_kind, next,
      Option.bind_some, through_append, through_flatMap fun p => through_piece p (.inr rfl),
      Option.bind_some, through, g.ge_kind]
    rfl

end Level

theorem inTurn_iff {segs : List Segment} :
    InTurn segs ↔ ∃ is : List Interchange, segs = is.flatMap Interchange.segments := by
  refine ⟨Level.ends_of_through, ?_⟩
  rintro ⟨is, rfl⟩
  refine Level.through_flatMap (fun i => ?_) is
  rw [Interchange.segments, List.cons_append, Level.through, i.isa_kind, Level.next,
    Option.bind_some, Level.through_append, Level.through_flatMap Level.through_part,
    Option.bind_some, Level.through, i.iea_kind]
  rfl

/-- The stream is whole interchanges: each IEA has the number of its ISA, each GE that of
its GS, each SE that of its ST and, when its count is a number, the count of the segments
from ST to SE; and the rows are those of the transactions and one for each TA1, in order. -/
def Complete (b : Int) (chunks : List Bytes) : Prop :=
  ∃ is : List Interchange, is ≠ [] ∧ (segments chunks).1 = is.flatMap Interchange.segments ∧
    (∀ i ∈ is, i.Closed) ∧ (decodeX12 b chunks).rows = rowsOf is

/-- A stream that is accepted is complete just when its segments come in turn. -/
theorem accepted_complete_iff {b : Int} {chunks : List Bytes}
    (hok : (decodeX12 b chunks).outcome = .ok ()) :
    Complete b chunks ↔ InTurn (segments chunks).1 := by
  rw [inTurn_iff]
  refine ⟨fun ⟨is, _, hnest, _⟩ => ⟨is, hnest⟩, fun ⟨is, hnest⟩ => ?_⟩
  obtain ⟨haccepts, hrows⟩ := decode_interchanges (b := b) hnest
  obtain ⟨-, hne, hclosed, -⟩ := haccepts.mp hok
  exact ⟨is, hne, hnest, hclosed, hrows hok⟩

/-! ## Streams to look at -/

/-- A header with the control number 1. -/
def sampleHeader : Bytes :=
  bytes "ISA*00*          *00*          *ZZ*S              *ZZ*R              *" ++
    bytes "000101*0000*^*00501*000000001*0*P*:"

/-- A sample with these segments behind the header. -/
def sampleStream (raws : List String) : Bytes :=
  (sampleHeader :: raws.map bytes).flatMap fun raw => raw ++ [126]

/-- One claim, and an acknowledgment in front of its group. -/
def groupedStream : Bytes :=
  sampleStream
    ["TA1*000000007*000101*0000*A*000", "GS*HC*S*R*20000101*0000*5*X*005010X222A1",
      "ST*837*0001", "CLM*A*100***11:B:1", "SE*3*0001", "GE*1*5", "IEA*1*000000001"]

theorem grouped_complete : Complete 1 [groupedStream] := by
  have hok : (decodeX12 1 [groupedStream]).outcome = .ok () := by decide +kernel
  have hturn : InTurn (segments [groupedStream]).1 := by decide +kernel
  exact (accepted_complete_iff hok).mpr hturn

/-- An interchange that is cut behind its claim, and a whole one. -/
def splicedStream : Bytes :=
  sampleStream ["GS*HC*S*R*20000101*0000*5*X*005010X222A1", "ST*837*0001", "CLM*A*100***11:B:1"] ++
    sampleStream
      ["GS*HC*S*R*20000101*0000*6*X*005010X222A1", "ST*837*0002", "CLM*B*200***11:B:1",
        "SE*3*0002", "GE*1*6", "IEA*1*000000001"]

/-- It is accepted with one row, and the first of its two claims is lost. -/
theorem spliced_not_complete : (decodeX12 1 [splicedStream]).outcome = .ok () ∧
      (decodeX12 1 [splicedStream]).rows.length = 1 ∧
      ((segments [splicedStream]).1.filter fun s => s.elStrip 0 = bytes "CLM").map
        (fun s => s.elStrip 1) = [bytes "A", bytes "B"] ∧
      ¬ Complete 1 [splicedStream] := by
  refine ⟨by decide +kernel, by decide +kernel, by decide +kernel, fun ⟨is, _, hnest, _⟩ => ?_⟩
  have hturn : ¬ InTurn (segments [splicedStream]).1 := by decide +kernel
  exact hturn (inTurn_iff.mpr ⟨is, hnest⟩)

end Windrose.X12

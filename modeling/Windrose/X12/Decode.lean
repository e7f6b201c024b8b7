/-
  X12/Decode.lean --- `decode_x12`.

  Source: services/ingestion-service/app/domain/x12.py (decode_x12).

  The envelope is a few fields that each segment may overwrite.  A segment either fails
  or moves the decoder on; what has been yielded before a failure stays yielded, so a run
  gives the batches together with how it ended.
-/
import Windrose.X12.Tokens
import Windrose.X12.Handlers

set_option autoImplicit false

namespace Windrose.X12

open Windrose.Foundation

/-- The variables of the loop; `out` is what has been yielded. -/
structure Decoder where
  env : Envelope := {}
  /-- `env.st_segment_count` -/
  stSegmentCount : Nat := 0
  handler : Option Handler := none
  rows : List Row := []
  lastColumns : List Bytes := ClaimHandler.columns
  seenIea : Bool := false
  segmentCount : Nat := 0
  stOpen : Bool := false
  rowsOk : Nat := 0
  out : List RowBatch := []
  deriving DecidableEq

namespace Decoder

/-- The rows so far, yielded or not. -/
def allRows (s : Decoder) : List Row := s.out.flatMap RowBatch.rows ++ s.rows

/-- What counts each segment. -/
def counted (s : Decoder) : Decoder :=
  { s with
    segmentCount := s.segmentCount + 1
    stSegmentCount := if s.stOpen then s.stSegmentCount + 1 else s.stSegmentCount }

/-- `yield RowBatch(columns=list(last_columns), rows=rows)`. -/
def yieldRows (s : Decoder) : Decoder :=
  { s with
    rowsOk := s.rowsOk + s.rows.length
    out := s.out ++ [{ columns := s.lastColumns, rows := s.rows }]
    rows := [] }

/-- A batch that is full. -/
def batched (batchSize : Int) (s : Decoder) : Decoder :=
  if batchSize ≤ s.rows.length then s.yieldRows else s

/-- The rows that are left. -/
def rest (s : Decoder) : Decoder := if s.rows = [] then s else s.yieldRows

/-- An ISA segment. -/
def openInterchange (s : Decoder) (seg : Segment) : Decoder :=
  { s with
    env := { s.env with isa06 := seg.elStrip 6, isa08 := seg.elStrip 8, isa13 := seg.elStrip 13 } }

/-- An ST segment. -/
def openTransaction (s : Decoder) (seg : Segment) : Except DecodeError Decoder :=
  let st01 := seg.elStrip 1
  match handlers.lookup st01 with
  | none => .error (.unsupportedSet st01 (knownTransactionSets.contains st01))
  | some h => .ok
      { s with
        env := { s.env with st01, st02 := seg.elStrip 2 }
        stSegmentCount := 1
        stOpen := true
        handler := some h
        lastColumns := h.columns }

/-- The last rows of a transaction. -/
def flushed (s : Decoder) : Decoder :=
  { s with
    rows := s.rows ++ (s.handler.map fun h => (h.flush s.env).2).getD []
    handler := none }

/-- An SE segment. -/
def closeTransaction (s : Decoder) (seg : Segment) : Except DecodeError Decoder :=
  let s := s.flushed
  let se01 := seg.elStrip 1
  let se02 := seg.elStrip 2
  if se02 ≠ s.env.st02 then .error (.transactionMismatch se02 s.env.st02)
  else if ¬ isdigit se01 then .ok { s with stOpen := false }
  else
    match pyInt se01 with
    | none => .error (.notAnInt se01)
    | some n =>
      if n ≠ s.stSegmentCount then .error (.countMismatch se01 s.stSegmentCount)
      else .ok { s with stOpen := false }

/-- A GE segment. -/
def closeGroup (s : Decoder) (seg : Segment) : Except DecodeError Decoder :=
  let ge02 := seg.elStrip 2
  if ge02 ≠ s.env.gs06 then .error (.groupMismatch ge02 s.env.gs06) else .ok s

/-- An IEA segment. -/
def closeInterchange (s : Decoder) (seg : Segment) : Except DecodeError Decoder :=
  let iea02 := seg.elStrip 2
  if iea02 ≠ s.env.isa13 then .error (.interchangeMismatch iea02 s.env.isa13)
  else .ok { s with seenIea := true }

/-- A TA1 segment: its row is a batch. -/
def acknowledge (s : Decoder) (seg : Segment) : Decoder :=
  let s := s.rest
  { s with
    lastColumns := ta1Columns
    rowsOk := s.rowsOk + 1
    out := s.out ++ [{ columns := ta1Columns, rows := [ta1Row s.env seg] }] }

/-- Any other segment. -/
def fed (s : Decoder) (seg : Segment) : Decoder :=
  match s.handler with
  | none => s
  | some h =>
    let fed := h.feed s.env seg
    { s with handler := some fed.1, rows := s.rows ++ fed.2 }

/-- The chain of comparisons. -/
def take (s : Decoder) (seg : Segment) : Except DecodeError Decoder :=
  match seg.kind with
  | .isa => .ok (s.openInterchange seg)
  | .gs => .ok { s with env := { s.env with gs06 := seg.elStrip 6 } }
  | .st => s.openTransaction seg
  | .se => s.closeTransaction seg
  | .ge => s.closeGroup seg
  | .iea => s.closeInterchange seg
  | .ta1 => .ok (s.acknowledge seg)
  | .data => .ok (s.fed seg)

/-- One segment. -/
def step (batchSize : Int) (s : Decoder) (seg : Segment) : Except DecodeError Decoder :=
  if maxSegmentsPerTransaction < s.segmentCount + 1 then .error .tooManySegments
  else (s.counted.take seg).map (batched batchSize)

/-- The segments, up to the first that fails. -/
def run (batchSize : Int) : Decoder → List Segment → Decoder × Except DecodeError Unit
  | s, [] => (s, .ok ())
  | s, seg :: segs =>
    match s.step batchSize seg with
    | .error e => (s, .error e)
    | .ok s => run batchSize s segs

/-- After the last segment. -/
def finish (s : Decoder) : Except DecodeError Decoder :=
  if s.stOpen then .error .transactionOpen
  else if ¬ s.seenIea then .error .truncated
  else .ok s.rest

end Decoder

/-! ## Runs -/

namespace Decoder

variable {batchSize : Int} {s s' : Decoder} {seg : Segment} {segs : List Segment}

@[simp] theorem yieldRows_allRows (s : Decoder) : s.yieldRows.allRows = s.allRows := by
  simp [yieldRows, allRows]

@[simp] theorem rest_allRows (s : Decoder) : s.rest.allRows = s.allRows := by
  unfold rest
  split
  · rfl
  · exact yieldRows_allRows s

theorem batched_frame (batchSize : Int) (s : Decoder) :
    (s.batched batchSize).env = s.env ∧ (s.batched batchSize).handler = s.handler ∧
      (s.batched batchSize).stOpen = s.stOpen ∧
      (s.batched batchSize).stSegmentCount = s.stSegmentCount ∧
      (s.batched batchSize).segmentCount = s.segmentCount ∧
      (s.batched batchSize).seenIea = s.seenIea ∧
      (s.batched batchSize).allRows = s.allRows := by
  unfold batched
  split
  · exact ⟨rfl, rfl, rfl, rfl, rfl, rfl, yieldRows_allRows s⟩
  · exact ⟨rfl, rfl, rfl, rfl, rfl, rfl, rfl⟩

theorem step_eq_ok : s.step batchSize seg = .ok s' ↔
      s.segmentCount < maxSegmentsPerTransaction ∧
        ∃ m, s.counted.take seg = .ok m ∧ s' = m.batched batchSize := by
  unfold step
  split
  · rename_i hcap
    simp [Nat.not_lt.mpr (Nat.lt_succ_iff.mp hcap)]
  · rename_i hcap
    rw [and_iff_right (by omega)]
    cases htake : s.counted.take seg with
    | error e => simp [Except.map]
    | ok m => simp [Except.map, eq_comm]

/-- The segments are taken without a failure. -/
def Reads (batchSize : Int) (s : Decoder) (segs : List Segment) (s' : Decoder) : Prop :=
  s.run batchSize segs = (s', .ok ())

theorem reads_nil : Reads batchSize s [] s' ↔ s' = s := by simp [Reads, run, eq_comm]

theorem reads_cons : Reads batchSize s (seg :: segs) s' ↔
      ∃ m, s.step batchSize seg = .ok m ∧ Reads batchSize m segs s' := by
  cases hstep : s.step batchSize seg with
  | error e => simp [Reads, run, hstep]
  | ok m => simp [Reads, run, hstep]

theorem reads_append {more : List Segment} : Reads batchSize s (segs ++ more) s' ↔
      ∃ m, Reads batchSize s segs m ∧ Reads batchSize m more s' := by
  induction segs generalizing s with
  | nil => simp [reads_nil]
  | cons seg segs ih =>
    simp only [List.cons_append, reads_cons, ih]
    constructor
    · rintro ⟨m, hstep, m', hsegs, hmore⟩
      exact ⟨m', ⟨m, hstep, hsegs⟩, hmore⟩
    · rintro ⟨m', ⟨m, hstep, hsegs⟩, hmore⟩
      exact ⟨m, hstep, m', hsegs, hmore⟩

end Decoder

/-- What `decode_x12` has yielded, the rows it has counted, and how it ended. -/
structure Decoded where
  batches : List RowBatch
  rowsOk : Nat
  outcome : Except DecodeError Unit
  deriving DecidableEq

/-- The rows of all batches. -/
def Decoded.rows (d : Decoded) : List Row := d.batches.flatMap RowBatch.rows

/-- `decode_x12`. -/
def decodeX12 (batchSize : Int) (chunks : List Bytes) : Decoded :=
  let tokens := segments chunks
  let r := ({} : Decoder).run batchSize tokens.1
  let s := r.1
  match r.2, tokens.2 with
  | .error e, _ => { batches := s.out, rowsOk := s.rowsOk, outcome := .error e }
  | .ok (), .error e => { batches := s.out, rowsOk := s.rowsOk, outcome := .error e }
  | .ok (), .ok () =>
    match s.finish with
    | .error e => { batches := s.out, rowsOk := s.rowsOk, outcome := .error e }
    | .ok s => { batches := s.out, rowsOk := s.rowsOk, outcome := .ok () }

/-- A stream is accepted when the tokenizer and each segment are, no transaction is open at
the end and an IEA has been seen. -/
theorem decodeX12_ok {batchSize : Int} {chunks : List Bytes} :
    (decodeX12 batchSize chunks).outcome = .ok () ↔
      (segments chunks).2 = .ok () ∧
        ∃ s, Decoder.Reads batchSize {} (segments chunks).1 s ∧ s.stOpen = false ∧
          s.seenIea = true := by
  unfold Decoder.Reads decodeX12
  generalize segments chunks = tokens
  obtain ⟨segs, ended⟩ := tokens
  dsimp only
  generalize ({} : Decoder).run batchSize segs = r
  obtain ⟨s, outcome⟩ := r
  cases outcome with
  | error e => simp
  | ok u =>
    cases ended with
    | error e => simp
    | ok u' =>
      cases hopen : s.stOpen with
      | true => simp [Decoder.finish, hopen]
      | false =>
        cases hiea : s.seenIea with
        | false => simp [Decoder.finish, hopen, hiea]
        | true => simp [Decoder.finish, hopen, hiea]

theorem decodeX12_rows {batchSize : Int} {chunks : List Bytes} {s : Decoder}
    (htokens : (segments chunks).2 = .ok ())
    (hreads : Decoder.Reads batchSize {} (segments chunks).1 s) (hopen : s.stOpen = false)
    (hiea : s.seenIea = true) : (decodeX12 batchSize chunks).rows = s.allRows := by
  have hrest : s.rest.rows = [] := by
    unfold Decoder.rest
    split
    · assumption
    · rfl
  have hall := Decoder.rest_allRows s
  rw [Decoder.allRows, hrest, List.append_nil] at hall
  unfold Decoder.Reads at hreads
  simp only [decodeX12, hreads, htokens, Decoder.finish, hopen, hiea]
  exact hall

end Windrose.X12

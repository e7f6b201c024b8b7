/-
  X12/Chunks.lean --- what the tokenizer makes of the cuts of a stream.

  Source: services/ingestion-service/app/domain/x12.py (_segments).

  Behind the header the tokenizer is a reader of pieces, with the segment terminator
  as its separator and `MAX_SEGMENT_CHARS` as its cap.  The header waits in the buffer
  until it is complete, so a cut inside of it is never seen.
-/
import Windrose.Foundation.Chunks
import Windrose.X12.Tokens

set_option autoImplicit false

namespace Windrose.X12

open Windrose.Foundation

/-- The tokenizer behind the header. -/
def reader (d : Delimiters) : PieceReader UInt8 Segment DecodeError where
  sep := d.segment
  cap := maxSegmentChars
  tooLong := .segmentTooLong
  read piece :=
    let raw := strip isLineEnd piece
    if raw = [] then .ok []
    else
      let s := Segment.ofRaw d raw
      if maxElementsPerSegment < s.elements.length then
        .error (.tooManyElements (s.el 0) s.elements.length)
      else .ok [s]
  close tail :=
    ([], if strip (fun c => isLineEnd c || c = 32) tail = [] then .ok () else .error .trailingData)

theorem drain_reader (d : Delimiters) (pieces : List Bytes) :
    drain d pieces = (reader d).drain pieces := by
  induction pieces with
  | nil => rfl
  | cons piece pieces ih =>
    cases pieces with
    | nil => rfl
    | cons next more =>
      rw [PieceReader.drain_cons (List.cons_ne_nil next more), ← ih, drain]
      swap
      · exact List.cons_ne_nil next more
      dsimp only [reader]
      by_cases hraw : strip isLineEnd piece = []
      · rw [if_pos hraw, if_pos hraw]
        rfl
      · rw [if_neg hraw, if_neg hraw]
        by_cases hcap : maxElementsPerSegment <
            (Segment.ofRaw d (strip isLineEnd piece)).elements.length
        · rw [if_pos hcap, if_pos hcap]
        · rw [if_neg hcap, if_neg hcap]
          rfl

namespace Tokenizer

theorem run_reader (d : Delimiters) (buf : Bytes) (chunks : List Bytes) :
    run { buf, delims := some d } chunks = (reader d).run buf chunks := by
  induction chunks generalizing buf with
  | nil => rfl
  | cons chunk chunks ih =>
    rw [run, PieceReader.run]
    dsimp only [feed, drained]
    rw [drain_reader]
    have hsep : (reader d).sep = d.segment := rfl
    rw [hsep]
    generalize (reader d).drain ((buf ++ chunk).splitOn d.segment) = r
    obtain ⟨out, rest⟩ := r
    cases rest with
    | error e => rfl
    | ok rest =>
      show (out ++ (run { buf := rest, delims := some d } chunks).1, _) = _
      rw [ih rest]
      rfl

theorem run_header {buf : Bytes} {chunks : List Bytes} {d : Delimiters}
    (hbuf : buf.length < isaLen) (hisa : Delimiters.fromIsa (buf ++ chunks.flatten) = .ok d) :
    ∃ parts : List Bytes, parts.flatten = (buf ++ chunks.flatten).drop isaLen ∧
      run { buf, delims := none } chunks = Yield.after
        [Segment.ofRaw d ((buf ++ chunks.flatten).take (isaLen - 1))]
        ((reader d).run [] parts) := by
  induction chunks generalizing buf with
  | nil =>
    rw [List.flatten_nil, List.append_nil, Delimiters.fromIsa, if_pos hbuf] at hisa
    cases hisa
  | cons chunk chunks ih =>
    rw [List.flatten_cons, ← List.append_assoc] at hisa ⊢
    by_cases hshort : (buf ++ chunk).length < isaLen
    · obtain ⟨parts, hparts, hrun⟩ := ih hshort hisa
      refine ⟨parts, hparts, ?_⟩
      rw [run, feed]
      dsimp only
      rw [if_pos hshort]
      exact hrun
    · have hlen := Nat.not_lt.mp hshort
      have hfrom : Delimiters.fromIsa (buf ++ chunk) = .ok d := by
        rw [← fromIsa_append chunks.flatten hlen, hisa]
      refine ⟨(buf ++ chunk).drop isaLen :: chunks, ?_, ?_⟩
      · rw [List.flatten_cons, List.drop_append_of_le_length hlen]
      · rw [List.take_append_of_le_length (by omega), run, feed]
        dsimp only
        rw [if_neg hshort, hfrom]
        dsimp only [drained]
        rw [drain_reader, PieceReader.run, List.nil_append]
        have hsep : (reader d).sep = d.segment := rfl
        rw [hsep]
        generalize (reader d).drain (((buf ++ chunk).drop isaLen).splitOn d.segment) = r
        obtain ⟨out, rest⟩ := r
        cases rest with
        | error e => rfl
        | ok rest =>
          show (_ :: out ++ (run { buf := rest, delims := some d } chunks).1, _) = _
          rw [run_reader]
          rfl

theorem feed_header {header : Bytes} {d : Delimiters} (hlen : header.length = isaLen)
    (hisa : Delimiters.fromIsa header = .ok d) : init.feed header =
      ([Segment.ofRaw d (header.take (isaLen - 1))], .ok { buf := [], delims := some d }) := by
  have hshort : ¬ header.length < isaLen := hlen ▸ Nat.lt_irrefl _
  have hrest : header.drop isaLen = [] := List.drop_eq_nil_of_le hlen.le
  simp only [feed, init, List.nil_append, if_neg hshort, hisa, drained, hrest, List.splitOn_nil]
  rfl

theorem run_headless {buf : Bytes} {chunks : List Bytes} {e : DecodeError}
    (hbuf : buf.length < isaLen) (hisa : Delimiters.fromIsa (buf ++ chunks.flatten) = .error e) :
    Yield.Fails (run { buf, delims := none } chunks) := by
  induction chunks generalizing buf with
  | nil => exact ⟨rfl, rfl⟩
  | cons chunk chunks ih =>
    rw [List.flatten_cons, ← List.append_assoc] at hisa
    rw [run, feed]
    dsimp only
    by_cases hshort : (buf ++ chunk).length < isaLen
    · rw [if_pos hshort]
      exact ih hshort hisa
    · rw [fromIsa_append chunks.flatten (Nat.not_lt.mp hshort)] at hisa
      rw [if_neg hshort, hisa]
      exact ⟨rfl, rfl⟩

end Tokenizer

/-- `_segments` gives the same segments and the same outcome for every two ways to cut
`s`. -/
def CutsAlike (s : Bytes) : Prop :=
  ∀ chunks chunks' : List Bytes, chunks.flatten = s → chunks'.flatten = s →
    Yield.Same (segments chunks) (segments chunks')

/-- Behind the header, a segment over `MAX_SEGMENT_CHARS` has nothing behind it that is
read, or a segment before it is refused. -/
def Settled (s : Bytes) : Prop :=
  ∀ d, Delimiters.fromIsa s = .ok d → (reader d).Settled ((s.drop isaLen).splitOn d.segment)

theorem cutsAlike_iff {s : Bytes} : CutsAlike s ↔ Settled s := by
  cases hisa : Delimiters.fromIsa s with
  | error e =>
    refine iff_of_true (fun chunks chunks' h h' => ?_) fun d hd => ?_
    · have hnil : ([] : Bytes).length < isaLen := by decide
      have hfirst : Yield.Fails (segments chunks) :=
        Tokenizer.run_headless hnil (by rw [List.nil_append, h, hisa])
      have hsecond : Yield.Fails (segments chunks') :=
        Tokenizer.run_headless hnil (by rw [List.nil_append, h', hisa])
      exact ⟨hfirst.1.trans hsecond.1.symm, hfirst.2.trans hsecond.2.symm⟩
    · rw [hisa] at hd
      cases hd
  | ok d =>
    have hread : ∀ chunks : List Bytes, chunks.flatten = s → ∃ parts : List Bytes,
        parts.flatten = s.drop isaLen ∧ segments chunks = Yield.after
          [Segment.ofRaw d (s.take (isaLen - 1))] ((reader d).run [] parts) := by
      rintro chunks rfl
      have hnil : ([] : Bytes).length < isaLen := by decide
      exact Tokenizer.run_header hnil hisa
    have hsettled : Settled s ↔ (reader d).SameForAll (s.drop isaLen) := by
      rw [PieceReader.sameForAll_iff]
      refine ⟨fun h => h d hisa, fun h d' hd' => ?_⟩
      obtain rfl : d = d' := Except.ok.inj (hisa.symm.trans hd')
      exact h
    rw [hsettled]
    have hlen : isaLen ≤ s.length := by
      by_contra hshort
      rw [Delimiters.fromIsa, if_pos (Nat.not_le.mp hshort)] at hisa
      cases hisa
    constructor
    · intro h parts hparts
      -- the header comes in a chunk of its own
      have hwhole : ∀ parts : List Bytes, parts.flatten = s.drop isaLen →
          segments (s.take isaLen :: parts) = Yield.after
            [Segment.ofRaw d (s.take (isaLen - 1))] ((reader d).run [] parts) := by
        intro parts _
        have htake : (s.take isaLen).length = isaLen := by
          rw [List.length_take]
          omega
        have hfrom : Delimiters.fromIsa (s.take isaLen) = .ok d := by
          rw [← fromIsa_append (s.drop isaLen) htake.ge, List.take_append_drop, hisa]
        rw [segments, Tokenizer.run, Tokenizer.feed_header htake hfrom]
        dsimp only
        rw [Tokenizer.run_reader, List.take_take]
        rfl
      have hcut := h _ _ (by rw [List.flatten_cons, hparts, List.take_append_drop])
        (by rw [List.flatten_cons, List.flatten_singleton, List.take_append_drop] :
          (s.take isaLen :: [s.drop isaLen]).flatten = s)
      rw [hwhole parts hparts, hwhole [s.drop isaLen] List.flatten_singleton,
        Yield.same_after_iff, PieceReader.run_single] at hcut
      exact hcut
    · intro h chunks chunks' hchunks hchunks'
      obtain ⟨parts, hparts, hrun⟩ := hread chunks hchunks
      obtain ⟨parts', hparts', hrun'⟩ := hread chunks' hchunks'
      rw [hrun, hrun']
      exact Yield.same_after_iff.mpr ((h parts hparts).trans (h parts' hparts').symm)

end Windrose.X12

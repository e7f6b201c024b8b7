/-
  X12/Tokens.lean --- the tokenizer.

  Source: services/ingestion-service/app/domain/x12.py (_segments).

  The generator reads chunk after chunk.  What it yields before it fails is kept, since
  its reader has had it by then: the result of a chunk, and of a stream, is a list of
  segments together with how it ended.

  The loop over `find` takes the buffer piece by piece, so it is a recursion over the
  pieces; the last one has no terminator behind it and stays in the buffer.  Only there the
  length is looked at.
-/
import Windrose.X12.Domain

set_option autoImplicit false

namespace Windrose.X12

open Windrose.Foundation

/-- A raw segment with its elements. -/
def Segment.ofRaw (d : Delimiters) (raw : Bytes) : Segment :=
  { elements := raw.splitOn d.element, raw, delims := d }

/-- The inner loop, over the pieces of the buffer: the segments, and the rest. -/
def drain (d : Delimiters) : List Bytes → List Segment × Except DecodeError Bytes
  | [] => ([], .ok [])
  | [buf] => ([], if maxSegmentChars < buf.length then .error .segmentTooLong else .ok buf)
  | piece :: pieces =>
    let raw := strip isLineEnd piece
    if raw = [] then drain d pieces
    else
      let s := Segment.ofRaw d raw
      if maxElementsPerSegment < s.elements.length then
        ([], .error (.tooManyElements (s.el 0) s.elements.length))
      else (s :: (drain d pieces).1, (drain d pieces).2)

/-- `buf` and `delims`. -/
structure Tokenizer where
  buf : Bytes
  delims : Option Delimiters
  deriving DecidableEq

namespace Tokenizer

def init : Tokenizer := { buf := [], delims := none }

/-- The inner loop over a whole buffer. -/
def drained (d : Delimiters) (buf : Bytes) : List Segment × Except DecodeError Tokenizer :=
  let r := drain d (buf.splitOn d.segment)
  (r.1, r.2.map fun rest => { buf := rest, delims := some d })

/-- One chunk. -/
def feed (t : Tokenizer) (chunk : Bytes) : List Segment × Except DecodeError Tokenizer :=
  let buf := t.buf ++ chunk
  match t.delims with
  | some d => drained d buf
  | none =>
    if buf.length < isaLen then ([], .ok { buf, delims := none })
    else
      match Delimiters.fromIsa buf with
      | .error e => ([], .error e)
      | .ok d =>
        let r := drained d (buf.drop isaLen)
        (Segment.ofRaw d (buf.take (isaLen - 1)) :: r.1, r.2)

/-- After the last chunk. -/
def finish (t : Tokenizer) : Except DecodeError Unit :=
  match t.delims with
  | none => .error .endedBeforeHeader
  | some _ =>
    if strip (fun c => isLineEnd c || c = 32) t.buf = [] then .ok () else .error .trailingData

/-- The rest of a stream. -/
def run : Tokenizer → List Bytes → List Segment × Except DecodeError Unit
  | t, [] => ([], t.finish)
  | t, chunk :: chunks =>
    match t.feed chunk with
    | (out, .error e) => (out, .error e)
    | (out, .ok t) => (out ++ (run t chunks).1, (run t chunks).2)

end Tokenizer

/-- `_segments`. -/
def segments (chunks : List Bytes) : List Segment × Except DecodeError Unit :=
  Tokenizer.init.run chunks

/-! ## Streams that fit -/

/-- What a piece is without the line ends around it. -/
def Segment.ofPiece (d : Delimiters) (piece : Bytes) : Segment :=
  Segment.ofRaw d (strip isLineEnd piece)

/-- The segments of complete pieces. -/
def whole (d : Delimiters) (pieces : List Bytes) : List Segment :=
  (pieces.filter fun piece => strip isLineEnd piece ≠ []).map (Segment.ofPiece d)

theorem whole_append (d : Delimiters) (ps qs : List Bytes) :
    whole d (ps ++ qs) = whole d ps ++ whole d qs := by
  rw [whole, List.filter_append, List.map_append]
  rfl

/-- No piece is too long and none has too many elements. -/
def Fits (d : Delimiters) (pieces : List Bytes) : Prop :=
  ∀ piece ∈ pieces, piece.length ≤ maxSegmentChars ∧
    (Segment.ofPiece d piece).elements.length ≤ maxElementsPerSegment

variable {d : Delimiters} {rest s : Bytes}

theorem drain_of_fits {pieces : List Bytes}
    (hfits : Fits d pieces) (hrest : rest.length ≤ maxSegmentChars) :
    drain d (pieces ++ [rest]) = (whole d pieces, .ok rest) := by
  induction pieces with
  | nil => simp [drain, whole, Nat.not_lt.mpr hrest]
  | cons piece pieces ih =>
    have ih := ih fun p hp => hfits p (List.mem_cons_of_mem _ hp)
    obtain ⟨next, more, hmore⟩ : ∃ next more, pieces ++ [rest] = next :: more :=
      List.exists_cons_of_ne_nil (by simp)
    rw [hmore] at ih
    rw [List.cons_append, hmore, drain]
    swap
    · exact List.cons_ne_nil next more
    by_cases hraw : strip isLineEnd piece = []
    · simp [hraw, ih, whole]
    · have hcap := (hfits piece List.mem_cons_self).2
      have hcap : ¬ maxElementsPerSegment <
          (Segment.ofRaw d (strip isLineEnd piece)).elements.length := Nat.not_lt.mpr hcap
      simp [hraw, hcap, ih, whole, Segment.ofPiece]

namespace Tokenizer

/-- Where the tokenizer stands after the part `s` of a stream. -/
def after (d : Delimiters) (s : Bytes) : Tokenizer :=
  if s.length < isaLen then { buf := s, delims := none }
  else { buf := lastPiece d.segment (s.drop isaLen), delims := some d }

/-- What it has yielded by then. -/
def yielded (d : Delimiters) (s : Bytes) : List Segment :=
  if s.length < isaLen then []
  else Segment.ofRaw d (s.take (isaLen - 1)) ::
    whole d ((s.drop isaLen).splitOn d.segment).dropLast

end Tokenizer

theorem fromIsa_append (t : Bytes) (hs : isaLen ≤ s.length) :
    Delimiters.fromIsa (s ++ t) = Delimiters.fromIsa s := by
  have hlen : ¬ (s ++ t).length < isaLen := by
    rw [List.length_append]
    omega
  have hisa : bytes "ISA" <+: s ++ t ↔ bytes "ISA" <+: s := by
    have h3 : (bytes "ISA").length ≤ s.length := le_trans (by decide) hs
    exact ⟨fun h => List.prefix_of_prefix_length_le h (List.prefix_append s t) h3,
      fun h => h.trans (List.prefix_append s t)⟩
  have hget : ∀ i < isaLen, (s ++ t).getD i 0 = s.getD i 0 := by
    intro i hi
    rw [List.getD_eq_getElem?_getD, List.getD_eq_getElem?_getD,
      List.getElem?_append_left (lt_of_lt_of_le hi hs)]
  unfold Delimiters.fromIsa
  simp only [hlen, Nat.not_lt.mpr hs, hisa, if_false, hget 3 (by decide), hget 104 (by decide),
    hget 105 (by decide)]

theorem Fits.part {t : Bytes} (hfits : Fits d ((s ++ t).splitOn d.segment)) :
    Fits d (s.splitOn d.segment).dropLast ∧ (lastPiece d.segment s).length ≤ maxSegmentChars := by
  rw [splitOn_append] at hfits
  refine ⟨fun p hp => hfits p (List.mem_append_left _ hp), ?_⟩
  obtain ⟨first, more, hmore⟩ := List.exists_cons_of_ne_nil (List.splitOn_ne_nil d.segment t)
  have hpiece := (hfits (lastPiece d.segment s ++ first) (List.mem_append_right _ (by
    rw [splitOn_append_of_not_mem (not_mem_lastPiece _ _), hmore]
    exact List.mem_cons_self))).1
  rw [List.length_append] at hpiece
  omega

namespace Tokenizer

theorem drained_of_fits {buf : Bytes} (hfits : Fits d ((buf ++ rest).splitOn d.segment)) :
    drained d buf = (whole d (buf.splitOn d.segment).dropLast,
      .ok { buf := lastPiece d.segment buf, delims := some d }) := by
  obtain ⟨hwhole, hlast⟩ := hfits.part
  have hdrain := drain_of_fits hwhole hlast
  rw [dropLast_append_lastPiece] at hdrain
  unfold drained
  rw [hdrain]
  rfl

theorem feed_after {chunk : Bytes} (hisa : Delimiters.fromIsa (s ++ chunk ++ rest) = .ok d)
    (hfits : Fits d (((s ++ chunk ++ rest).drop isaLen).splitOn d.segment)) :
    ∃ out, (after d s).feed chunk = (out, .ok (after d (s ++ chunk))) ∧
      yielded d (s ++ chunk) = yielded d s ++ out := by
  by_cases hs : s.length < isaLen
  · by_cases hbuf : (s ++ chunk).length < isaLen
    · refine ⟨[], ?_, by simp only [yielded, hs, hbuf, if_true, List.nil_append]⟩
      simp only [after, feed, hs, hbuf, if_true]
    · have hfrom : Delimiters.fromIsa (s ++ chunk) = .ok d := by
        rw [← fromIsa_append rest (Nat.not_lt.mp hbuf), hisa]
      rw [List.drop_append_of_le_length (Nat.not_lt.mp hbuf)] at hfits
      refine ⟨yielded d (s ++ chunk), ?_, by simp only [yielded, hs, if_true, List.nil_append]⟩
      simp only [after, feed, yielded, hs, hbuf, if_true, if_false, hfrom, drained_of_fits hfits]
  · have hdrop : ∀ t : Bytes, (s ++ t).drop isaLen = s.drop isaLen ++ t := fun t =>
      List.drop_append_of_le_length (Nat.not_lt.mp hs)
    have hbuf : ¬ (s ++ chunk).length < isaLen := by
      rw [List.length_append]
      omega
    have htake : (s ++ chunk).take (isaLen - 1) = s.take (isaLen - 1) :=
      List.take_append_of_le_length (by omega)
    have hrest : Fits d ((lastPiece d.segment (s.drop isaLen) ++ chunk ++ rest).splitOn
        d.segment) := by
      rw [List.append_assoc, hdrop, splitOn_append, ← List.append_assoc] at hfits
      exact fun p hp => hfits p (List.mem_append_right _ hp)
    have hne := List.splitOn_ne_nil d.segment (lastPiece d.segment (s.drop isaLen) ++ chunk)
    refine ⟨whole d ((lastPiece d.segment (s.drop isaLen) ++ chunk).splitOn d.segment).dropLast,
      ?_, ?_⟩
    · simp only [after, feed, hs, hbuf, if_false, drained_of_fits hrest, hdrop,
        lastPiece_append d.segment (s.drop isaLen) chunk]
    · simp only [yielded, hs, hbuf, if_false, htake, hdrop,
        splitOn_append d.segment (s.drop isaLen) chunk, List.dropLast_append_of_ne_nil hne,
        whole_append, List.cons_append]

theorem run_after {chunks : List Bytes} (hisa : Delimiters.fromIsa (s ++ chunks.flatten) = .ok d)
    (hfits : Fits d (((s ++ chunks.flatten).drop isaLen).splitOn d.segment)) :
    ∃ out, (after d s).run chunks = (out, (after d (s ++ chunks.flatten)).finish) ∧
      yielded d (s ++ chunks.flatten) = yielded d s ++ out := by
  induction chunks generalizing s with
  | nil => exact ⟨[], by rw [List.flatten_nil, List.append_nil]; rfl, by simp⟩
  | cons chunk chunks ih =>
    rw [List.flatten_cons, ← List.append_assoc] at hisa hfits ⊢
    obtain ⟨out, hfeed, hout⟩ := feed_after hisa hfits
    obtain ⟨outs, hrun, houts⟩ := ih hisa hfits
    refine ⟨out ++ outs, ?_, by rw [houts, hout, List.append_assoc]⟩
    simp only [run, hfeed, hrun]

end Tokenizer

/-- A stream whose segments fit has the same segments however it is cut: its header, and
what is between the terminators. -/
theorem segments_of_fits {stream : Bytes} {chunks : List Bytes}
    (hisa : Delimiters.fromIsa stream = .ok d)
    (hfits : Fits d ((stream.drop isaLen).splitOn d.segment)) (hcut : chunks.flatten = stream) :
    segments chunks =
      (Segment.ofRaw d (stream.take (isaLen - 1)) ::
          whole d ((stream.drop isaLen).splitOn d.segment).dropLast,
        if strip (fun c => isLineEnd c || c = 32) (lastPiece d.segment (stream.drop isaLen)) = []
        then .ok () else .error .trailingData) := by
  have hlen : ¬ stream.length < isaLen := by
    intro h
    rw [Delimiters.fromIsa, if_pos h] at hisa
    cases hisa
  subst hcut
  obtain ⟨out, hrun, hout⟩ := Tokenizer.run_after (s := []) hisa hfits
  rw [List.nil_append] at hrun hout
  have hyield : out = Tokenizer.yielded d chunks.flatten := hout.symm
  simp only [Tokenizer.yielded, hlen, if_false] at hyield
  rw [← hyield]
  simp only [Tokenizer.after, Tokenizer.finish, hlen, if_false] at hrun
  exact hrun

end Windrose.X12

/-
  Hl7v2/Segments.lean --- the segments of an HL7 v2 stream.

  Source: services/ingestion-service/app/domain/hl7v2.py (_segments) and x12.py
  (_segments).

  The stream is read as latin-1.  The buffer is normalised once for each chunk, so a
  line feed whose carriage return came with the chunk before ends a segment of its own;
  that segment is empty and is not yielded.  What is left of the cuts is the cap: as in
  X12 it is looked at where a chunk ends.
-/
import Windrose.X12.Chunks
import Windrose.X12.Envelopes

set_option autoImplicit false

namespace Windrose.Hl7v2

open Windrose.Foundation
open Windrose.X12 (isWhite)

/-- `MAX_SEGMENT_CHARS`. -/
def maxSegmentChars : Nat := 100000

/-- "segment exceeds 100000 chars" -/
inductive DecodeError where
  | segmentTooLong
  deriving DecidableEq

/-- `replace("\r\n", "\r").replace("\n", "\r")`. -/
def normalize : Bytes → Bytes
  | [] => []
  | [c] => [if c = 10 then 13 else c]
  | c :: c' :: t =>
    if c = 13 ∧ c' = 10 then 13 :: normalize t
    else (if c = 10 then 13 else c) :: normalize (c' :: t)

/-- What is yielded for the text of a segment. -/
def yielded (piece : Bytes) : List Bytes :=
  if strip isWhite piece = [] then [] else [strip isWhite piece]

/-- The inner loop, over the pieces of the buffer: the segments, and the rest. -/
def drain : List Bytes → List Bytes × Except DecodeError Bytes
  | [] => ([], .ok [])
  | [buf] => ([], if maxSegmentChars < buf.length then .error .segmentTooLong else .ok buf)
  | piece :: pieces => (yielded piece ++ (drain pieces).1, (drain pieces).2)

/-- The rest of a stream. -/
def run : Bytes → List Bytes → List Bytes × Except DecodeError Unit
  | buf, [] => (yielded buf, .ok ())
  | buf, chunk :: chunks =>
    match drain ((normalize (buf ++ chunk)).splitOn 13) with
    | (out, .error e) => (out, .error e)
    | (out, .ok buf) => (out ++ (run buf chunks).1, (run buf chunks).2)

/-- `_segments`. -/
def segments (chunks : List Bytes) : List Bytes × Except DecodeError Unit := run [] chunks

/-! ## A reader of pieces -/

/-- A line end of either kind. -/
def lineEnd (c : UInt8) : UInt8 := if c = 10 then 13 else c

/-- The loop over a stream whose line ends are carriage returns. -/
def reader : PieceReader UInt8 Bytes DecodeError where
  sep := 13
  cap := maxSegmentChars
  tooLong := .segmentTooLong
  read piece := .ok (yielded piece)
  close tail := (yielded tail, .ok ())

theorem drain_reader (pieces : List Bytes) : drain pieces = reader.drain pieces := by
  induction pieces with
  | nil => rfl
  | cons piece pieces ih =>
    cases pieces with
    | nil => rfl
    | cons next more =>
      rw [PieceReader.drain_cons (List.cons_ne_nil next more), ← ih]
      rfl

theorem drain_nil_cons {pieces : List Bytes} (hne : pieces ≠ []) :
    reader.drain ([] :: pieces) = reader.drain pieces := by
  rw [PieceReader.drain_cons hne]
  rfl

theorem drain_normalize (a s : Bytes) (ha : 13 ∉ a) : reader.drain ((a ++ normalize s).splitOn 13) =
      reader.drain ((a ++ s.map lineEnd).splitOn 13) := by
  induction s using normalize.induct generalizing a with
  | case1 => rfl
  | case2 c => rfl
  | case3 c c' t hpair ih =>
    obtain ⟨rfl, rfl⟩ := hpair
    have hnormal : normalize (13 :: 10 :: t) = 13 :: normalize t := if_pos ⟨rfl, rfl⟩
    have hends : (13 :: 10 :: t).map lineEnd = 13 :: 13 :: t.map lineEnd := rfl
    have hrest := ih [] List.not_mem_nil
    rw [List.nil_append, List.nil_append] at hrest
    rw [hnormal, hends, List.splitOn_append_cons_self_of_not_mem ha,
      List.splitOn_append_cons_self_of_not_mem ha,
      PieceReader.drain_cons (List.splitOn_ne_nil _ _), hrest,
      PieceReader.drain_cons (List.splitOn_ne_nil _ _),
      ← List.nil_append (13 :: t.map lineEnd),
      List.splitOn_append_cons_self_of_not_mem List.not_mem_nil,
      drain_nil_cons (List.splitOn_ne_nil _ _)]
  | case4 c c' t hpair ih =>
    have hnormal : normalize (c :: c' :: t) = lineEnd c :: normalize (c' :: t) := if_neg hpair
    rw [hnormal, List.map_cons]
    by_cases hend : lineEnd c = 13
    · have hrest := ih [] List.not_mem_nil
      rw [List.nil_append, List.nil_append] at hrest
      rw [hend, List.splitOn_append_cons_self_of_not_mem ha,
        List.splitOn_append_cons_self_of_not_mem ha,
        PieceReader.drain_cons (List.splitOn_ne_nil _ _), hrest,
        PieceReader.drain_cons (List.splitOn_ne_nil _ _)]
    · have hrest := ih (a ++ [lineEnd c]) (by simp [ha, Ne.symm hend])
      rwa [List.append_assoc, List.append_assoc, List.singleton_append, List.singleton_append]
        at hrest

theorem lineEnd_ne (c : UInt8) : lineEnd c ≠ 10 := by
  unfold lineEnd
  split
  · decide
  · assumption

theorem drain_ok {s out : List UInt8} {segs : List Bytes}
    (h : reader.drain (s.splitOn 13) = (segs, .ok out)) : out = lastPiece 13 s := by
  have hlast : ∀ (pieces : List Bytes) {segs : List Bytes},
      reader.drain (pieces ++ [lastPiece 13 s]) = (segs, .ok out) → out = lastPiece 13 s := by
    intro pieces
    induction pieces with
    | nil =>
      intro segs h
      rw [List.nil_append, PieceReader.drain] at h
      split at h
      · cases h
      · exact (Except.ok.inj (Prod.mk.inj h).2).symm
    | cons piece pieces ih =>
      intro segs h
      rw [List.cons_append, PieceReader.drain_cons (by simp)] at h
      exact ih (Prod.ext rfl (Prod.mk.inj h).2)
  exact hlast (s.splitOn 13).dropLast (by rwa [dropLast_append_lastPiece])

theorem run_reader {buf : Bytes} (hbuf : buf.map lineEnd = buf) (chunks : List Bytes) :
    run buf chunks = reader.run buf (chunks.map (·.map lineEnd)) := by
  induction chunks generalizing buf with
  | nil => rfl
  | cons chunk chunks ih =>
    have hdrain := drain_normalize [] (buf ++ chunk) List.not_mem_nil
    rw [List.nil_append, List.nil_append, List.map_append, hbuf] at hdrain
    rw [run, drain_reader, hdrain, List.map_cons, PieceReader.run]
    have hsep : reader.sep = 13 := rfl
    rw [hsep]
    cases hr : reader.drain ((buf ++ chunk.map lineEnd).splitOn 13) with
    | mk out rest =>
      cases rest with
      | error e => rfl
      | ok rest =>
        have hrest : rest.map lineEnd = rest := by
          rw [← hbuf, ← List.map_append] at hr
          refine (List.map_congr_left fun c hc => ?_).trans rest.map_id
          rw [drain_ok hr] at hc
          obtain ⟨x, -, rfl⟩ := List.mem_map.mp (mem_of_mem_lastPiece hc)
          exact if_neg (lineEnd_ne x)
        show (out ++ (run rest chunks).1, _) = _
        rw [ih hrest]
        rfl

/-- `_segments` gives the same segments and the same outcome for every two ways to cut
`s`. -/
def CutsAlike (s : Bytes) : Prop :=
  ∀ chunks chunks' : List Bytes, chunks.flatten = s → chunks'.flatten = s →
    Yield.Same (segments chunks) (segments chunks')

/-- A segment over `MAX_SEGMENT_CHARS` has nothing behind it that is read. -/
def Settled (s : Bytes) : Prop := reader.Settled ((s.map lineEnd).splitOn 13)

theorem cutsAlike_iff {s : Bytes} : CutsAlike s ↔ Settled s := by
  have hread : ∀ chunks : List Bytes,
      segments chunks = reader.run [] (chunks.map (·.map lineEnd)) := run_reader rfl
  rw [Settled, show (13 : UInt8) = reader.sep from rfl, ← PieceReader.sameForAll_iff]
  constructor
  · intro h parts hparts
    obtain ⟨chunks, hchunks, rfl⟩ := exists_of_flatten_eq_map hparts
    have hcut := h chunks [s] hchunks List.flatten_singleton
    rw [hread, hread, List.map_singleton, PieceReader.run_single] at hcut
    exact hcut
  · intro h chunks chunks' hchunks hchunks'
    have hflat : ∀ cs : List Bytes, (cs.map (·.map lineEnd)).flatten = cs.flatten.map lineEnd :=
      fun cs => List.map_flatten.symm
    rw [hread, hread]
    exact (h _ (by rw [hflat, hchunks])).trans (h _ (by rw [hflat, hchunks'])).symm

/-! ## Both formats -/

/-- A stream gives the same segments and the same outcome for every two ways to cut it
exactly when each segment over the cap is settled. -/
theorem segments_cut_iff (s : Bytes) :
    (X12.CutsAlike s ↔ X12.Settled s) ∧ (CutsAlike s ↔ Settled s) :=
  ⟨X12.cutsAlike_iff, cutsAlike_iff⟩

/-- A text of one letter; no proof looks inside of it. -/
@[irreducible] def manyLetters : Bytes := List.replicate 100001 65

theorem eq_of_mem_manyLetters {c : UInt8} (h : c ∈ manyLetters) : c = 65 := by
  rw [manyLetters] at h
  exact List.eq_of_mem_replicate h

theorem strip_manyLetters {p : UInt8 → Bool} (hp : p 65 = false) :
    strip p manyLetters = manyLetters := by
  have hmem : ∀ c ∈ manyLetters, p c = false := fun c hc => by rw [eq_of_mem_manyLetters hc, hp]
  exact strip_eq_self (fun c hc => hmem c (List.mem_of_mem_head? hc))
    fun c hc => hmem c (List.mem_of_mem_getLast? hc)

theorem splitOn_manyLetters {sep : UInt8} (hsep : sep ≠ 65) :
    (manyLetters ++ [sep]).splitOn sep = [manyLetters, []] := by
  have hmem : sep ∉ manyLetters := fun h => hsep (eq_of_mem_manyLetters h)
  rw [List.splitOn_append_cons_self_of_not_mem hmem, List.splitOn_nil]

theorem manyLetters_ne_nil : manyLetters ≠ [] := by
  rw [manyLetters, List.replicate_succ]
  exact List.cons_ne_nil _ _

/-- A segment of 100,001 letters is read when its end comes with it, and refused when it
does not. -/
theorem long_segment_cut : ¬ X12.CutsAlike ((X12.sampleHeader ++ [126]) ++ (manyLetters ++ [126])) ∧
      ¬ CutsAlike (manyLetters ++ [13]) := by
  have hlong : 100000 < manyLetters.length := by
    rw [manyLetters, List.length_replicate]
    decide
  constructor
  · have hlen : (X12.sampleHeader ++ [126]).length = X12.isaLen := by decide
    have hisa : X12.Delimiters.fromIsa ((X12.sampleHeader ++ [126]) ++ (manyLetters ++ [126])) =
        .ok X12.defaultDelimiters := by
      rw [X12.fromIsa_append _ hlen.ge]
      decide
    have hread : (X12.reader X12.defaultDelimiters).read manyLetters =
        .ok [X12.Segment.ofRaw X12.defaultDelimiters manyLetters] := by
      have hone : manyLetters.splitOn X12.defaultDelimiters.element = [manyLetters] :=
        List.splitOn_eq_singleton fun h => absurd (eq_of_mem_manyLetters h) (by decide)
      dsimp only [X12.reader]
      rw [strip_manyLetters (by decide), if_neg manyLetters_ne_nil, X12.Segment.ofRaw, hone]
      rfl
    rw [X12.cutsAlike_iff]
    intro h
    have hsettled := h _ hisa
    rw [List.drop_left' hlen, show X12.defaultDelimiters.segment = 126 from rfl,
      splitOn_manyLetters (by decide)] at hsettled
    exact PieceReader.not_settled_of_read (List.cons_ne_nil _ _) hlong hread hsettled
  · have hends : (manyLetters ++ [13]).map lineEnd = manyLetters ++ [13] := by
      have hsame : manyLetters.map lineEnd = manyLetters :=
        (List.map_congr_left fun c hc => by rw [eq_of_mem_manyLetters hc]; rfl).trans
          manyLetters.map_id
      rw [List.map_append, hsame]
      rfl
    have hread : reader.read manyLetters = .ok [manyLetters] := by
      dsimp only [reader, yielded]
      rw [strip_manyLetters (by decide), if_neg manyLetters_ne_nil]
    rw [cutsAlike_iff, Settled, hends, splitOn_manyLetters (by decide)]
    exact PieceReader.not_settled_of_read (List.cons_ne_nil _ _) hlong hread

end Windrose.Hl7v2

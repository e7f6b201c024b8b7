/-
  X12/Lineage.lean --- the raw segments of a row.

  Source: services/ingestion-service/app/domain/x12.py (the six handlers).

  A record begins with the trigger segment of its transaction set and ends with the next
  one, with the SE, or, in a 834, with the INS of the next member.  Each handler first keeps
  the segment that is fed for `raw_segments` and then looks at its tag, so the segment that
  ends a record is kept with it when there is room.

  `trail` reads the records off the segments of a stream, each with the segment that ended
  it, and `Follows` ties it to the decoder.
-/
import Windrose.X12.RoundTrip

set_option autoImplicit false

namespace Windrose.X12

open Windrose.Foundation

/-! ## Records -/

/-- Where the records of a transaction set begin and end. -/
structure Boundaries where
  trigger : Bytes
  /-- the other segments that a record ends with -/
  enders : List Bytes := []
  /-- the rows are appended at the SE -/
  late : Bool := false

namespace Boundaries

def begins (b : Boundaries) (s : Segment) : Bool := s.tag = b.trigger

def ends (b : Boundaries) (s : Segment) : Bool := b.begins s || s.tag ∈ b.enders

end Boundaries

/-- A record, from its trigger segment on. -/
structure Record where
  segs : List Segment
  /-- the segment that ended it, unless that was the SE -/
  next : Option Segment
  deriving DecidableEq

/-- The records of a transaction that is open. -/
structure Tracker where
  bounds : Boundaries
  current : Option (List Segment) := none
  /-- those that have ended and have no row yet -/
  ended : List Record := []

namespace Tracker

/-- The record in flight, behind the segment. -/
def going (t : Tracker) (s : Segment) : Option (List Segment) :=
  if t.bounds.ends s then (if t.bounds.begins s then some [s] else none)
  else t.current.map (· ++ [s])

/-- The records that have ended, behind the segment. -/
def gone (t : Tracker) (s : Segment) : List Record :=
  t.ended ++ if t.bounds.ends s then (t.current.map fun segs => ⟨segs, some s⟩).toList else []

/-- A segment of the transaction: the records, and those that get their rows. -/
def next (t : Tracker) (s : Segment) : Tracker × List Record :=
  if t.bounds.late then ({ t with current := t.going s, ended := t.gone s }, [])
  else ({ t with current := t.going s, ended := [] }, t.gone s)

/-- The records that get their rows at the SE. -/
def close (t : Tracker) : List Record := t.ended ++ (t.current.map fun segs => ⟨segs, none⟩).toList

end Tracker

namespace Handler

def boundaries : Handler → Boundaries
  | .claim _ => { trigger := bytes "CLM" }
  | .remit _ => { trigger := bytes "CLP" }
  | .eligibility _ => { trigger := bytes "EB" }
  | .claimStatus _ => { trigger := bytes "STC" }
  | .enrollment _ => { trigger := bytes "HD", enders := [bytes "INS"] }
  | .ack _ => { trigger := bytes "AK2", late := true }

end Handler

/-- A segment of a stream: the transaction that is open, and what has got a row; `none`
stands for the row of a TA1. -/
def advance (t : Option Tracker) (s : Segment) : Option Tracker × List (Option Record) :=
  match s.kind with
  | .isa | .gs | .ge | .iea => (t, [])
  | .ta1 => (t, [none])
  | .st => ((handlers.lookup (s.elStrip 1)).map fun h => { bounds := h.boundaries }, [])
  | .se => (none, (t.map fun t => t.close.map some).getD [])
  | .data =>
    match t with
    | none => (none, [])
    | some t => (some (t.next s).1, (t.next s).2.map some)

/-- The records of a stream, in the order of their rows. -/
def trail : Option Tracker → List Segment → List (Option Record)
  | _, [] => []
  | t, s :: segs => (advance t s).2 ++ trail (advance t s).1 segs

/-- The newline-joined text of the first segments. -/
def lineageCell (segs : List Segment) : Cell := rawCell (segs.map Segment.raw)

/-- What a row shows of its record. -/
def Record.cell (r : Record) : Cell := lineageCell (r.segs ++ r.next.toList)

/-- `raw_segments`, the last column of each handler. -/
def lineage (r : Row) : Option Cell := r.getLast?

/-- Each row of a record shows the record and nothing else. -/
def LineageExact (segs : List Segment) (rows : List Row) : Prop :=
  ∀ (n : Nat) (r : Record), (trail none segs)[n]? = some (some r) → rows[n]?.bind lineage =
    some (lineageCell r.segs)

/-! ## The text of the segments -/

/-- What a handler has kept of a record. -/
def kept (segs : List Segment) : List Bytes := (segs.map Segment.raw).take maxRawSegmentsPerClaim

theorem rawCell_kept (segs : List Segment) : rawCell (kept segs) = lineageCell segs := by
  rw [rawCell, kept, List.take_take, Nat.min_self, lineageCell, rawCell]

theorem keepRaw_kept (segs : List Segment) (s : Segment) :
    keepRaw (kept segs) s = kept (segs ++ [s]) := by
  have hmap : (segs ++ [s]).map Segment.raw = segs.map Segment.raw ++ [s.raw] := List.map_append
  have hlength : (kept segs).length = min maxRawSegmentsPerClaim segs.length := by
    rw [kept, List.length_take, List.length_map]
  rw [keepRaw, hlength, kept, kept, hmap]
  by_cases hroom : segs.length < maxRawSegmentsPerClaim
  · rw [if_pos (by omega), List.take_of_length_le (by rw [List.length_map]; omega),
      List.take_of_length_le]
    rw [List.length_append, List.length_map, List.length_singleton]
    omega
  · rw [if_neg (by omega), List.take_append_of_le_length]
    rw [List.length_map]
    omega

theorem kept_singleton (s : Segment) : kept [s] = [s.raw] :=
  List.take_of_length_le (Nat.succ_pos 1999 : 1 ≤ maxRawSegmentsPerClaim)

variable {segs : List Segment} {s : Segment} {h : Handler} {rows : List Row}

theorem lineageCell_snoc_iff (hne : segs ≠ []) (s : Segment) :
    lineageCell (segs ++ [s]) = lineageCell segs ↔ maxRawSegmentsPerClaim ≤ segs.length := by
  rw [← rawCell_kept, ← rawCell_kept, ← keepRaw_kept]
  have hlength : (kept segs).length = min maxRawSegmentsPerClaim segs.length := by
    rw [kept, List.length_take, List.length_map]
  by_cases hroom : segs.length < maxRawSegmentsPerClaim
  · have hkept : kept segs ≠ [] := by
      have hpos := List.length_pos_iff.mpr hne
      exact List.length_pos_iff.mp (by omega)
    refine iff_of_false (fun heq => ?_) (by omega)
    rw [keepRaw, if_pos (by omega), rawCell, rawCell, List.take_of_length_le (by simp; omega),
      List.take_of_length_le (by omega), intercalate_concat _ _ hkept] at heq
    have htexts := congrArg List.length (Cell.text.inj heq)
    rw [List.length_append, List.length_cons] at htexts
    omega
  · exact iff_of_true (by rw [keepRaw, if_neg (by omega)]) (by omega)

theorem Record.cell_eq_iff {r : Record} (hne : r.segs ≠ []) :
    r.cell = lineageCell r.segs ↔ (r.next = none ∨ maxRawSegmentsPerClaim ≤ r.segs.length) := by
  cases hnext : r.next with
  | none => simp [Record.cell, hnext]
  | some s =>
    rw [Record.cell, hnext, Option.toList_some, lineageCell_snoc_iff hne]
    simp

/-! ## One segment -/

namespace Handler

/-- What is kept of the record in flight. -/
def inFlight : Handler → Option (List Bytes)
  | .claim h => h.claim.map Claim.raw
  | .remit h => h.clp.map Remit.raw
  | .eligibility h => h.eb.map Benefit.raw
  | .claimStatus h => h.stc.map ClaimStatus.raw
  | .enrollment h => h.hd.map Coverage.raw
  | .ack h => h.unit.map AckUnit.raw

/-- The cells of the records that have ended and have no row yet. -/
def waiting : Handler → List Cell
  | .ack h => h.units.map fun u => rawCell u.raw
  | _ => []

/-- The cells of the records that have ended, behind the segment. -/
def gone (h : Handler) (s : Segment) : List Cell :=
  h.waiting ++ if h.boundaries.ends s then
    (h.inFlight.map fun raw => rawCell (keepRaw raw s)).toList else []

end Handler

/-- What a segment does to the record in flight and to the rows. -/
structure Keeps (s : Segment) (h h' : Handler) (rows : List Row) : Prop where
  boundaries : h'.boundaries = h.boundaries
  inFlight : h'.inFlight =
    if h.boundaries.ends s then (if h.boundaries.begins s then some [s.raw] else none)
    else h.inFlight.map fun raw => keepRaw raw s
  ended : if h.boundaries.late then rows = [] ∧ h'.waiting = h.gone s
    else h'.waiting = [] ∧ rows.map lineage = (h.gone s).map some

theorem Keeps.silent {h' : Handler} (hquiet : h.boundaries.ends s = false)
    (hboundaries : h'.boundaries = h.boundaries) (hwaiting : h'.waiting = h.waiting)
    (hlate : h.boundaries.late = false → h.waiting = [])
    (hflight : h'.inFlight = h.inFlight.map fun raw => keepRaw raw s) : Keeps s h h' [] := by
  have hgone : h.gone s = h.waiting := by
    rw [Handler.gone, hquiet]
    exact List.append_nil _
  refine ⟨hboundaries, by rw [hquiet, hflight]; rfl, ?_⟩
  rw [hgone, hwaiting]
  cases hl : h.boundaries.late with
  | true => exact ⟨rfl, rfl⟩
  | false =>
    rw [hlate hl]
    exact ⟨rfl, rfl⟩

theorem Keeps.ending {h' : Handler}
    (hends : h.boundaries.ends s = true) (hboundaries : h'.boundaries = h.boundaries)
    (hlate : h.boundaries.late = false) (hwaiting : h.waiting = [] ∧ h'.waiting = [])
    (hflight : h'.inFlight = if h.boundaries.begins s then some [s.raw] else none)
    (hrows : rows.map lineage =
      (h.inFlight.map fun raw => some (rawCell (keepRaw raw s))).toList) : Keeps s h h' rows := by
  refine ⟨hboundaries, by rw [hends, hflight]; rfl, ?_⟩
  rw [hlate, Handler.gone, hends, hwaiting.1]
  refine ⟨hwaiting.2, hrows.trans ?_⟩
  cases h.inFlight <;> rfl

theorem ends_of_begins {b : Boundaries} (h : b.begins s = true) : b.ends s = true := by
  rw [Boundaries.ends, h, Bool.true_or]

theorem begins_iff {b : Boundaries} : b.begins s = true ↔ s.tag = b.trigger := decide_eq_true_iff

theorem ends_eq_false {b : Boundaries} (htag : s.tag ≠ b.trigger)
    (hothers : s.tag ∉ b.enders) : b.ends s = false := by
  rw [Boundaries.ends, Boundaries.begins, decide_eq_false htag, decide_eq_false hothers]
  rfl

theorem Keeps.beginning {h' : Handler} (htag : s.tag = h.boundaries.trigger)
    (hboundaries : h'.boundaries = h.boundaries) (hlate : h.boundaries.late = false)
    (hwaiting : h.waiting = [] ∧ h'.waiting = []) (hflight : h'.inFlight = some [s.raw])
    (hrows : rows.map lineage =
      (h.inFlight.map fun raw => some (rawCell (keepRaw raw s))).toList) : Keeps s h h' rows := by
  have hbegins := begins_iff.mpr htag
  exact .ending (ends_of_begins hbegins) hboundaries hlate hwaiting
    (by rw [hbegins, hflight]; rfl) hrows

theorem ClaimHandler.keeps (env : Envelope) (s : Segment) (h : ClaimHandler) :
    Keeps s (.claim h) (.claim (h.feed env s).1) (h.feed env s).2 := by
  by_cases htag : s.tag = bytes "CLM"
  · rw [feed, if_pos htag]
    refine .beginning htag rfl rfl ⟨rfl, rfl⟩ rfl ?_
    cases hc : h.claim <;> simp [flush, hc, Handler.inFlight, row, lineage]
  · rw [feed, if_neg htag]
    split_ifs
    all_goals
      refine .silent (ends_eq_false htag List.not_mem_nil) rfl rfl (fun _ => rfl) ?_
      simp [Handler.inFlight, Function.comp_def]

theorem RemitHandler.keeps (env : Envelope) (s : Segment) (h : RemitHandler) :
    Keeps s (.remit h) (.remit (h.feed env s).1) (h.feed env s).2 := by
  by_cases htag : s.tag = bytes "CLP"
  · rw [feed, htag, if_neg (by decide), if_neg (by decide), if_neg (by decide), if_pos rfl]
    refine .beginning htag rfl rfl ⟨rfl, rfl⟩ rfl ?_
    cases hc : h.clp <;> simp [flush, hc, Handler.inFlight, row, lineage]
  · rw [feed]
    simp only [if_neg htag]
    split_ifs
    all_goals
      refine .silent (ends_eq_false htag List.not_mem_nil) rfl rfl (fun _ => rfl) ?_
      simp [Handler.inFlight, Function.comp_def]

theorem EligibilityHandler.keeps (env : Envelope) (s : Segment) (h : EligibilityHandler) :
    Keeps s (.eligibility h) (.eligibility (h.feed env s).1) (h.feed env s).2 := by
  by_cases htag : s.tag = bytes "EB"
  · rw [feed, htag, if_neg (by decide), if_pos rfl]
    refine .beginning htag rfl rfl ⟨rfl, rfl⟩ rfl ?_
    cases hc : h.eb <;> simp [flush, hc, Handler.inFlight, row, lineage]
  · rw [feed]
    simp only [if_neg htag]
    split_ifs
    all_goals
      refine .silent (ends_eq_false htag List.not_mem_nil) rfl rfl (fun _ => rfl) ?_
      simp [Handler.inFlight, Function.comp_def]

theorem ClaimStatusHandler.keeps (env : Envelope) (s : Segment) (h : ClaimStatusHandler) :
    Keeps s (.claimStatus h) (.claimStatus (h.feed env s).1) (h.feed env s).2 := by
  by_cases htag : s.tag = bytes "STC"
  · rw [feed, htag, if_neg (by decide), if_neg (by decide), if_neg fun h => absurd h.1 (by decide),
      if_pos rfl]
    refine .beginning htag rfl rfl ⟨rfl, rfl⟩ rfl ?_
    cases hc : h.stc <;> simp [flush, hc, Handler.inFlight, row, lineage]
  · rw [feed]
    simp only [if_neg htag]
    split_ifs
    all_goals
      refine .silent (ends_eq_false htag List.not_mem_nil) rfl rfl (fun _ => rfl) ?_
      simp [Handler.inFlight, Function.comp_def]

theorem EnrollmentHandler.keeps (env : Envelope) (s : Segment) (h : EnrollmentHandler) :
    Keeps s (.enrollment h) (.enrollment (h.feed env s).1) (h.feed env s).2 := by
  by_cases hins : s.tag = bytes "INS"
  · have hends : (Handler.enrollment h).boundaries.ends s = true := by
      simp [Boundaries.ends, Handler.boundaries, hins]
    have hbegins : (Handler.enrollment h).boundaries.begins s = false := by
      rw [Boundaries.begins, hins]
      rfl
    rw [feed, if_pos hins]
    refine .ending hends rfl rfl ⟨rfl, rfl⟩ ?_ ?_
    · rw [hbegins]
      cases hc : h.hd <;> simp [flush, Handler.inFlight]
    · cases hc : h.hd <;> simp [flush, hc, Handler.inFlight, row, lineage]
  · by_cases htag : s.tag = bytes "HD"
    · rw [feed, htag, if_neg (by decide), if_neg fun h => absurd h.1 (by decide), if_neg fun h =>
        absurd h.1 (by decide),
        if_pos rfl]
      refine .beginning htag rfl rfl ⟨rfl, rfl⟩ rfl ?_
      cases hc : h.hd <;> simp [flush, hc, Handler.inFlight, row, lineage]
    · rw [feed, if_neg hins]
      simp only [if_neg htag]
      have hothers : s.tag ∉ (Handler.enrollment h).boundaries.enders := by
        rw [Handler.boundaries, List.mem_singleton]
        exact hins
      split_ifs
      all_goals
        refine .silent (ends_eq_false htag hothers) rfl rfl (fun _ => rfl) ?_
        simp [Handler.inFlight, Function.comp_def]

theorem AckHandler.keeps (env : Envelope) (s : Segment) (h : AckHandler) :
    Keeps s (.ack h) (.ack (h.feed env s).1) (h.feed env s).2 := by
  by_cases htag : s.tag = bytes "AK2"
  · have hbegins : (Handler.ack h).boundaries.begins s = true := begins_iff.mpr htag
    rw [feed, htag, if_neg (by decide), if_pos rfl]
    refine ⟨rfl, by rw [ends_of_begins hbegins, hbegins]; rfl, rfl, ?_⟩
    rw [Handler.gone, ends_of_begins hbegins]
    cases hu : h.unit <;> simp [closeUnit, hu, Handler.waiting, Handler.inFlight]
  · rw [feed]
    simp only [if_neg htag]
    split_ifs
    all_goals
      refine .silent (ends_eq_false htag List.not_mem_nil) rfl rfl nofun ?_
      simp [Handler.inFlight, Function.comp_def]

theorem Handler.keeps (env : Envelope) (s : Segment) (h : Handler) :
    Keeps s h (h.feed env s).1 (h.feed env s).2 := by
  cases h with
  | claim h => exact h.keeps env s
  | remit h => exact h.keeps env s
  | eligibility h => exact h.keeps env s
  | claimStatus h => exact h.keeps env s
  | enrollment h => exact h.keeps env s
  | ack h => exact h.keeps env s

theorem Handler.flush_lineage (env : Envelope) (h : Handler) :
    (h.flush env).2.map lineage = (h.waiting ++ (h.inFlight.map rawCell).toList).map some := by
  cases h with
  | claim h =>
    cases hc : h.claim <;> simp [flush, ClaimHandler.flush, hc, waiting, inFlight,
      ClaimHandler.row, lineage]
  | remit h =>
    cases hc : h.clp <;> simp [flush, RemitHandler.flush, hc, waiting, inFlight,
      RemitHandler.row, lineage]
  | eligibility h =>
    cases hc : h.eb <;> simp [flush, EligibilityHandler.flush, hc, waiting, inFlight,
      EligibilityHandler.row, lineage]
  | claimStatus h =>
    cases hc : h.stc <;> simp [flush, ClaimStatusHandler.flush, hc, waiting, inFlight,
      ClaimStatusHandler.row, lineage]
  | enrollment h =>
    cases hc : h.hd <;> simp [flush, EnrollmentHandler.flush, hc, waiting, inFlight,
      EnrollmentHandler.row, lineage]
  | ack h =>
    cases hc : h.unit <;> simp [flush, AckHandler.flush, AckHandler.closeUnit, hc, waiting,
      inFlight, AckHandler.row, lineage]

/-! ## The decoder and the records -/

/-- A handler that has kept what the records say. -/
structure Handler.Follows (h : Handler) (t : Tracker) : Prop where
  bounds : h.boundaries = t.bounds
  inFlight : h.inFlight = t.current.map kept
  waiting : h.waiting = t.ended.map Record.cell
  nonempty : ∀ segs, t.current = some segs → segs ≠ []
  ended_nonempty : ∀ r ∈ t.ended, r.segs ≠ []

/-- The row of a record, or any row where the records have none. -/
def Shows : Option Record → Row → Prop
  | none, _ => True
  | some r, row => r.segs ≠ [] ∧ lineage row = some r.cell

theorem shows_of_map {rs : List Record} (hne : ∀ r ∈ rs, r.segs ≠ [])
    (h : rows.map lineage = rs.map fun r => some r.cell) :
    List.Forall₂ Shows (rs.map some) rows := by
  induction rs generalizing rows with
  | nil =>
    obtain rfl := List.map_eq_nil_iff.mp h
    exact .nil
  | cons r rs ih =>
    obtain ⟨row, rows, rfl, hrow, hrows⟩ := List.map_eq_cons_iff.mp h
    exact .cons ⟨hne r List.mem_cons_self, hrow⟩
      (ih (fun r' hr' => hne r' (List.mem_cons_of_mem r hr')) hrows)

/-- A handler that is fed goes on following, and appends the rows of the records that get
theirs. -/
theorem Handler.Follows.feed {t : Tracker} (hf : h.Follows t) (env : Envelope) (s : Segment) :
    (h.feed env s).1.Follows (t.next s).1 ∧
      List.Forall₂ Shows ((t.next s).2.map some) (h.feed env s).2 := by
  obtain ⟨kbounds, kflight, kended⟩ := h.keeps env s
  rw [hf.bounds] at kbounds kflight kended
  have hflight : (h.feed env s).1.inFlight = (t.going s).map kept := by
    rw [kflight, Tracker.going, hf.inFlight]
    split_ifs
    · exact congrArg some (kept_singleton s).symm
    · rfl
    · rw [Option.map_map, Option.map_map]
      exact congrArg (Option.map · t.current) (funext fun segs => keepRaw_kept segs s)
  have hgone : h.gone s = (t.gone s).map Record.cell := by
    rw [Handler.gone, hf.bounds, hf.waiting, hf.inFlight, Tracker.gone, List.map_append]
    split_ifs
    · cases t.current with
      | none => rfl
      | some segs =>
        have hcell : rawCell (keepRaw (kept segs) s) = lineageCell (segs ++ [s]) := by
          rw [keepRaw_kept, rawCell_kept]
        exact congrArg (fun c => t.ended.map Record.cell ++ [c]) hcell
    · rfl
  have hgoing : ∀ segs, t.going s = some segs → segs ≠ [] := by
    intro segs hsegs
    rw [Tracker.going] at hsegs
    split_ifs at hsegs
    · rw [← Option.some.inj hsegs]
      exact List.cons_ne_nil s []
    · obtain ⟨before, -, rfl⟩ := Option.map_eq_some_iff.mp hsegs
      exact List.append_ne_nil_of_right_ne_nil _ (List.cons_ne_nil s [])
  have hended : ∀ r ∈ t.gone s, r.segs ≠ [] := by
    intro r hr
    obtain hr | hr := List.mem_append.mp hr
    · exact hf.ended_nonempty r hr
    · split_ifs at hr
      · obtain ⟨segs, hsegs, rfl⟩ := Option.map_eq_some_iff.mp (Option.mem_toList.mp hr)
        exact hf.nonempty segs hsegs
      · exact absurd hr List.not_mem_nil
  rw [hgone] at kended
  rw [Tracker.next]
  split_ifs at kended ⊢
  · obtain ⟨hrows, hwaiting⟩ := kended
    rw [hrows]
    exact ⟨⟨kbounds, hflight, hwaiting, hgoing, hended⟩, .nil⟩
  · obtain ⟨hwaiting, hrows⟩ := kended
    rw [List.map_map] at hrows
    exact ⟨⟨kbounds, hflight, hwaiting, hgoing, nofun⟩, shows_of_map hended hrows⟩

theorem Handler.Follows.flush {t : Tracker} (hf : h.Follows t) (env : Envelope) :
    List.Forall₂ Shows (t.close.map some) (h.flush env).2 := by
  refine shows_of_map (fun r hr => ?_) ?_
  · obtain hr | hr := List.mem_append.mp hr
    · exact hf.ended_nonempty r hr
    · obtain ⟨segs, hsegs, rfl⟩ := Option.map_eq_some_iff.mp (Option.mem_toList.mp hr)
      exact hf.nonempty segs hsegs
  · have hcell : ∀ segs : List Segment, rawCell (kept segs) = Record.cell ⟨segs, none⟩ := by
      intro segs
      rw [rawCell_kept, Record.cell, Option.toList_none, List.append_nil]
    rw [h.flush_lineage env, hf.waiting, hf.inFlight, Tracker.close]
    cases t.current with
    | none => simp
    | some segs => simp [hcell]

theorem follows_start {st01 : Bytes} (hh : handlers.lookup st01 = some h) :
    h.Follows { bounds := h.boundaries } := by
  have hfresh : ∀ p ∈ handlers, p.2.inFlight = none ∧ p.2.waiting = [] := by decide
  obtain ⟨l₁, l₂, hsplit, -⟩ := List.lookup_eq_some_iff.mp hh
  obtain ⟨hflight, hwaiting⟩ := hfresh (st01, h) (by rw [hsplit]; simp)
  exact ⟨rfl, hflight, hwaiting, nofun, nofun⟩

/-- The decoder holds a handler exactly when a transaction is tracked, and it follows. -/
def Decoder.Follows (s : Decoder) (t : Option Tracker) : Prop :=
  match s.handler, t with
  | none, none => True
  | some h, some t => h.Follows t
  | _, _ => False

namespace Decoder

variable {s s' m : Decoder} {t : Option Tracker} {seg : Segment}

theorem Follows.congr (hf : s.Follows t) (hhandler : m.handler = s.handler) : m.Follows t := by
  unfold Follows at hf ⊢
  rw [hhandler]
  exact hf

theorem Follows.take (hf : s.Follows t) (htake : s.take seg = .ok m) : m.Follows (advance t seg).1 ∧
      ∃ rows, m.allRows = s.allRows ++ rows ∧ List.Forall₂ Shows (advance t seg).2 rows := by
  cases hkind : seg.kind with
  | isa =>
    simp only [Decoder.take, hkind, Except.ok.injEq] at htake
    subst htake
    simp only [advance, hkind]
    exact ⟨hf, [], (List.append_nil _).symm, .nil⟩
  | gs =>
    simp only [Decoder.take, hkind, Except.ok.injEq] at htake
    subst htake
    simp only [advance, hkind]
    exact ⟨hf, [], (List.append_nil _).symm, .nil⟩
  | ge =>
    simp only [Decoder.take, hkind, closeGroup] at htake
    split_ifs at htake
    obtain rfl := Except.ok.inj htake
    simp only [advance, hkind]
    exact ⟨hf, [], (List.append_nil _).symm, .nil⟩
  | iea =>
    simp only [Decoder.take, hkind, closeInterchange] at htake
    split_ifs at htake
    obtain rfl := Except.ok.inj htake
    simp only [advance, hkind]
    exact ⟨hf, [], (List.append_nil _).symm, .nil⟩
  | ta1 =>
    simp only [Decoder.take, hkind, Except.ok.injEq] at htake
    subst htake
    obtain ⟨hhandler, -, -, hrows, -, -, -⟩ := acknowledge_frame s seg
    simp only [advance, hkind]
    exact ⟨hf.congr hhandler, [ta1Row s.env seg], hrows, .cons trivial .nil⟩
  | st =>
    simp only [Decoder.take, hkind, openTransaction] at htake
    cases hlookup : handlers.lookup (seg.elStrip 1) with
    | none =>
      rw [hlookup] at htake
      cases htake
    | some h =>
      rw [hlookup] at htake
      obtain rfl := Except.ok.inj htake
      simp only [advance, hkind, hlookup]
      exact ⟨follows_start hlookup, [], (List.append_nil _).symm, .nil⟩
  | se =>
    simp only [Decoder.take, hkind, closeTransaction] at htake
    have hm : m = { s.flushed with stOpen := false } := by
      split_ifs at htake
      · split at htake
        · cases htake
        · split_ifs at htake
          exact (Except.ok.inj htake).symm
      · exact (Except.ok.inj htake).symm
    subst hm
    simp only [advance, hkind]
    refine ⟨trivial, (s.handler.map fun h => (h.flush s.env).2).getD [], ?_, ?_⟩
    · exact (List.append_assoc _ _ _).symm
    · unfold Follows at hf
      split at hf
      · next hh => rw [hh]; exact .nil
      · next hh => rw [hh]; exact hf.flush s.env
      · exact hf.elim
  | data =>
    simp only [Decoder.take, hkind, Except.ok.injEq] at htake
    subst htake
    simp only [advance, hkind]
    unfold Follows at hf
    split at hf
    · next hh =>
      rw [fed, hh]
      refine ⟨?_, [], (List.append_nil _).symm, .nil⟩
      unfold Follows
      rw [hh]
      trivial
    · next h t hh =>
      obtain ⟨hfollows, hrows⟩ := hf.feed s.env seg
      rw [fed, hh]
      exact ⟨hfollows, (h.feed s.env seg).2, (List.append_assoc _ _ _).symm, hrows⟩
    · exact hf.elim

theorem Follows.reads {b : Int} (hf : s.Follows t) (hreads : Reads b s segs s') :
    ∃ rows, s'.allRows = s.allRows ++ rows ∧ List.Forall₂ Shows (trail t segs) rows := by
  induction segs generalizing s t with
  | nil =>
    rw [reads_nil] at hreads
    exact ⟨[], by rw [hreads, List.append_nil], .nil⟩
  | cons seg segs ih =>
    obtain ⟨m, hstep, hmore⟩ := reads_cons.mp hreads
    obtain ⟨-, m', htake, rfl⟩ := step_eq_ok.mp hstep
    obtain ⟨-, hhandler, -, -, -, -, hbatched⟩ := batched_frame b m'
    have hcounted : s.counted.Follows t := hf
    obtain ⟨hf', rows, hrows, hshows⟩ := hcounted.take htake
    obtain ⟨rows', hrows', hshows'⟩ := ih (hf'.congr hhandler) hmore
    refine ⟨rows ++ rows', ?_, List.rel_append hshows hshows'⟩
    rw [hrows', hbatched, hrows, ← List.append_assoc]
    rfl

end Decoder

/-- The rows of a stream that is accepted are those of its records and of its TA1
segments. -/
theorem rows_trail {b : Int} {chunks : List Bytes} (hok : (decodeX12 b chunks).outcome = .ok ()) :
    List.Forall₂ Shows (trail none (segments chunks).1) (decodeX12 b chunks).rows := by
  obtain ⟨htokens, s, hreads, hopen, hiea⟩ := decodeX12_ok.mp hok
  have hstart : ({} : Decoder).Follows none := trivial
  obtain ⟨rows, hrows, hshows⟩ := hstart.reads hreads
  rw [decodeX12_rows htokens hreads hopen hiea, hrows]
  exact hshows

theorem exact_iff_of_shows (hshows : List.Forall₂ Shows (trail none segs) rows) :
    LineageExact segs rows ↔ ∀ r, some r ∈ trail none segs →
      r.next = none ∨ maxRawSegmentsPerClaim ≤ r.segs.length := by
  have hrow : ∀ (n : Nat) (r : Record), (trail none segs)[n]? = some (some r) →
      r.segs ≠ [] ∧ rows[n]?.bind lineage = some r.cell := by
    intro n r hr
    obtain ⟨hn, hget⟩ := List.getElem?_eq_some_iff.mp hr
    have hn' : n < rows.length := hshows.length_eq ▸ hn
    have hat := hshows.get hn hn'
    rw [List.get_eq_getElem, hget] at hat
    rw [List.getElem?_eq_getElem hn']
    exact hat
  constructor
  · intro hexact r hr
    obtain ⟨n, hn⟩ := List.mem_iff_getElem?.mp hr
    obtain ⟨hne, hcell⟩ := hrow n r hn
    exact (Record.cell_eq_iff hne).mp (Option.some.inj (hcell.symm.trans (hexact n r hn)))
  · intro hall n r hn
    obtain ⟨hne, hcell⟩ := hrow n r hn
    rw [hcell, (Record.cell_eq_iff hne).mpr (hall r (List.mem_iff_getElem?.mpr ⟨n, hn⟩))]

/-- **The lineage of a stream that is accepted** is exact when, and only when, no record is
ended by a segment of its transaction before the cap is reached. -/
theorem lineage_exact_iff {b : Int} {chunks : List Bytes}
    (hok : (decodeX12 b chunks).outcome = .ok ()) :
    LineageExact (segments chunks).1 (decodeX12 b chunks).rows ↔
      ∀ r, some r ∈ trail none (segments chunks).1 →
        r.next = none ∨ maxRawSegmentsPerClaim ≤ r.segs.length :=
  exact_iff_of_shows (rows_trail hok)

/-! ## Two claims -/

/-- A stream with these segments behind its header. -/
def streamOf (body : List (List Bytes)) : Composed :=
  { isa := isaElements sampleControl defaultDelimiters, segments := body }

/-- Its header as it is read. -/
def sampleIsa : Segment :=
  { elements := isaElements sampleControl defaultDelimiters
    raw := joinElements defaultDelimiters (isaElements sampleControl defaultDelimiters)
    delims := defaultDelimiters }

theorem segments_streamOf {body : List (List Bytes)} (hne : body ≠ [])
    (hclean : ∀ elements ∈ body, (elements.head?.bind List.head?).map isLineEnd = some false ∧
      elements.tail ≠ [] ∧ (∀ e ∈ elements, Free defaultDelimiters e) ∧
      (joinElements defaultDelimiters elements).length ≤ maxSegmentChars ∧
      elements.length ≤ maxElementsPerSegment) :
    segments [(streamOf body).text defaultDelimiters] =
      (sampleIsa :: body.map (Segment.ofElements defaultDelimiters), .ok ()) := by
  have hlength : (joinElements defaultDelimiters
      (isaElements sampleControl defaultDelimiters)).length = isaLen - 1 := by decide
  have hclean' : ∀ elements ∈ (streamOf body).segments, Clean defaultDelimiters elements := by
    intro elements helements
    obtain ⟨htag, htail, hfree, -, -⟩ := hclean elements helements
    cases elements with
    | nil => cases htag
    | cons tag rest => exact .of_tag htag htail hfree
  have hisa : Delimiters.fromIsa ((streamOf body).header defaultDelimiters ++
      [defaultDelimiters.segment]) = .ok defaultDelimiters := fromIsa_header hlength
  have hfits : (streamOf body).Fits defaultDelimiters :=
    fun elements helements => (hclean elements helements).2.2.2
  have hcut : [(streamOf body).text defaultDelimiters].flatten =
      (streamOf body).text defaultDelimiters := List.append_nil _
  have hread := segments_composed plain_defaultDelimiters hisa hlength hclean' hne hfits hcut
  have hheader : Segment.ofRaw defaultDelimiters ((streamOf body).header defaultDelimiters) =
      sampleIsa := by
    have helements := @elements_header sampleControl (by decide +kernel)
    exact congrArg (fun e => ({ sampleIsa with elements := e } : Segment)) helements
  rw [hread, hheader]
  rfl

/-- Two transactions of one claim each, with a diagnosis and a service date. -/
def oneClaim : List (List Bytes) :=
  [[bytes "ST", bytes "837", bytes "0001"], [bytes "CLM", bytes "A"], [bytes "HI", bytes "X"],
    [bytes "SE", bytes "4", bytes "0001"], [bytes "ST", bytes "837", bytes "0002"],
    [bytes "CLM", bytes "B"], [bytes "HI", bytes "Y"], [bytes "DTP", bytes "472", bytes "D8"],
    [bytes "SE", bytes "5", bytes "0002"], [bytes "IEA", bytes "0", bytes "000000001"]]

/-- Two claims. -/
def twoClaims : List (List Bytes) :=
  [[bytes "ST", bytes "837", bytes "0001"], [bytes "CLM", bytes "A"], [bytes "CLM", bytes "B"],
    [bytes "SE", bytes "4", bytes "0001"], [bytes "IEA", bytes "0", bytes "000000001"]]

theorem segments_oneClaim : segments [(streamOf oneClaim).text defaultDelimiters] =
    (sampleIsa :: oneClaim.map (Segment.ofElements defaultDelimiters), .ok ()) :=
  segments_streamOf (by decide) (by decide)

theorem segments_twoClaims : segments [(streamOf twoClaims).text defaultDelimiters] =
    (sampleIsa :: twoClaims.map (Segment.ofElements defaultDelimiters), .ok ()) :=
  segments_streamOf (by decide) (by decide)

theorem accepted_of_run {b : Int} {chunks : List Bytes} (hsegs : segments chunks = (segs, .ok ()))
    (hrun : (({} : Decoder).run b segs).2 = .ok () ∧
      (({} : Decoder).run b segs).1.stOpen = false ∧
      (({} : Decoder).run b segs).1.seenIea = true) : (decodeX12 b chunks).outcome = .ok () := by
  obtain ⟨hok, hopen, hiea⟩ := hrun
  refine decodeX12_ok.mpr ⟨by rw [hsegs], (({} : Decoder).run b segs).1, ?_, hopen, hiea⟩
  rw [hsegs]
  exact Prod.ext rfl hok

/-- Claims that no other follows in their transaction have their own segments. -/
theorem lineage_exact_sample :
    LineageExact (segments [(streamOf oneClaim).text defaultDelimiters]).1
      (decodeX12 10 [(streamOf oneClaim).text defaultDelimiters]).rows := by
  refine (lineage_exact_iff (accepted_of_run segments_oneClaim (by decide))).mpr fun r hr => ?_
  rw [segments_oneClaim] at hr
  have hlast : ∀ r ∈ (trail none
      (sampleIsa :: oneClaim.map (Segment.ofElements defaultDelimiters))).flatMap Option.toList,
      r.next = none := by decide
  exact .inl (hlast r (List.mem_flatMap.mpr ⟨some r, hr, List.mem_singleton_self r⟩))

/-- The row of the first of two claims shows the segment that begins the second. -/
theorem next_claim_kept :
    (decodeX12 10 [(streamOf twoClaims).text defaultDelimiters]).outcome = .ok () ∧
      ¬ LineageExact (segments [(streamOf twoClaims).text defaultDelimiters]).1
        (decodeX12 10 [(streamOf twoClaims).text defaultDelimiters]).rows := by
  have hok : (decodeX12 10 [(streamOf twoClaims).text defaultDelimiters]).outcome = .ok () :=
    accepted_of_run segments_twoClaims (by decide)
  refine ⟨hok, fun hexact => ?_⟩
  have hended := (exact_iff_of_shows (rows_trail hok)).mp hexact
  rw [segments_twoClaims] at hended
  have hfirst := hended ⟨[Segment.ofElements defaultDelimiters [bytes "CLM", bytes "A"]],
    some (Segment.ofElements defaultDelimiters [bytes "CLM", bytes "B"])⟩ (by decide)
  exact absurd hfirst (by decide)

end Windrose.X12

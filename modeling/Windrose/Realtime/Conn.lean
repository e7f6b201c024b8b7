/-
  Realtime/Conn.lean --- the queues of one connection.

  Source: services/realtime-hub/internal/fanout/conn.go, types.go and
  internal/events/consumer.go (PayloadCap).

  `Enqueue`, `EnqueueFront`, `EnqueueControl` and `Close` each run under the lock of the
  connection, and so does the part of `flush` that empties the queues.  What it took is
  then written frame by frame, while the others go on.

  An overflow drops one event, whatever room it leaves; replayed events are put in front
  without a limit; and the gap of a topic is the pair of its first and its last dropped
  id (`Mirrors`).  `Fits` says of a step that these do no harm.
-/
import Mathlib.Data.List.AList
import Windrose.Foundation.Bytes
import Windrose.Foundation.Runs

set_option autoImplicit false

namespace Windrose.Realtime

open Windrose.Foundation

/-! ## Events -/

/-- `MaxQueueLen`. -/
def maxQueueLen : Nat := 256

/-- `MaxQueueBytes`. -/
def maxQueueBytes : Nat := 1048576

/-- `PayloadCap`. -/
def payloadCap : Nat := 65536

/-- What is published is encoded once more, which makes six bytes of one at most. -/
def maxData : Nat := 6 * payloadCap

/-- `Event`, of a size that the hub admits. -/
structure Event where
  id : Bytes
  topic : Bytes
  data : Bytes
  chat : Bool
  admitted : data.length ≤ maxData
  deriving DecidableEq

/-- The dropped events of a topic. -/
structure GapRange where
  fromID : Bytes
  toID : Bytes
  deriving DecidableEq

/-- A control event: one that was encoded before, or the gap of a topic. -/
inductive Ctrl where
  | encoded (data : Bytes)
  | gap (topic : Bytes) (range : GapRange)
  deriving DecidableEq

/-- What the sink was asked to write. -/
inductive Frame where
  | control (ctrl : Ctrl)
  | event (ev : Event)
  | close (code : Int) (reason : Bytes)
  deriving DecidableEq

/-! ## The connection -/

/-- `gaps`, by topic. -/
abbrev Gaps : Type := AList fun _ : Bytes => GapRange

/-- The gaps in some order. -/
def Gaps.toList (gaps : Gaps) : List (Bytes × GapRange) := gaps.entries.map fun e => (e.1, e.2)

/-- `Conn`, with what its queues and its writer read. -/
structure Conn where
  dataQ : List Event := []
  ctrlQ : List Ctrl := []
  bytes : Int := 0
  gaps : Gaps := ∅
  seen : List (Bytes × List Bytes) := []
  closed : Bool := false
  closeSet : Option (Int × Bytes) := none

namespace Conn

/-- The queue is over one of its limits with the event. -/
def overflows (c : Conn) (ev : Event) : Bool :=
  maxQueueLen ≤ c.dataQ.length || maxQueueBytes < c.bytes + ev.data.length

/-- `closeLocked`. -/
def closeLocked (c : Conn) (code : Int) (reason : Bytes) : Conn :=
  match c.closeSet with
  | some _ => c
  | none => { c with closeSet := some (code, reason) }

/-- `recordGapLocked`. -/
def recordGap (gaps : Gaps) (topic id : Bytes) : Gaps :=
  match gaps.lookup topic with
  | none => gaps.insert topic ⟨id, id⟩
  | some g => gaps.insert topic { g with toID := id }

/-- An event joins the data queue. -/
def push (c : Conn) (ev : Event) : Conn :=
  { c with dataQ := c.dataQ ++ [ev], bytes := c.bytes + ev.data.length }

/-- The oldest event is dropped. -/
def dropOldest (c : Conn) (old : Event) (rest : List Event) : Conn :=
  { c with
    dataQ := rest
    bytes := c.bytes - old.data.length
    gaps := recordGap c.gaps old.topic old.id }

/-- `dedupPerTopic`. -/
def dedupPerTopic : Nat := 2000

/-- `isDup`, and the ids that are known after it. -/
def isDup (c : Conn) (topic id : Bytes) : Bool × Conn :=
  let m := (c.seen.lookup topic).getD []
  if id ∈ m then (true, c)
  else
    let m := if dedupPerTopic ≤ m.length then [] else m
    (false, { c with seen := (topic, id :: m) :: c.seen.filter (·.1 ≠ topic) })

end Conn

/-! ## Runs -/

/-- What `flush` took out of the queues and has not written. -/
structure Batch where
  ctrls : List Ctrl
  data : List Event
  closeSet : Option (Int × Bytes)

/-- A connection and its wire, with what happened to it. -/
structure World where
  conn : Conn := {}
  /-- An empty queue was indexed. -/
  crashed : Bool := false
  batch : Option Batch := none
  wire : List Frame := []
  /-- The control events that were taken in. -/
  accepted : List Bytes := []
  /-- The events dropped since the queues were last emptied. -/
  dropped : List Event := []
  /-- What was dropped before, and the gaps that were reported of it. -/
  reports : List (List Event × List (Bytes × GapRange)) := []

/-- The steps of the hub and of the writer. -/
inductive Op where
  | enqueue (ev : Event)
  | enqueueFront (evs : List Event)
  | enqueueControl (data : Bytes)
  | close (code : Int) (reason : Bytes)
  /-- The writer empties the queues; a map has no order of its own. -/
  | drain (order : List (Bytes × GapRange))
  /-- The writer hands one frame to the sink, which takes it or fails. -/
  | write (ok : Bool)
  /-- The hub removes the connection. -/
  | finish

namespace World

/-- `Enqueue`. -/
def enqueue (w : World) (ev : Event) : World :=
  if w.conn.closed then w
  else if w.conn.overflows ev then
    if ev.chat then
      { w with conn := w.conn.closeLocked 4409 (Foundation.bytes "TOO_SLOW") }
    else match w.conn.dataQ with
      | [] => { w with crashed := true }
      | old :: rest =>
        { w with conn := (w.conn.dropOldest old rest).push ev, dropped := w.dropped ++ [old] }
  else { w with conn := w.conn.push ev }

/-- The bytes of some events. -/
def size (evs : List Event) : Nat := (evs.map fun ev => ev.data.length).sum

/-- `EnqueueFront`. -/
def enqueueFront (w : World) (evs : List Event) : World :=
  if evs = [] ∨ w.conn.closed = true then w
  else
    { w with conn := { w.conn with
        dataQ := evs ++ w.conn.dataQ
        bytes := w.conn.bytes + size evs } }

/-- `EnqueueControl`. -/
def enqueueControl (w : World) (data : Bytes) : World :=
  if w.conn.closed then w
  else
    { w with
      conn := { w.conn with ctrlQ := w.conn.ctrlQ ++ [.encoded data] }
      accepted := w.accepted ++ [data] }

/-- The first part of `flush`. -/
def drain (w : World) (order : List (Bytes × GapRange)) : World :=
  match w.batch with
  | some _ => w
  | none =>
    let gaps := if order.Perm w.conn.gaps.toList then order else w.conn.gaps.toList
    { w with
      conn := { w.conn with dataQ := [], ctrlQ := [], bytes := 0, gaps := ∅ }
      batch := some ⟨w.conn.ctrlQ ++ gaps.map fun (t, g) => .gap t g, w.conn.dataQ,
        w.conn.closeSet⟩
      dropped := []
      reports := w.reports ++ [(w.dropped, gaps)] }

/-- `finish`; the rest of a batch is given up. -/
def finish (w : World) : World := { w with conn := { w.conn with closed := true } }

/-- The sink fails: the writer ends. -/
def fail (w : World) : World := { w.finish with batch := none }

/-- The second part of `flush`, one frame at a time. -/
def write (w : World) (ok : Bool) : World :=
  match w.batch with
  | none => w
  | some ⟨ctrl :: ctrls, data, closeSet⟩ =>
    if ok then
      { w with wire := w.wire ++ [.control ctrl], batch := some ⟨ctrls, data, closeSet⟩ }
    else w.fail
  | some ⟨[], ev :: data, closeSet⟩ =>
    let (dup, conn) := if ev.id = [] then (false, w.conn) else w.conn.isDup ev.topic ev.id
    if dup then { w with batch := some ⟨[], data, closeSet⟩ }
    else if ok then
      { w with conn := conn, wire := w.wire ++ [.event ev], batch := some ⟨[], data, closeSet⟩ }
    else ({ w with conn := conn } : World).fail
  | some ⟨[], [], some (code, reason)⟩ =>
    ({ w with wire := w.wire ++ [.close code reason] } : World).fail
  | some ⟨[], [], none⟩ => { w with batch := none }

/-- One step. -/
def step (w : World) : Op → World
  | .enqueue ev => w.enqueue ev
  | .enqueueFront evs => w.enqueueFront evs
  | .enqueueControl data => w.enqueueControl data
  | .close code reason => { w with conn := w.conn.closeLocked code reason }
  | .drain order => w.drain order
  | .write ok => w.write ok
  | .finish => w.finish

end World

/-! ## What is to hold -/

/-- The id lies within the gap. -/
def GapRange.Within (g : GapRange) (id : Bytes) : Prop := ¬ id < g.fromID ∧ ¬ g.toID < id

/-- A report of gaps covers what was dropped and nothing else. -/
def Reported (dropped : List Event) (gaps : List (Bytes × GapRange)) : Prop :=
  (∀ d ∈ dropped, d.chat = false → ∃ g, (d.topic, g) ∈ gaps ∧ g.Within d.id) ∧
    ∀ t g, (t, g) ∈ gaps → ∃ d ∈ dropped, d.topic = t

namespace World

/-- The queue is within its limits, and all gaps were reported as they are. -/
def Bounded (w : World) : Prop :=
  w.conn.dataQ.length ≤ maxQueueLen ∧ w.conn.bytes ≤ maxQueueBytes ∧
    ∀ r ∈ w.reports, Reported r.1 r.2

/-- The dropped events of a topic. -/
def ofTopic (topic : Bytes) (dropped : List Event) : List Event := dropped.filter (·.topic = topic)

/-- The first and the last dropped id of a topic. -/
def rangeOf (topic : Bytes) (dropped : List Event) : Option GapRange :=
  match (ofTopic topic dropped).head?, (ofTopic topic dropped).getLast? with
  | some first, some last => some ⟨first.id, last.id⟩
  | _, _ => none

/-- The step does no harm. -/
def Fits (w : World) : Op → Prop
  | .enqueue ev => w.conn.closed = true ∨ w.conn.overflows ev = false ∨ ev.chat = true ∨
      ∀ old ∈ w.conn.dataQ.head?,
        w.conn.bytes - old.data.length + ev.data.length ≤ maxQueueBytes
  | .enqueueFront evs => evs = [] ∨ w.conn.closed = true ∨
      evs.length + w.conn.dataQ.length ≤ maxQueueLen ∧ w.conn.bytes + size evs ≤ maxQueueBytes
  | .drain _ => w.batch = none → ∀ d ∈ w.dropped, d.chat = false →
      ∃ g, rangeOf d.topic w.dropped = some g ∧ g.Within d.id
  | _ => True

/-- The payload of a control event that was taken in. -/
def payload : Ctrl → Option Bytes
  | .encoded data => some data
  | .gap _ _ => none

/-- The control event of a frame. -/
def frameCtrl : Frame → Option Ctrl
  | .control ctrl => some ctrl
  | _ => none

/-- The control events that were written or wait to be. -/
def ctrls (w : World) : List Ctrl :=
  w.wire.filterMap frameCtrl ++ (w.batch.elim [] Batch.ctrls) ++ w.conn.ctrlQ

/-- What holds in every state: no empty queue was indexed, the bytes are those of the
queue, and no control event of an open connection is lost. -/
def Sound (w : World) : Prop :=
  w.crashed = false ∧ w.conn.bytes = size w.conn.dataQ ∧
    (w.conn.closed = false → w.ctrls.filterMap payload = w.accepted)

end World

/-! ## Gaps -/

theorem Gaps.mem_toList {gaps : Gaps} {t : Bytes} {g : GapRange} :
    (t, g) ∈ gaps.toList ↔ gaps.lookup t = some g := by
  rw [← Option.mem_def, AList.mem_lookup_iff, toList, List.mem_map]
  constructor
  · rintro ⟨⟨t', g'⟩, hmem, heq⟩
    cases heq
    exact hmem
  · intro hmem
    exact ⟨⟨t, g⟩, hmem, rfl⟩

theorem Conn.lookup_recordGap (gaps : Gaps) (topic id t : Bytes) :
    (recordGap gaps topic id).lookup t =
      if topic = t then some ⟨((gaps.lookup t).map GapRange.fromID).getD id, id⟩
      else gaps.lookup t := by
  unfold recordGap
  by_cases htopic : topic = t
  · subst htopic
    rw [if_pos rfl]
    cases gaps.lookup topic with
    | none => exact AList.lookup_insert _
    | some g => exact AList.lookup_insert _
  · rw [if_neg htopic]
    cases gaps.lookup topic with
    | none => exact AList.lookup_insert_ne (Ne.symm htopic)
    | some g => exact AList.lookup_insert_ne (Ne.symm htopic)

namespace World

theorem ofTopic_append (topic : Bytes) (dropped : List Event) (d : Event) :
    ofTopic topic (dropped ++ [d]) =
      ofTopic topic dropped ++ if d.topic = topic then [d] else [] := by
  unfold ofTopic
  rw [List.filter_append]
  split_ifs with htopic
  · rw [List.filter_cons_of_pos (by simpa using htopic), List.filter_nil]
  · rw [List.filter_cons_of_neg (by simpa using htopic), List.filter_nil]

theorem rangeOf_append (topic : Bytes) (dropped : List Event) (d : Event) :
    rangeOf topic (dropped ++ [d]) =
      if d.topic = topic then some ⟨((rangeOf topic dropped).map GapRange.fromID).getD d.id, d.id⟩
      else rangeOf topic dropped := by
  unfold rangeOf
  rw [ofTopic_append]
  split_ifs with htopic
  · rw [List.getLast?_concat]
    cases ofTopic topic dropped with
    | nil => rfl
    | cons first ds =>
      rw [List.getLast?_eq_some_getLast (List.cons_ne_nil first ds)]
      rfl
  · rw [List.append_nil]

theorem exists_of_rangeOf {topic : Bytes} {dropped : List Event} {g : GapRange}
    (h : rangeOf topic dropped = some g) : ∃ d ∈ dropped, d.topic = topic := by
  unfold rangeOf at h
  cases hds : ofTopic topic dropped with
  | nil =>
    rw [hds] at h
    cases h
  | cons d ds =>
    have hmem : d ∈ ofTopic topic dropped := hds ▸ List.mem_cons_self ..
    exact ⟨d, List.mem_of_mem_filter hmem, by simpa using List.of_mem_filter hmem⟩

/-- What is reported is within the gaps exactly when every dropped event lies between the
first and the last one of its topic. -/
theorem reported_iff {gaps : List (Bytes × GapRange)} {dropped : List Event}
    (h : ∀ t g, (t, g) ∈ gaps ↔ rangeOf t dropped = some g) :
    Reported dropped gaps ↔ ∀ d ∈ dropped, d.chat = false →
      ∃ g, rangeOf d.topic dropped = some g ∧ g.Within d.id := by
  unfold Reported
  simp only [h]
  exact and_iff_left fun t g hg => exists_of_rangeOf hg

/-- The gaps are the first and the last dropped id of each topic. -/
def Mirrors (w : World) : Prop := ∀ t, w.conn.gaps.lookup t = rangeOf t w.dropped

variable {w : World}

theorem mirrors_drop (h : w.Mirrors) (old : Event) (t : Bytes) :
    (Conn.recordGap w.conn.gaps old.topic old.id).lookup t = rangeOf t (w.dropped ++ [old]) := by
  rw [Conn.lookup_recordGap, rangeOf_append, h t]

/-! ## What holds in every state -/

/-- What every step keeps. -/
structure Good (w : World) : Prop where
  sound : w.Sound
  mirrors : w.Mirrors

theorem size_append (evs evs' : List Event) : size (evs ++ evs') = size evs + size evs' := by
  unfold size
  rw [List.map_append, List.sum_append]

theorem size_cons (ev : Event) (evs : List Event) :
    size (ev :: evs) = ev.data.length + size evs := by
  unfold size
  rw [List.map_cons, List.sum_cons]

theorem overflows_eq_false {c : Conn} (hbytes : c.bytes = size c.dataQ) (hempty : c.dataQ = [])
    (ev : Event) : c.overflows ev = false := by
  have hsmall := ev.admitted
  unfold Conn.overflows
  rw [hbytes, hempty]
  simp only [maxData, payloadCap] at hsmall
  simp [maxQueueLen, maxQueueBytes, size]
  omega

theorem Good.enqueue (h : w.Good) (ev : Event) : (w.enqueue ev).Good := by
  obtain ⟨⟨hcrashed, hbytes, hctrls⟩, hmirrors⟩ := h
  unfold World.enqueue
  split_ifs with hclosed hover hchat
  · exact ⟨⟨hcrashed, hbytes, hctrls⟩, hmirrors⟩
  · unfold Conn.closeLocked
    cases w.conn.closeSet with
    | none => exact ⟨⟨hcrashed, hbytes, hctrls⟩, hmirrors⟩
    | some _ => exact ⟨⟨hcrashed, hbytes, hctrls⟩, hmirrors⟩
  · cases hqueue : w.conn.dataQ with
    | nil =>
      rw [overflows_eq_false hbytes hqueue ev] at hover
      cases hover
    | cons old rest =>
      refine ⟨⟨hcrashed, ?_, hctrls⟩, mirrors_drop hmirrors old⟩
      change w.conn.bytes - old.data.length + ev.data.length = (size (rest ++ [ev]) : Int)
      rw [hbytes, hqueue, size_append, size_cons, size_cons]
      simp [size]
  · refine ⟨⟨hcrashed, ?_, hctrls⟩, hmirrors⟩
    change w.conn.bytes + ev.data.length = (size (w.conn.dataQ ++ [ev]) : Int)
    rw [hbytes, size_append, size_cons]
    simp [size]

theorem Good.enqueueFront (h : w.Good) (evs : List Event) : (w.enqueueFront evs).Good := by
  obtain ⟨⟨hcrashed, hbytes, hctrls⟩, hmirrors⟩ := h
  unfold World.enqueueFront
  split_ifs with hidle
  · exact ⟨⟨hcrashed, hbytes, hctrls⟩, hmirrors⟩
  · refine ⟨⟨hcrashed, ?_, hctrls⟩, hmirrors⟩
    change w.conn.bytes + size evs = (size (evs ++ w.conn.dataQ) : Int)
    rw [hbytes, size_append, Nat.cast_add, Int.add_comm]

theorem Good.enqueueControl (h : w.Good) (data : Bytes) : (w.enqueueControl data).Good := by
  obtain ⟨⟨hcrashed, hbytes, hctrls⟩, hmirrors⟩ := h
  unfold World.enqueueControl
  split_ifs with hclosed
  · exact ⟨⟨hcrashed, hbytes, hctrls⟩, hmirrors⟩
  · refine ⟨⟨hcrashed, hbytes, fun hopen => ?_⟩, hmirrors⟩
    have hbefore := hctrls hopen
    unfold ctrls at hbefore ⊢
    rw [← List.append_assoc, List.filterMap_append, hbefore]
    rfl

theorem filterMap_gaps (gaps : List (Bytes × GapRange)) :
    (gaps.map fun (t, g) => Ctrl.gap t g).filterMap payload = [] := by
  rw [List.filterMap_map]
  exact List.filterMap_eq_nil_iff.mpr fun p _ => rfl

theorem Good.drain (h : w.Good) (order : List (Bytes × GapRange)) : (w.drain order).Good := by
  obtain ⟨⟨hcrashed, hbytes, hctrls⟩, hmirrors⟩ := h
  unfold World.drain
  cases hbatch : w.batch with
  | some batch => exact ⟨⟨hcrashed, hbytes, hctrls⟩, hmirrors⟩
  | none =>
    refine ⟨⟨hcrashed, rfl, fun hopen => ?_⟩, fun t => rfl⟩
    have hbefore := hctrls hopen
    unfold ctrls at hbefore ⊢
    rw [hbatch] at hbefore
    rw [← hbefore]
    simp only [Option.elim, List.append_nil, List.filterMap_append, filterMap_gaps]

theorem Good.fail (h : w.Good) : w.fail.Good := ⟨⟨h.sound.1, h.sound.2.1, nofun⟩, h.mirrors⟩

theorem Good.of_writer {w' : World} (h : w.Good) (hcrashed : w'.crashed = w.crashed)
    (hconn : ∃ seen, w'.conn = { w.conn with seen := seen }) (haccepted : w'.accepted = w.accepted)
    (hdropped : w'.dropped = w.dropped) (hctrls : w'.ctrls = w.ctrls) : w'.Good := by
  obtain ⟨seen, hconn⟩ := hconn
  refine ⟨⟨hcrashed.trans h.sound.1, ?_, fun hopen => ?_⟩, fun t => ?_⟩
  · rw [hconn]
    exact h.sound.2.1
  · rw [hconn] at hopen
    rw [hctrls, haccepted]
    exact h.sound.2.2 hopen
  · rw [hconn, hdropped]
    exact h.mirrors t

theorem isDup_snd (c : Conn) (topic id : Bytes) :
    ∃ seen, (c.isDup topic id).2 = { c with seen := seen } := by
  unfold Conn.isDup
  dsimp only
  split_ifs
  · exact ⟨c.seen, rfl⟩
  · exact ⟨_, rfl⟩
  · exact ⟨_, rfl⟩

theorem checked_snd (c : Conn) (ev : Event) :
    ∃ seen, (if ev.id = [] then (false, c) else c.isDup ev.topic ev.id).2 =
      { c with seen := seen } := by
  split_ifs
  · exact ⟨c.seen, rfl⟩
  · exact isDup_snd c ev.topic ev.id

theorem Good.write (h : w.Good) (ok : Bool) : (w.write ok).Good := by
  unfold World.write
  match hbatch : w.batch with
  | none => exact h
  | some ⟨ctrl :: ctrls, data, closeSet⟩ =>
    cases ok with
    | false => exact h.fail
    | true =>
      refine h.of_writer rfl ⟨w.conn.seen, rfl⟩ rfl rfl ?_
      simp [World.ctrls, hbatch, frameCtrl]
  | some ⟨[], ev :: data, closeSet⟩ =>
    obtain ⟨seen, hseen⟩ := checked_snd w.conn ev
    dsimp only
    generalize (if ev.id = [] then (false, w.conn) else w.conn.isDup ev.topic ev.id) = checked
      at hseen ⊢
    obtain ⟨dup, conn⟩ := checked
    split_ifs
    · exact h.of_writer rfl ⟨w.conn.seen, rfl⟩ rfl rfl (by simp [World.ctrls, hbatch])
    · exact h.of_writer rfl ⟨seen, hseen⟩ rfl rfl (by
        obtain rfl : conn = _ := hseen
        simp [World.ctrls, hbatch, frameCtrl])
    · exact Good.fail (h.of_writer rfl ⟨seen, hseen⟩ rfl rfl (by
        obtain rfl : conn = _ := hseen
        simp [World.ctrls, hbatch]))
  | some ⟨[], [], some (code, reason)⟩ =>
    refine Good.fail (h.of_writer rfl ⟨w.conn.seen, rfl⟩ rfl rfl ?_)
    simp [World.ctrls, hbatch, frameCtrl]
  | some ⟨[], [], none⟩ =>
    refine h.of_writer rfl ⟨w.conn.seen, rfl⟩ rfl rfl ?_
    simp [World.ctrls, hbatch]

theorem Good.step (h : w.Good) (op : Op) : (w.step op).Good := by
  cases op with
  | enqueue ev => exact h.enqueue ev
  | enqueueFront evs => exact h.enqueueFront evs
  | enqueueControl data => exact h.enqueueControl data
  | close code reason =>
    unfold World.step Conn.closeLocked
    cases w.conn.closeSet with
    | none => exact ⟨h.sound, h.mirrors⟩
    | some _ => exact ⟨h.sound, h.mirrors⟩
  | drain order => exact h.drain order
  | write ok => exact h.write ok
  | finish => exact ⟨⟨h.sound.1, h.sound.2.1, nofun⟩, h.mirrors⟩

theorem good_init : ({} : World).Good := ⟨⟨rfl, rfl, fun _ => rfl⟩, fun _ => rfl⟩

/-! ## The limits of one step -/

theorem length_push_le {c : Conn} {old : Event} {rest : List Event}
    (hqueue : c.dataQ = old :: rest) (h : c.dataQ.length ≤ maxQueueLen) (ev : Event) :
    (((c.dropOldest old rest).push ev).dataQ).length ≤ maxQueueLen := by
  rw [hqueue, List.length_cons] at h
  simpa [Conn.push, Conn.dropOldest] using h

theorem bounded_enqueue_iff (hgood : w.Good) (h : w.Bounded) (ev : Event) :
    (w.enqueue ev).Bounded ↔ w.Fits (.enqueue ev) := by
  obtain ⟨hlength, hbytes, hreports⟩ := h
  unfold World.enqueue Fits
  split_ifs with hclosed hover hchat
  · exact iff_of_true ⟨hlength, hbytes, hreports⟩ (.inl hclosed)
  · refine iff_of_true ?_ (.inr (.inr (.inl hchat)))
    unfold Conn.closeLocked
    cases w.conn.closeSet with
    | none => exact ⟨hlength, hbytes, hreports⟩
    | some _ => exact ⟨hlength, hbytes, hreports⟩
  · cases hqueue : w.conn.dataQ with
    | nil =>
      rw [overflows_eq_false hgood.sound.2.1 hqueue ev] at hover
      cases hover
    | cons old rest =>
      have hfits : (∀ o ∈ (old :: rest).head?,
          w.conn.bytes - o.data.length + ev.data.length ≤ maxQueueBytes) ↔
          w.conn.bytes - old.data.length + ev.data.length ≤ maxQueueBytes := by simp
      simp only [hclosed, hover, hchat, hfits, false_or, Bool.true_eq_false, Bool.false_eq_true]
      exact ⟨fun hbounded => hbounded.2.1,
        fun hroom => ⟨length_push_le hqueue hlength ev, hroom, hreports⟩⟩
  · rw [Bool.not_eq_true] at hover
    refine iff_of_true ⟨?_, ?_, hreports⟩ (.inr (.inl hover))
    · unfold Conn.overflows at hover
      simp only [Bool.or_eq_false_iff, decide_eq_false_iff_not] at hover
      simp only [Conn.push, List.length_append, List.length_singleton]
      omega
    · unfold Conn.overflows at hover
      simp only [Bool.or_eq_false_iff, decide_eq_false_iff_not] at hover
      simp only [Conn.push]
      omega

theorem bounded_enqueueFront_iff (h : w.Bounded) (evs : List Event) :
    (w.enqueueFront evs).Bounded ↔ w.Fits (.enqueueFront evs) := by
  unfold World.enqueueFront Fits
  split_ifs with hidle
  · exact iff_of_true h (hidle.imp_right .inl)
  · obtain ⟨hne, hopen⟩ := not_or.mp hidle
    simp only [hne, hopen, false_or, Bool.false_eq_true]
    constructor
    · rintro ⟨hlength, hbytes, -⟩
      exact ⟨by simpa using hlength, hbytes⟩
    · rintro ⟨hlength, hbytes⟩
      exact ⟨by simpa using hlength, hbytes, h.2.2⟩

theorem mem_perm_gaps (hgood : w.Good) (order : List (Bytes × GapRange)) (t : Bytes)
    (g : GapRange) :
    (t, g) ∈ (if order.Perm w.conn.gaps.toList then order else w.conn.gaps.toList) ↔
      rangeOf t w.dropped = some g := by
  rw [← hgood.mirrors t, ← Gaps.mem_toList]
  split_ifs with hperm
  · exact hperm.mem_iff
  · exact Iff.rfl

theorem bounded_drain_iff (hgood : w.Good) (h : w.Bounded)
    (order : List (Bytes × GapRange)) : (w.drain order).Bounded ↔ w.Fits (.drain order) := by
  obtain ⟨hlength, hbytes, hreports⟩ := h
  unfold World.drain Fits
  cases hbatch : w.batch with
  | some batch => exact iff_of_true ⟨hlength, hbytes, hreports⟩ nofun
  | none =>
    have hreport := reported_iff (mem_perm_gaps hgood order)
    dsimp only
    rw [← hreport]
    simp only [true_implies]
    constructor
    · rintro ⟨-, -, hreported⟩
      exact hreported _ (List.mem_append_right _ (List.mem_singleton_self _))
    · intro hreported
      refine ⟨Nat.zero_le _, Int.natCast_nonneg maxQueueBytes, fun r hr => ?_⟩
      rcases List.mem_append.mp hr with hr | hr
      · exact hreports r hr
      · rw [List.mem_singleton.mp hr]
        exact hreported

theorem bounded_write (h : w.Bounded) (ok : Bool) : (w.write ok).Bounded := by
  unfold World.write
  match w.batch with
  | none => exact h
  | some ⟨ctrl :: ctrls, data, closeSet⟩ =>
    cases ok with
    | false => exact h
    | true => exact h
  | some ⟨[], ev :: data, closeSet⟩ =>
    obtain ⟨seen, hseen⟩ := checked_snd w.conn ev
    dsimp only
    generalize (if ev.id = [] then (false, w.conn) else w.conn.isDup ev.topic ev.id) = checked
      at hseen ⊢
    obtain ⟨dup, conn⟩ := checked
    obtain rfl : conn = _ := hseen
    split_ifs
    · exact h
    · exact h
    · exact h
  | some ⟨[], [], some (code, reason)⟩ => exact h
  | some ⟨[], [], none⟩ => exact h

theorem bounded_step_iff (hgood : w.Good) (h : w.Bounded) (op : Op) :
    (w.step op).Bounded ↔ w.Fits op := by
  cases op with
  | enqueue ev => exact bounded_enqueue_iff hgood h ev
  | enqueueFront evs => exact bounded_enqueueFront_iff h evs
  | drain order => exact bounded_drain_iff hgood h order
  | enqueueControl data =>
    refine iff_of_true ?_ trivial
    unfold World.step World.enqueueControl
    split_ifs
    · exact h
    · exact h
  | close code reason =>
    refine iff_of_true ?_ trivial
    unfold World.step Conn.closeLocked
    cases w.conn.closeSet with
    | none => exact h
    | some _ => exact h
  | write ok => exact iff_of_true (bounded_write h ok) trivial
  | finish => exact iff_of_true h trivial

/-! ## Runs of a connection -/

/-- **The queues of a connection, exactly.**  In every run no empty queue is indexed, the
bytes are those of the queue, and no control event of an open connection is lost.  The
limits hold throughout and every gap is reported as it is, if and only if every step fits. -/
theorem queue_bounds_iff (ops : List Op) :
    Always step Sound {} ops ∧ (Always step Bounded {} ops ↔ Each step Fits {} ops) := by
  have hgood : Always step Good {} ops := fun done _ =>
    run_invariant (fun w op h => h.step op) good_init done
  refine ⟨fun done hdone => (hgood done hdone).sound, ?_⟩
  have hboth : Always step (fun w => w.Good ∧ w.Bounded) {} ops ↔ Each step Fits {} ops :=
    always_iff_each (fun w op h => by
      rw [and_iff_right (h.1.step op)]
      exact bounded_step_iff h.1 h.2 op) ⟨good_init, by decide, by decide, by simp⟩ ops
  rw [← hboth]
  exact ⟨fun h done hdone => ⟨hgood done hdone, h done hdone⟩, fun h done hdone =>
    (h done hdone).2⟩

/-! ### Runs that do harm -/

/-- An event of a state topic with data of some length. -/
def sample (id : String) (n : Nat) (h : n ≤ maxData) : Event :=
  ⟨Foundation.bytes id, Foundation.bytes "list:case", List.replicate n 0, false,
    by rwa [List.length_replicate]⟩

theorem length_data_sample {id : String} {n : Nat} (h : n ≤ maxData) :
    (sample id n h).data.length = n := List.length_replicate ..

/-- Empty events with different ids. -/
def samples (n : Nat) : List Event :=
  (List.range n).map fun i => sample (toString (10 + i)) 0 (Nat.zero_le _)

/-- More replayed events than the queue may hold. -/
def replayed : List Op := [.enqueueFront (samples 257)]

/-- An empty event is dropped to make room for one byte. -/
def crowded : List Op :=
  [.enqueue (sample "1" 0 (by decide)), .enqueue (sample "2" maxData le_rfl),
    .enqueue (sample "3" maxData le_rfl), .enqueue (sample "4" 262144 (by decide)),
    .enqueue (sample "5" 1 (by decide))]

/-- The older of two dropped events was queued behind the newer one. -/
def overtaken : List Op :=
  [.enqueueFront (sample "5" 0 (by decide) :: sample "3" 0 (by decide) :: samples 254),
    .enqueue (sample "6" 0 (by decide)), .enqueue (sample "7" 0 (by decide)), .drain []]

/-- The limits are passed by replayed events and by an event that finds too little room,
and the gap from "5" to "3" does not hold the dropped "3". -/
theorem queue_bounds_broken : maxQueueLen < (run step {} replayed).conn.dataQ.length ∧
      maxQueueBytes < (run step {} crowded).conn.bytes ∧
      (run step {} overtaken).reports.map (·.2) =
        [[(Foundation.bytes "list:case", ⟨Foundation.bytes "5", Foundation.bytes "3"⟩)]] := by
  refine ⟨by decide +kernel, ?_, by decide +kernel⟩
  simp [crowded, World.step, World.enqueue, Conn.overflows, Conn.push, Conn.dropOldest,
    length_data_sample, maxQueueLen, maxQueueBytes, maxData, payloadCap,
    show ∀ n h, (sample "5" n h).chat = false from fun _ _ => rfl]

end World

end Windrose.Realtime

/-
  Audit/Ingest.lean --- from Kafka to the record store.

  Source: services/audit-service/internal/ingest/consumer.go (consume, fetchBatch,
  processBatch, toDLQ), processor.go (HandleBatch, buildPending) and
  domain/domain.go (ValidateEnvelope).

  Any number of consumers run at the same time over one Redis, one record store
  and one Kafka.  A step is one round trip of one consumer, with how it ends as an
  input; `restart` is a crash or a cancelled context, at any point: the consumer
  drops its batch and reads on from the committed offsets.  A read of
  a message is its next one in a partition, and a commit moves the partition behind
  the last message of the batch.

  The JSON decoding of an envelope is a parameter.  The chain positions a batch is
  given are an input of the step (Audit/Chain.lean says which they are), and the
  columns of a row that only display it, like the SIEM copy, are left out.
-/
import Windrose.Foundation.Runs
import Windrose.Audit.Chain

set_option autoImplicit false

namespace Windrose.Audit.Ingest

open Windrose.Foundation

/-! ## Envelopes -/

/-- `Envelope`; the payload is its canonical encoding. -/
structure Envelope where
  eventID : Uuid
  eventType : Bytes
  tenantID : Uuid
  actorType : Bytes
  actorID : Bytes
  occurredAt : Time
  payload : Bytes
  deriving DecidableEq

def uuidNil : Uuid := Uuid.ofByte 0

/-- `TrimSpace` leaves nothing: the text is white space of Unicode in UTF-8. -/
def isBlank : Bytes → Bool
  | [] => true
  | 0xC2 :: 0x85 :: s => isBlank s
  | 0xC2 :: 0xA0 :: s => isBlank s
  | 0xE1 :: 0x9A :: 0x80 :: s => isBlank s
  | 0xE2 :: 0x80 :: c :: s =>
    ((0x80 ≤ c && c ≤ 0x8A) || c = 0xA8 || c = 0xA9 || c = 0xAF) && isBlank s
  | 0xE2 :: 0x81 :: 0x9F :: s => isBlank s
  | 0xE3 :: 0x80 :: 0x80 :: s => isBlank s
  | c :: s => ((9 ≤ c && c ≤ 13) || c = 32) && isBlank s

/-- The required fields that are missing, in the order of the message. -/
def missingFields (e : Envelope) : List Bytes :=
  (if e.eventID = uuidNil then [bytes "event_id"] else []) ++
    (if isBlank e.eventType then [bytes "event_type"] else []) ++
    (if e.tenantID = uuidNil then [bytes "tenant_id"] else []) ++
    (if isBlank e.actorType || isBlank e.actorID then [bytes "actor"] else []) ++
    (if e.occurredAt.instant = (0, 0) then [bytes "occurred_at"] else [])

/-- The errors of `ValidateEnvelope`. -/
inductive EnvelopeError where
  | missing (fields : List Bytes)
  | actorType (t : Bytes)
  deriving DecidableEq

/-- `ValidateEnvelope`. -/
def validateEnvelope (e : Envelope) : Except EnvelopeError Unit :=
  if missingFields e ≠ [] then .error (.missing (missingFields e))
  else if e.actorType ∈ [bytes "user", bytes "service", bytes "agent", bytes "platform"] then .ok ()
  else .error (.actorType e.actorType)

/-- The DLQ reasons. -/
inductive Reason where
  | envelopeInvalid (cause : EnvelopeError)
  | payloadDecode
  deriving DecidableEq

/-- `buildPending`, with the position the chain gives the event. -/
def buildPending (sum256 : Bytes → Bytes) (e : Envelope) (link : Link) : Except Reason Record :=
  match validateEnvelope e with
  | .error cause => .error (.envelopeInvalid cause)
  | .ok () => .ok
      { eventID := e.eventID
        tenantID := e.tenantID
        occurredAt := e.occurredAt.utc.truncateMs
        payloadDigest := sha256Hex sum256 e.payload
        chainDate := link.chainDate
        chainSeq := link.seq
        chainHash := link.hash }

/-! ## Consumers -/

/-- A message: its place in Kafka and its value. -/
structure Message (π : Type) where
  partition : π
  offset : Nat
  value : Bytes
  deriving DecidableEq

/-- `Item`, with the message it belongs to. -/
abbrev Item (π : Type) : Type := Message π × Envelope

/-- `Consumer`: the decoding, the digest, and which of its parts are configured. -/
structure Consumer where
  decode : Bytes → Option Envelope
  sum256 : Bytes → Bytes
  hasDedup : Bool
  hasCH : Bool
  hasDLQ : Bool

/-- Where a consumer is, and the batch it works on. -/
inductive Phase (π : Type) where
  | fetching (batch : List (Message π))
  /-- the loop of `processBatch` over the messages -/
  | scanning (batch rest : List (Message π)) (items : List (Item π))
  /-- `toDLQ` of a message that does not decode -/
  | poisoned (batch : List (Message π)) (m : Message π) (rest : List (Message π))
      (items : List (Item π))
  /-- the marker is set: `GetEvent` -/
  | looking (batch : List (Message π)) (m : Message π) (env : Envelope)
      (rest : List (Message π)) (items : List (Item π))
  | handling (batch : List (Message π)) (items : List (Item π))
  /-- `toDLQ` of the terminal errors; none is left: the batch may be committed -/
  | quarantining (batch : List (Message π)) (rest : List (Message π × Reason))

namespace Phase

variable {π : Type}

/-- The messages of the batch that are still to be stored or quarantined. -/
def outstanding : Phase π → List (Message π)
  | fetching batch => batch
  | scanning _ rest items => rest ++ items.map (·.1)
  | poisoned _ m rest items => m :: (rest ++ items.map (·.1))
  | looking _ m _ rest items => m :: (rest ++ items.map (·.1))
  | handling _ items => items.map (·.1)
  | quarantining _ rest => rest.map (·.1)

/-- The batch the consumer works on. -/
def batch : Phase π → List (Message π)
  | fetching batch => batch
  | scanning batch _ _ => batch
  | poisoned batch _ _ _ => batch
  | looking batch _ _ _ _ => batch
  | handling batch _ => batch
  | quarantining batch _ => batch

/-- The message the loop is at. -/
def next : Phase π → Option (Message π)
  | scanning _ (m :: _) _ => some m
  | _ => none

end Phase

/-- What the consumers share, and where each of them is. -/
structure World (ι π : Type) where
  /-- the keys `audit:dedup:<event_id>` -/
  markers : Uuid → Bool
  rows : List Record
  dlq : List (Message π × Reason)
  committed : π → Nat
  /-- the offset a consumer reads next -/
  position : ι → π → Nat
  phase : ι → Phase π

/-- How `SetNX` ends: it answers, or fails with or without effect. -/
inductive SetNX where
  | answers
  | fails (wrote : Bool)

/-- How `HandleBatch` ends: everything is stored, or it fails and the rows `landed`
were stored all the same. -/
inductive Handled where
  | stored (link : Nat → Link)
  | fails (link : Nat → Link) (landed : Record → Bool)

/-- The round trips. -/
inductive Event (ι π : Type) where
  | fetch (i : ι) (p : π)
  | start (i : ι)
  | scan (i : ι) (redis : SetNX)
  | lookup (i : ι) (answers : Bool)
  /-- a publish to the DLQ that is acknowledged, or not, and then delivered or not -/
  | publish (i : ι) (acknowledged delivered : Bool)
  | handle (i : ι) (out : Handled)
  | commit (i : ι) (took : Bool)
  | restart (i : ι)

namespace World

variable {ι π : Type} [DecidableEq ι]

/-- Nothing is read yet; the markers, the rows and the DLQ are whatever earlier
runs left. -/
def init (markers : Uuid → Bool) (rows : List Record) (dlq : List (Message π × Reason)) :
    World ι π :=
  { markers, rows, dlq, committed := fun _ => 0, position := fun _ _ => 0,
    phase := fun _ => .fetching [] }

def setPhase (w : World ι π) (i : ι) (p : Phase π) : World ι π :=
  { w with phase := Function.update w.phase i p }

/-- `SetNX` that takes effect. -/
def mark (w : World ι π) (e : Uuid) : World ι π :=
  { w with markers := Function.update w.markers e true }

def store (w : World ι π) (rs : List Record) : World ι π := { w with rows := w.rows ++ rs }

def quarantine (w : World ι π) (m : Message π) (r : Reason) : World ι π :=
  { w with dlq := w.dlq ++ [(m, r)] }

/-- `GetEvent` finds a row. -/
def hasEvent (w : World ι π) (tenant event : Uuid) : Bool :=
  w.rows.any fun r => r.tenantID = tenant && r.eventID = event

end World

/-- The offsets after `CommitMessages`: in each partition behind the last message. -/
def commitMessages {π : Type} [DecidableEq π] (committed : π → Nat) (batch : List (Message π))
    (p : π) : Nat :=
  (((batch.filter (·.partition = p)).map (·.offset + 1)).max?).getD (committed p)

namespace Consumer

variable {ι π : Type} [DecidableEq ι] [DecidableEq π] (c : Consumer)

/-- The rows of a batch, and the messages that are quarantined instead. -/
def pending (link : Nat → Link) (items : List (Item π)) : List (Item π × Except Reason Record) :=
  items.zipIdx.map fun p => (p.1, buildPending c.sum256 p.1.2 (link p.2))

def records (link : Nat → Link) (items : List (Item π)) : List Record :=
  (c.pending link items).filterMap fun p => p.2.toOption

def terminals (link : Nat → Link) (items : List (Item π)) : List (Message π × Reason) :=
  (c.pending link items).filterMap fun p =>
    match p.2 with
    | .error r => some (p.1.1, r)
    | .ok _ => none

/-- The message goes on to `HandleBatch`. -/
def accept (w : World ι π) (i : ι) (batch rest : List (Message π)) (items : List (Item π))
    (it : Item π) : World ι π :=
  w.setPhase i (.scanning batch rest (items ++ [it]))

/-- One message of the loop of `processBatch`. -/
def scan (w : World ι π) (i : ι) (redis : SetNX) (batch : List (Message π)) (m : Message π)
    (rest : List (Message π)) (items : List (Item π)) : World ι π :=
  match c.decode m.value with
  | none => w.setPhase i (.poisoned batch m rest items)
  | some env =>
    if c.hasDedup ∧ env.eventID ≠ uuidNil then
      match redis with
      | .fails wrote => accept (if wrote then w.mark env.eventID else w) i batch rest items (m, env)
      | .answers =>
        if w.markers env.eventID then
          if c.hasCH ∧ env.tenantID ≠ uuidNil then
            w.setPhase i (.looking batch m env rest items)
          else w.setPhase i (.scanning batch rest items)
        else accept (w.mark env.eventID) i batch rest items (m, env)
    else accept w i batch rest items (m, env)

/-- One round trip; one that a consumer cannot make changes nothing. -/
def step (log : π → List Bytes) (w : World ι π) : Event ι π → World ι π
  | .fetch i p =>
    match w.phase i, (log p)[w.position i p]? with
    | .fetching batch, some value =>
      { w with
        position := Function.update w.position i
          (Function.update (w.position i) p (w.position i p + 1))
        phase := Function.update w.phase i
          (.fetching (batch ++ [⟨p, w.position i p, value⟩])) }
    | _, _ => w
  | .start i =>
    match w.phase i with
    | .fetching (m :: batch) => w.setPhase i (.scanning (m :: batch) (m :: batch) [])
    | _ => w
  | .scan i redis =>
    match w.phase i with
    | .scanning batch [] [] => w.setPhase i (.quarantining batch [])
    | .scanning batch [] (it :: items) => w.setPhase i (.handling batch (it :: items))
    | .scanning batch (m :: rest) items => c.scan w i redis batch m rest items
    | _ => w
  | .lookup i answers =>
    match w.phase i with
    | .looking batch m env rest items =>
      if answers ∧ w.hasEvent env.tenantID env.eventID then
        w.setPhase i (.scanning batch rest items)
      else accept w i batch rest items (m, env)
    | _ => w
  | .publish i acknowledged delivered =>
    if !c.hasDLQ then w
    else
      match w.phase i with
      | .poisoned batch m rest items =>
        if acknowledged then
          (w.quarantine m .payloadDecode).setPhase i (.scanning batch rest items)
        else if delivered then w.quarantine m .payloadDecode
        else w
      | .quarantining batch ((m, r) :: rest) =>
        if acknowledged then (w.quarantine m r).setPhase i (.quarantining batch rest)
        else if delivered then w.quarantine m r
        else w
      | _ => w
  | .handle i out =>
    match w.phase i with
    | .handling batch items =>
      match out with
      | .stored link =>
        (w.store (c.records link items)).setPhase i
          (.quarantining batch (c.terminals link items))
      | .fails link landed => w.store ((c.records link items).filter landed)
    | _ => w
  | .commit i took =>
    match w.phase i with
    | .quarantining batch [] =>
      { w with
        committed := if took then commitMessages w.committed batch else w.committed
        phase := Function.update w.phase i (.fetching []) }
    | _ => w
  | .restart i =>
    { w with
      position := Function.update w.position i w.committed
      phase := Function.update w.phase i (.fetching []) }

/-! ## What must not be lost -/

section Loss

variable {ι π : Type} (c : Consumer)

/-- The message is in the DLQ, or its event is stored. -/
def Covered (w : World ι π) (m : Message π) : Prop :=
  (∃ p ∈ w.dlq, p.1 = m) ∨
    ∃ env ∈ c.decode m.value, w.hasEvent env.tenantID env.eventID = true

instance [DecidableEq π] (w : World ι π) (m : Message π) : Decidable (Covered c w m) :=
  inferInstanceAs (Decidable (_ ∨ _))

/-- Every message behind a committed offset is covered. -/
def Lossless (log : π → List Bytes) (w : World ι π) : Prop :=
  ∀ p o value, o < w.committed p → (log p)[o]? = some value → Covered c w ⟨p, o, value⟩

/-- The items carry the envelopes of their messages. -/
def ItemsOk (items : List (Item π)) : Prop := ∀ it ∈ items, c.decode it.1.value = some it.2

/-- What a phase knows. -/
def PhaseOk : Phase π → Prop
  | .scanning _ _ items => ItemsOk c items
  | .poisoned _ _ _ items => ItemsOk c items
  | .looking _ m env _ items => c.decode m.value = some env ∧ ItemsOk c items
  | .handling _ items => ItemsOk c items
  | _ => True

/-- What a consumer has read is covered or still to be done. -/
structure Ready (log : π → List Bytes) (w : World ι π) (i : ι) : Prop where
  fetched : ∀ p o value, o < w.position i p → (log p)[o]? = some value →
    Covered c w ⟨p, o, value⟩ ∨ ⟨p, o, value⟩ ∈ (w.phase i).outstanding
  batch : ∀ m ∈ (w.phase i).batch, m.offset < w.position i m.partition
  phase : PhaseOk c (w.phase i)

/-- The invariant. -/
structure Inv (log : π → List Bytes) (w : World ι π) : Prop where
  committed : Lossless c log w
  ready : ∀ i, Ready c log w i

variable {c}

variable {w w' : World ι π}

theorem Covered.mono {m : Message π} (h : Covered c w m)
    (hrows : w.rows ⊆ w'.rows) (hdlq : w.dlq ⊆ w'.dlq) : Covered c w' m := by
  obtain ⟨p, hp, rfl⟩ | ⟨env, hdecode, hevent⟩ := h
  · exact .inl ⟨p, hdlq hp, rfl⟩
  · refine .inr ⟨env, hdecode, ?_⟩
    obtain ⟨r, hr, hmatch⟩ := List.any_eq_true.mp hevent
    exact List.any_eq_true.mpr ⟨r, hrows hr, hmatch⟩

variable {log : π → List Bytes}

theorem Lossless.mono (h : Lossless c log w)
    (hrows : w.rows ⊆ w'.rows) (hdlq : w.dlq ⊆ w'.dlq) (hcommitted : w'.committed = w.committed) :
    Lossless c log w' := by
  intro q o value ho hvalue
  rw [hcommitted] at ho
  exact (h q o value ho hvalue).mono hrows hdlq

theorem Inv.update (h : Inv c log w) {i : ι}
    (hrows : w.rows ⊆ w'.rows) (hdlq : w.dlq ⊆ w'.dlq)
    (hother : ∀ j, j ≠ i → w'.position j = w.position j ∧ w'.phase j = w.phase j)
    (hcommitted : Lossless c log w') (hready : Ready c log w' i) : Inv c log w' := by
  refine ⟨hcommitted, fun j => ?_⟩
  by_cases hj : j = i
  · subst hj
    exact hready
  · obtain ⟨hposition, hphase⟩ := hother j hj
    refine ⟨?_, ?_, ?_⟩
    · intro q o value ho hvalue
      rw [hposition] at ho
      rw [hphase]
      exact ((h.ready j).fetched q o value ho hvalue).imp_left fun hcov => hcov.mono hrows hdlq
    · rw [hposition, hphase]
      exact (h.ready j).batch
    · rw [hphase]
      exact (h.ready j).phase

theorem Inv.mark {w : World ι π} (h : Inv c log w) (e : Uuid) :
    Inv c log (w.mark e) :=
  ⟨h.committed, fun i => ⟨(h.ready i).fetched, (h.ready i).batch, (h.ready i).phase⟩⟩

theorem Ready.idle {w' : World ι π} {i : ι} (hphase : w'.phase i = .fetching [])
    (hread : ∀ q o v, o < w'.position i q → (log q)[o]? = some v → Covered c w' ⟨q, o, v⟩) :
    Ready c log w' i := by
  refine ⟨fun q o v ho hv => .inl (hread q o v ho hv), ?_, ?_⟩
  · intro m hm
    rw [hphase] at hm
    cases hm
  · rw [hphase]
    exact trivial

end Loss

/-! ## Moves of one consumer -/

section Moves

variable {ι π : Type} [DecidableEq ι] {c : Consumer} {log : π → List Bytes} {w : World ι π}

variable {i : ι} {p : Phase π}

theorem Inv.move {w' : World ι π} (h : Inv c log w)
    (hrows : w.rows ⊆ w'.rows) (hdlq : w.dlq ⊆ w'.dlq) (hcommitted : w'.committed = w.committed)
    (hposition : w'.position = w.position) (hphase : w'.phase = Function.update w.phase i p)
    (hdone : ∀ m ∈ (w.phase i).outstanding, Covered c w' m ∨ m ∈ p.outstanding)
    (hbatch : p.batch ⊆ (w.phase i).batch) (hok : PhaseOk c p) : Inv c log w' := by
  have hself : w'.phase i = p := by rw [hphase, Function.update_self]
  refine h.update (i := i) hrows hdlq ?_ (h.committed.mono hrows hdlq hcommitted) ⟨?_, ?_, ?_⟩
  · intro j hj
    rw [hposition, hphase, Function.update_of_ne hj]
    exact ⟨rfl, rfl⟩
  · intro q o value ho hvalue
    rw [hposition] at ho
    rw [hself]
    obtain hcov | hout := (h.ready i).fetched q o value ho hvalue
    · exact .inl (hcov.mono hrows hdlq)
    · exact hdone _ hout
  · intro m hm
    rw [hself] at hm
    rw [hposition]
    exact (h.ready i).batch m (hbatch hm)
  · rw [hself]
    exact hok

theorem Inv.grow (h : Inv c log w) (i : ι) {w' : World ι π} (hrows : w.rows ⊆ w'.rows)
    (hdlq : w.dlq ⊆ w'.dlq) (hcommitted : w'.committed = w.committed)
    (hposition : w'.position = w.position) (hphase : w'.phase = w.phase) : Inv c log w' := by
  refine h.move (i := i) (p := w.phase i) hrows hdlq hcommitted hposition ?_
    (fun _ hm => .inr hm) (List.Subset.refl _) (h.ready i).phase
  rw [hphase, Function.update_eq_self]

theorem Inv.setPhase (h : Inv c log w)
    (hdone : ∀ m ∈ (w.phase i).outstanding, Covered c w m ∨ m ∈ p.outstanding)
    (hbatch : p.batch ⊆ (w.phase i).batch) (hok : PhaseOk c p) : Inv c log (w.setPhase i p) :=
  h.move (List.Subset.refl _) (List.Subset.refl _) rfl rfl rfl hdone hbatch hok

variable {items : List (Item π)} {m : Message π}

theorem Inv.accept (h : Inv c log w) {batch rest : List (Message π)}
     {env : Envelope}
    (hout : ∀ x ∈ (w.phase i).outstanding, x = m ∨ x ∈ rest ∨ x ∈ items.map (·.1))
    (hbatch : batch ⊆ (w.phase i).batch) (hitems : ItemsOk c items)
    (hdecode : c.decode m.value = some env) :
    Inv c log (Consumer.accept w i batch rest items (m, env)) := by
  refine h.setPhase ?_ hbatch ?_
  · intro x hx
    right
    simp only [Phase.outstanding, List.map_append, List.map_cons, List.map_nil, List.mem_append,
      List.mem_singleton]
    obtain rfl | hrest | hitem := hout x hx
    · exact .inr (.inr rfl)
    · exact .inl hrest
    · exact .inr (.inl hitem)
  · intro it hit
    obtain hit | hit := List.mem_append.mp hit
    · exact hitems it hit
    · rw [List.mem_singleton.mp hit]
      exact hdecode

/-- The skip of a marked message that the store is not asked about. -/
def Safe (c : Consumer) (w : World ι π) : Event ι π → Prop
  | .scan i .answers => ∀ m ∈ (w.phase i).next, ∀ env ∈ c.decode m.value,
      c.hasDedup = true → env.eventID ≠ uuidNil → w.markers env.eventID = true →
      ¬(c.hasCH = true ∧ env.tenantID ≠ uuidNil) → Covered c w m
  | _ => True

instance [DecidableEq π] (w : World ι π) : ∀ ev, Decidable (Safe c w ev)
  | .scan i .answers => inferInstanceAs (Decidable (∀ m ∈ (w.phase i).next, _))
  | .scan _ (.fails _) | .fetch _ _ | .start _ | .lookup _ _ | .publish _ _ _ | .handle _ _
  | .commit _ _ | .restart _ => isTrue trivial

theorem Inv.scan (h : Inv c log w) {redis : SetNX} {batch rest : List (Message π)}

    (hphase : w.phase i = .scanning batch (m :: rest) items) (hsafe : Safe c w (.scan i redis)) :
    Inv c log (c.scan w i redis batch m rest items) := by
  have hok := (h.ready i).phase
  rw [hphase] at hok
  have hbatch : batch ⊆ (w.phase i).batch := by
    rw [hphase]
    exact List.Subset.refl _
  have hout : ∀ x ∈ (w.phase i).outstanding, x = m ∨ x ∈ rest ∨ x ∈ items.map (·.1) := by
    intro x hx
    rw [hphase] at hx
    simpa [Phase.outstanding, or_assoc] using hx
  unfold Consumer.scan
  cases hdecode : c.decode m.value with
  | none =>
    refine h.setPhase (fun x hx => .inr ?_) hbatch hok
    simpa [Phase.outstanding, or_assoc] using hout x hx
  | some env =>
    simp only
    split
    · next hdedup =>
      cases redis with
      | fails wrote =>
        simp only
        split
        · exact (h.mark env.eventID).accept hout hbatch hok hdecode
        · exact h.accept hout hbatch hok hdecode
      | answers =>
        simp only
        split
        · next hmarked =>
          split
          · refine h.setPhase (fun x hx => .inr ?_) hbatch ⟨hdecode, hok⟩
            simpa [Phase.outstanding, or_assoc] using hout x hx
          · next hblind =>
            have hcovered := hsafe m (by rw [hphase]; rfl) env hdecode hdedup.1
              hdedup.2 hmarked hblind
            refine h.setPhase (fun x hx => ?_) hbatch hok
            obtain rfl | hrest | hitem := hout x hx
            · exact .inl hcovered
            · exact .inr (List.mem_append_left _ hrest)
            · exact .inr (List.mem_append_right _ hitem)
        · exact (h.mark env.eventID).accept hout hbatch hok hdecode
    · exact h.accept hout hbatch hok hdecode

theorem of_buildPending {sum256 : Bytes → Bytes} {e : Envelope} {link : Link} {r : Record}
    (h : buildPending sum256 e link = .ok r) : r.tenantID = e.tenantID ∧ r.eventID = e.eventID := by
  unfold buildPending at h
  split at h
  · cases h
  · cases h
    exact ⟨rfl, rfl⟩

/-- Every item of a batch has its row, or its message is quarantined. -/
theorem mem_records_or_terminals (c : Consumer) (link : Nat → Link)
    {it : Item π} (h : it ∈ items) :
    (∃ r ∈ c.records link items, r.tenantID = it.2.tenantID ∧ r.eventID = it.2.eventID) ∨
      ∃ reason, (it.1, reason) ∈ c.terminals link items := by
  have hidx : ∃ j, (it, j) ∈ items.zipIdx := by
    rw [← List.zipIdx_map_fst 0 items] at h
    obtain ⟨⟨x, j⟩, hmem, rfl⟩ := List.mem_map.mp h
    exact ⟨j, hmem⟩
  obtain ⟨j, hj⟩ := hidx
  have hpending : (it, buildPending c.sum256 it.2 (link j)) ∈ c.pending link items :=
    List.mem_map.mpr ⟨(it, j), hj, rfl⟩
  cases hbuild : buildPending c.sum256 it.2 (link j) with
  | ok r =>
    rw [hbuild] at hpending
    exact .inl ⟨r, List.mem_filterMap.mpr ⟨_, hpending, rfl⟩, of_buildPending hbuild⟩
  | error reason =>
    rw [hbuild] at hpending
    exact .inr ⟨reason, List.mem_filterMap.mpr ⟨_, hpending, rfl⟩⟩

theorem Inv.publish (h : Inv c log w) {r : Reason}
    (hout : ∀ x ∈ (w.phase i).outstanding, x = m ∨ x ∈ p.outstanding)
    (hbatch : p.batch ⊆ (w.phase i).batch) (hok : PhaseOk c p) :
    Inv c log ((w.quarantine m r).setPhase i p) := by
  refine h.move (i := i) (List.Subset.refl _) (List.subset_append_left _ _) rfl rfl rfl ?_
    hbatch hok
  intro x hx
  obtain rfl | hx := hout x hx
  · exact .inl (.inl ⟨(x, r), List.mem_append_right _ (List.mem_singleton_self _), rfl⟩)
  · exact .inr hx

theorem Inv.restart (h : Inv c log w) (i : ι) : Inv c log { w with
      position := Function.update w.position i w.committed
      phase := Function.update w.phase i (.fetching []) } := by
  refine h.update (i := i) (List.Subset.refl _) (List.Subset.refl _)
    (fun j hj => ⟨Function.update_of_ne hj _ _, Function.update_of_ne hj _ _⟩) h.committed
    (Ready.idle (Function.update_self ..) ?_)
  intro q o v ho hv
  simp only [Function.update_self] at ho
  exact h.committed q o v ho hv

theorem Inv.handle (h : Inv c log w) {batch : List (Message π)}
    (hphase : w.phase i = .handling batch items) (link : Nat → Link) :
    Inv c log ((w.store (c.records link items)).setPhase i
      (.quarantining batch (c.terminals link items))) := by
  have hok := (h.ready i).phase
  rw [hphase] at hok
  refine h.move (i := i) (List.subset_append_left _ _) (List.Subset.refl _) rfl rfl rfl ?_ ?_
    trivial
  · intro m hm
    rw [hphase] at hm
    obtain ⟨it, hit, rfl⟩ := List.mem_map.mp hm
    obtain ⟨r, hr, htenant, hevent⟩ | ⟨reason, hterm⟩ := mem_records_or_terminals c link hit
    · refine .inl (.inr ⟨it.2, hok it hit, ?_⟩)
      refine List.any_eq_true.mpr ⟨r, List.mem_append_right _ hr, ?_⟩
      simp [htenant, hevent]
    · exact .inr (List.mem_map.mpr ⟨_, hterm, rfl⟩)
  · rw [hphase]
    exact List.Subset.refl _

end Moves

/-! ## The steps keep the invariant -/

section Steps

variable {ι π : Type} [DecidableEq ι] [DecidableEq π] {c : Consumer} {log : π → List Bytes}
  {w : World ι π}

theorem commitMessages_cases (committed : π → Nat) (batch : List (Message π)) (p : π) :
    commitMessages committed batch p = committed p ∨
      ∃ m ∈ batch, m.partition = p ∧ commitMessages committed batch p = m.offset + 1 := by
  unfold commitMessages
  cases hmax : ((batch.filter (·.partition = p)).map (·.offset + 1)).max? with
  | none => exact .inl rfl
  | some n =>
    obtain ⟨m, hm, hn⟩ := List.mem_map.mp (List.max?_mem hmax)
    rw [List.mem_filter, decide_eq_true_eq] at hm
    exact .inr ⟨m, hm.1, hm.2, hn.symm⟩

theorem Inv.fetch (h : Inv c log w) {i : ι} {p : π} {batch : List (Message π)} {value : Bytes}
    (hphase : w.phase i = .fetching batch) (hvalue : (log p)[w.position i p]? = some value) :
    Inv c log { w with
      position := Function.update w.position i
        (Function.update (w.position i) p (w.position i p + 1))
      phase := Function.update w.phase i
        (.fetching (batch ++ [⟨p, w.position i p, value⟩])) } := by
  have hready := h.ready i
  refine h.update (i := i) (List.Subset.refl _) (List.Subset.refl _)
    (fun j hj => ⟨Function.update_of_ne hj _ _, Function.update_of_ne hj _ _⟩) h.committed
    ⟨?_, ?_, ?_⟩
  · intro q o v ho hv
    simp only [Function.update_self] at ho ⊢
    by_cases hold : o < w.position i q
    · refine (hready.fetched q o v hold hv).imp_right fun hout => ?_
      rw [hphase] at hout
      exact List.mem_append_left _ hout
    · -- The message that was read just now.
      right
      by_cases hq : q = p
      · subst hq
        rw [Function.update_self] at ho
        have ho' : o = w.position i q := by omega
        subst ho'
        rw [hvalue, Option.some.injEq] at hv
        subst hv
        exact List.mem_append_right _ (List.mem_singleton_self _)
      · rw [Function.update_of_ne hq] at ho
        exact absurd ho hold
  · intro m hm
    simp only [Function.update_self] at hm ⊢
    obtain hm | hm := List.mem_append.mp hm
    · have hlt := hready.batch m (by rw [hphase]; exact hm)
      by_cases hq : m.partition = p
      · rw [hq, Function.update_self]
        rw [hq] at hlt
        omega
      · rw [Function.update_of_ne hq]
        exact hlt
    · rw [List.mem_singleton.mp hm, Function.update_self]
      exact Nat.lt_succ_self _
  · simp only [Function.update_self]
    exact trivial

theorem Inv.commit (h : Inv c log w) {i : ι} {batch : List (Message π)}
    (hphase : w.phase i = .quarantining batch []) (took : Bool) : Inv c log { w with
      committed := if took then commitMessages w.committed batch else w.committed
      phase := Function.update w.phase i (.fetching []) } := by
  have hread : ∀ q o v, o < w.position i q → (log q)[o]? = some v → Covered c w ⟨q, o, v⟩ := by
    intro q o v ho hv
    obtain hcov | hout := (h.ready i).fetched q o v ho hv
    · exact hcov
    · rw [hphase] at hout
      cases hout
  refine h.update (i := i) (List.Subset.refl _) (List.Subset.refl _)
    (fun j hj => ⟨rfl, Function.update_of_ne hj _ _⟩) ?_
    (Ready.idle (Function.update_self ..) hread)
  intro q o v ho hv
  cases took with
  | false => exact h.committed q o v ho hv
  | true =>
    simp only [if_true] at ho
    obtain heq | ⟨m, hm, rfl, heq⟩ := commitMessages_cases w.committed batch q
    · rw [heq] at ho
      exact h.committed q o v ho hv
    · rw [heq] at ho
      have hlt := (h.ready i).batch m (by rw [hphase]; exact hm)
      exact hread m.partition o v (by omega) hv

theorem Inv.step_start (h : Inv c log w) (i : ι) : Inv c log (c.step log w (.start i)) := by
  simp only [Consumer.step]
  split
  · next m batch hphase =>
    refine h.setPhase (fun x hx => .inr ?_) ?_ ?_
    · rw [hphase] at hx
      simpa [Phase.outstanding] using hx
    · rw [hphase]
      exact List.Subset.refl _
    · intro it hit
      cases hit
  · exact h

theorem Inv.step_scan (h : Inv c log w) {i : ι} {redis : SetNX} (hsafe : Safe c w (.scan i redis)) :
    Inv c log (c.step log w (.scan i redis)) := by
  simp only [Consumer.step]
  split
  · next batch hphase =>
    refine h.setPhase (fun x hx => ?_) ?_ trivial
    · rw [hphase] at hx
      cases hx
    · rw [hphase]
      exact List.Subset.refl _
  · next batch it items hphase =>
    have hok := (h.ready i).phase
    rw [hphase] at hok
    refine h.setPhase (fun x hx => .inr ?_) ?_ hok
    · rw [hphase] at hx
      exact hx
    · rw [hphase]
      exact List.Subset.refl _
  · next hphase => exact h.scan hphase hsafe
  · exact h

theorem Inv.step_lookup (h : Inv c log w) (i : ι) (answers : Bool) :
    Inv c log (c.step log w (.lookup i answers)) := by
  simp only [Consumer.step]
  split
  · next batch m env rest items hphase =>
    have hok := (h.ready i).phase
    rw [hphase] at hok
    have hbatch : batch ⊆ (w.phase i).batch := by
      rw [hphase]
      exact List.Subset.refl _
    have hout : ∀ x ∈ (w.phase i).outstanding, x = m ∨ x ∈ rest ∨ x ∈ items.map (·.1) := by
      intro x hx
      rw [hphase] at hx
      simpa [Phase.outstanding] using hx
    split
    · next hfound =>
      refine h.setPhase (fun x hx => ?_) hbatch hok.2
      obtain rfl | hrest | hitem := hout x hx
      · exact .inl (.inr ⟨env, hok.1, hfound.2⟩)
      · exact .inr (List.mem_append_left _ hrest)
      · exact .inr (List.mem_append_right _ hitem)
    · exact h.accept hout hbatch hok.2 hok.1
  · exact h

theorem Inv.step_publish (h : Inv c log w) (i : ι) (acknowledged delivered : Bool) :
    Inv c log (c.step log w (.publish i acknowledged delivered)) := by
  have hgrow : ∀ m r, Inv c log (w.quarantine m r) := fun m r =>
    h.grow i (List.Subset.refl _) (List.subset_append_left _ _) rfl rfl rfl
  simp only [Consumer.step]
  split
  · exact h
  · split
    · next batch m rest items hphase =>
      have hok := (h.ready i).phase
      rw [hphase] at hok
      split
      · refine h.publish ?_ ?_ hok
        · intro x hx
          rw [hphase] at hx
          exact List.mem_cons.mp hx
        · rw [hphase]
          exact List.Subset.refl _
      · split
        · exact hgrow m _
        · exact h
    · next batch m r rest hphase =>
      split
      · refine h.publish ?_ ?_ trivial
        · intro x hx
          rw [hphase] at hx
          exact List.mem_cons.mp hx
        · rw [hphase]
          exact List.Subset.refl _
      · split
        · exact hgrow m r
        · exact h
    · exact h

theorem Inv.step (h : Inv c log w) (ev : Event ι π) (hsafe : Safe c w ev) :
    Inv c log (c.step log w ev) := by
  cases ev with
  | fetch i p =>
    simp only [Consumer.step]
    split
    · next batch value hphase hvalue => exact h.fetch hphase hvalue
    · exact h
  | start i => exact h.step_start i
  | scan i redis => exact h.step_scan hsafe
  | lookup i answers => exact h.step_lookup i answers
  | publish i acknowledged delivered => exact h.step_publish i acknowledged delivered
  | handle i out =>
    simp only [Consumer.step]
    split
    · next batch items hphase =>
      cases out with
      | stored link => exact h.handle hphase link
      | fails link landed =>
        exact h.grow i (List.subset_append_left _ _) (List.Subset.refl _) rfl rfl rfl
    · exact h
  | commit i took =>
    simp only [Consumer.step]
    split
    · next batch hphase => exact h.commit hphase took
    · exact h
  | restart i => exact h.restart i

end Steps

/-! ## Runs -/

section Run

variable {ι π : Type}

theorem Inv.init (c : Consumer) (log : π → List Bytes) (markers : Uuid → Bool)
    (rows : List Record) (dlq : List (Message π × Reason)) :
    Inv c log (World.init markers rows dlq : World ι π) := by
  refine ⟨?_, fun i => Ready.idle rfl ?_⟩
  · intro q o value ho
    exact absurd ho (Nat.not_lt_zero o)
  · intro q o value ho
    exact absurd ho (Nat.not_lt_zero o)

variable [DecidableEq ι] [DecidableEq π]

/-- **No committed message is lost** in a run that never skips, unasked, a marked
message that is not covered. -/
theorem run_lossless (c : Consumer) (log : π → List Bytes) (markers : Uuid → Bool)
    (rows : List Record) (dlq : List (Message π × Reason)) (events : List (Event ι π))
    (hsafe : Each (c.step log) (Safe c) (World.init markers rows dlq) events) :
    Always (c.step log) (Lossless c log) (World.init markers rows dlq) events := by
  intro done hdone
  have hinv : Inv c log (run (c.step log) (World.init markers rows dlq) done) := by
    apply run_induction (P := fun _ w => Inv c log w) (Inv.init c log markers rows dlq) done
    intro before ev hbefore h
    exact h.step ev (hsafe before ev (hbefore.trans hdone))
  exact hinv.committed

end Run

/-! ## A message without a tenant -/

/-- A message that decodes and names an event, but no tenant. -/
def sampleValue : Bytes := bytes "\x7b\"event_id\":\"00000000-0000-0000-0000-000000000007\"\x7d"

/-- What it decodes to. -/
def sampleEnvelope : Envelope :=
  { eventID := Uuid.ofByte 7
    eventType := []
    tenantID := uuidNil
    actorType := []
    actorID := []
    occurredAt := .ofSec 0
    payload := bytes "null" }

/-- A consumer with all its parts; the decoding of other messages does not matter. -/
def sampleConsumer : Consumer :=
  { decode := fun value => if value = sampleValue then some sampleEnvelope else none
    sum256 := digestTable []
    hasDedup := true
    hasCH := true
    hasDLQ := true }

/-- One partition with the message. -/
def sampleLog : Unit → List Bytes := fun _ => [sampleValue]

/-- Nothing stored, nothing marked. -/
def sampleWorld : World Unit Unit := World.init (fun _ => false) [] []

/-- The message is read, quarantined and committed. -/
def quarantineRun : List (Event Unit Unit) :=
  [.fetch () (), .start (), .scan () .answers, .scan () .answers,
    .handle () (.stored fun _ => ⟨bytes "2026-07-08", 1, []⟩), .publish () true true,
      .commit () true]

/-- The consumer ends after `SetNX`; the message is read again, and committed. -/
def crashRun : List (Event Unit Unit) :=
  [.fetch () (), .start (), .scan () .answers, .restart (), .fetch () (), .start (),
    .scan () .answers, .scan () .answers, .commit () true]


/-- The run that quarantines the message commits it and loses nothing. -/
theorem run_lossless_quarantine :
    (run (sampleConsumer.step sampleLog) sampleWorld quarantineRun).committed () = 1 ∧
      Lossless sampleConsumer sampleLog
        (run (sampleConsumer.step sampleLog) sampleWorld quarantineRun) :=
  ⟨by decide,
    run_lossless sampleConsumer sampleLog (fun _ => false) [] [] quarantineRun (by decide)
      quarantineRun List.prefix_rfl⟩

/-- The run with a crash loses the message. -/
theorem run_lossless_crash : ¬ Always (sampleConsumer.step sampleLog)
    (Lossless sampleConsumer sampleLog) sampleWorld crashRun := by
  intro h
  have hcovered := h crashRun List.prefix_rfl () 0 sampleValue (by decide) rfl
  revert hcovered
  decide

end Consumer

end Windrose.Audit.Ingest

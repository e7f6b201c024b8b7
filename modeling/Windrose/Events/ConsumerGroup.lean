/-
  Events/ConsumerGroup.lean --- a consumer group with deduplication and a DLQ.

  Source: libs/go-common/kafka/consumer.go (Run, process, releaseDedup, toDLQ) and
  libs/go-common/event/envelope.go.

  Any number of members of a group run at the same time over one Kafka and one Redis,
  which other groups use too.  A step is one round trip of one member, with how it ends
  as an input: a handler may fail any number of times, and an answer of Redis may be lost
  after the command took effect.  `restart` is a crash at any point, and the start after
  it: the member reads on from the committed offsets, and Redis keeps what it has.

  The JSON decoding of an envelope is a parameter.  What a key of Redis says about the
  event it was set for is not stored; `Holder` remembers it.
-/
import Windrose.Foundation.Runs
import Windrose.Foundation.Time
import Windrose.Foundation.Uuid

set_option autoImplicit false

namespace Windrose.Events

open Windrose.Foundation

/-! ## Messages and envelopes -/

/-- Who caused an event. -/
structure Actor where
  type : Bytes
  id : Bytes
  deriving DecidableEq

/-- The agent that acted. -/
structure ViaAgent where
  agentID : Bytes
  version : Bytes
  deriving DecidableEq

/-- `Envelope`; the payload is its canonical encoding, if there is one. -/
structure Envelope where
  eventID : Uuid
  eventType : Bytes
  tenantID : Uuid
  actor : Actor
  viaAgent : Option ViaAgent
  resourceURN : Bytes
  occurredAt : Time
  traceID : Bytes
  payload : Option Bytes
  deriving DecidableEq

/-- A partition of a topic. -/
structure Partition where
  topic : Bytes
  number : Nat
  deriving DecidableEq

/-- `kafka.Message`: its place and its value. -/
structure Message where
  partition : Partition
  offset : Nat
  value : Bytes
  deriving DecidableEq

/-- What Kafka holds. -/
abbrev Log : Type := Partition → List Bytes

/-- `ConsumerGroup`: the decoding, and how it is configured. -/
structure ConsumerGroup where
  group : Bytes
  decode : Bytes → Option Envelope
  hasDedup : Bool
  /-- the deduper is a `dedupReleaser` -/
  canRelease : Bool
  hasDLQ : Bool
  maxRetries : Int

namespace ConsumerGroup

/-- `MaxRetries` with the default of `NewConsumerGroup`. -/
def retries (c : ConsumerGroup) : Nat := if c.maxRetries ≤ 0 then 5 else c.maxRetries.toNat

/-- The key of an event in a group. -/
def dedupKey (group : Bytes) (id : Uuid) : Bytes :=
  bytes "evt:dedup:" ++ group ++ bytes ":" ++ id.text

def dlqTopic (topic group : Bytes) : Bytes := topic ++ bytes "." ++ group ++ bytes ".dlq"

theorem dedupKey_inj {g g' : Bytes} {id id' : Uuid} (h : dedupKey g id = dedupKey g' id') :
    g = g' ∧ id = id' := by
  unfold dedupKey at h
  obtain ⟨hleft, hid⟩ := List.append_inj' h (by rw [Uuid.length_text, Uuid.length_text])
  exact ⟨List.append_cancel_left (List.append_cancel_right hleft), Uuid.text_injective hid⟩

end ConsumerGroup

/-! ## The members of a group -/

/-- Where a member is in `Run` and `process`. -/
inductive Phase where
  | fetching
  /-- `SetNX` -/
  | claiming (m : Message) (env : Envelope)
  /-- a call of the handler -/
  | handling (m : Message) (env : Envelope) (attempt : Nat)
  /-- the `select` between two attempts -/
  | waiting (m : Message) (env : Envelope) (attempt : Nat)
  /-- `releaseDedup`, when the retries are exhausted or the context is done -/
  | releasing (m : Message) (env : Envelope) (exhausted : Bool)
  /-- the loop of `toDLQ` -/
  | quarantining (m : Message)
  | committing (m : Message)
  deriving DecidableEq

namespace Phase

/-- The message that is neither handled nor quarantined yet. -/
def outstanding : Phase → Option Message
  | claiming m _ => some m
  | handling m _ _ => some m
  | waiting m _ _ => some m
  | releasing m _ _ => some m
  | quarantining m => some m
  | _ => none

/-- The event that is about to be claimed. -/
def atClaim : Phase → Option Envelope
  | claiming _ env => some env
  | _ => none

/-- The event between its claim and its end. -/
def atWork : Phase → Option Envelope
  | handling _ env _ => some env
  | waiting _ env _ => some env
  | releasing _ env _ => some env
  | _ => none

end Phase

/-- The event a key was set for; other groups are told apart by nothing more. -/
inductive Holder where
  | ours (env : Envelope)
  | foreign
  deriving DecidableEq

/-- What the members share, and where each of them is. -/
structure World (ι : Type) where
  claims : Bytes → Option Holder
  /-- the messages the handler has accepted -/
  handled : List Message
  /-- the poison messages and their topics -/
  dlq : List (Bytes × Message)
  /-- the messages that were taken for duplicates, and of what -/
  skipped : List (Message × Holder)
  committed : Partition → Nat
  /-- the offset a member reads next -/
  position : ι → Partition → Nat
  /-- the context of a member is done -/
  cancelled : ι → Bool
  phase : ι → Phase

/-- How a command of Redis ends: it answers, or fails with or without effect. -/
inductive Redis where
  | answers
  | fails (applied : Bool)
  deriving DecidableEq

/-- The round trips, and what happens around them. -/
inductive Event (ι : Type) where
  | fetch (i : ι) (p : Partition)
  | setNX (i : ι) (redis : Redis)
  | handle (i : ι) (succeeds : Bool)
  /-- the `select`: the context is done, or the backoff is over -/
  | select (i : ι) (done : Bool)
  | release (i : ι) (redis : Redis)
  /-- a publish to the DLQ that is acknowledged, or not, and then delivered or not -/
  | publish (i : ι) (acknowledged delivered : Bool)
  | commit (i : ι) (took : Bool)
  | cancel (i : ι)
  /-- `Run` returns because its context is done -/
  | quit (i : ι)
  | restart (i : ι)
  /-- a claim is older than its TTL -/
  | expire (key : Bytes)
  /-- another group claims an event or releases it -/
  | foreign (group : Bytes) (id : Uuid) (claims : Bool)

namespace World

variable {ι : Type} [DecidableEq ι]

/-- Nothing has been read. -/
def init : World ι :=
  { claims := fun _ => none, handled := [], dlq := [], skipped := [], committed := fun _ => 0,
    position := fun _ _ => 0, cancelled := fun _ => false, phase := fun _ => .fetching }

def setPhase (w : World ι) (i : ι) (p : Phase) : World ι :=
  { w with phase := Function.update w.phase i p }

/-- `SETNX` that takes effect. -/
def claim (w : World ι) (key : Bytes) (holder : Holder) : World ι :=
  { w with claims := Function.update w.claims key (some ((w.claims key).getD holder)) }

/-- `DEL`. -/
def unclaim (w : World ι) (key : Bytes) : World ι :=
  { w with claims := Function.update w.claims key none }

/-- The member starts anew, behind the committed offsets. -/
def restart (w : World ι) (i : ι) : World ι :=
  { w with
    position := Function.update w.position i w.committed
    cancelled := Function.update w.cancelled i false
    phase := Function.update w.phase i .fetching }

end World

namespace ConsumerGroup

variable {ι : Type} [DecidableEq ι] (c : ConsumerGroup)

/-- The key of an event in this group. -/
def key (env : Envelope) : Bytes := dedupKey c.group env.eventID

/-- The message goes to its DLQ. -/
def quarantine (w : World ι) (m : Message) : World ι :=
  { w with dlq := w.dlq ++ [(dlqTopic m.partition.topic c.group, m)] }

/-- `process` up to its first round trip. -/
def begin (m : Message) : Phase :=
  match c.decode m.value with
  | none => .quarantining m
  | some env => if c.hasDedup then .claiming m env else .handling m env 1

/-- One round trip; one that a member cannot make changes nothing. -/
def step (log : Log) (w : World ι) : Event ι → World ι
  | .fetch i p =>
    match w.phase i, (log p)[w.position i p]? with
    | .fetching, some value =>
      { w with
        position := Function.update w.position i
          (Function.update (w.position i) p (w.position i p + 1))
        phase := Function.update w.phase i (c.begin ⟨p, w.position i p, value⟩) }
    | _, _ => w
  | .setNX i redis =>
    match w.phase i with
    | .claiming m env =>
      match redis, w.claims (c.key env) with
      | .answers, some holder =>
        { w with
          skipped := w.skipped ++ [(m, holder)]
          phase := Function.update w.phase i (.committing m) }
      | .answers, none => (w.claim (c.key env) (.ours env)).setPhase i (.handling m env 1)
      -- An error of the deduper does not stop the message.
      | .fails applied, _ =>
        (if applied then w.claim (c.key env) (.ours env) else w).setPhase i (.handling m env 1)
    | _ => w
  | .handle i succeeds =>
    match w.phase i with
    | .handling m env attempt =>
      if succeeds then
        { w with
          handled := w.handled ++ [m]
          phase := Function.update w.phase i (.committing m) }
      else if attempt = c.retries then w.setPhase i (.releasing m env true)
      else w.setPhase i (.waiting m env attempt)
    | _ => w
  | .select i done =>
    match w.phase i with
    | .waiting m env attempt =>
      if !done then w.setPhase i (.handling m env (attempt + 1))
      else if w.cancelled i then w.setPhase i (.releasing m env false)
      else w
    | _ => w
  | .release i redis =>
    match w.phase i with
    | .releasing m env exhausted =>
      let released :=
        if c.hasDedup && c.canRelease && redis ≠ .fails false then w.unclaim (c.key env) else w
      if exhausted then released.setPhase i (.quarantining m) else released.restart i
    | _ => w
  | .publish i acknowledged delivered =>
    match w.phase i with
    | .quarantining m =>
      if !c.hasDLQ then w
      else if acknowledged then (c.quarantine w m).setPhase i (.committing m)
      else if delivered then c.quarantine w m
      else w
    | _ => w
  | .commit i took =>
    match w.phase i with
    | .committing m =>
      { w with
        committed :=
          if took then Function.update w.committed m.partition (m.offset + 1) else w.committed
        phase := Function.update w.phase i .fetching }
    | _ => w
  | .cancel i => { w with cancelled := Function.update w.cancelled i true }
  | .quit i =>
    match w.phase i with
    | .fetching | .quarantining _ => if w.cancelled i then w.restart i else w
    | _ => w
  | .restart i => w.restart i
  | .expire key => w.unclaim key
  | .foreign group id claims =>
    if group = c.group then w
    else if claims then w.claim (dedupKey group id) .foreign
    else w.unclaim (dedupKey group id)

end ConsumerGroup

/-! ## What must not be dropped -/

namespace ConsumerGroup

variable {env : Envelope} {m : Message}

section Drops

variable {ι : Type} (c : ConsumerGroup)

/-- A message with the event was handled. -/
def Handled (w : World ι) (env : Envelope) : Prop := ∃ m ∈ w.handled, c.decode m.value = some env

/-- The message is in the DLQ of its topic, or its event was handled. -/
def Disposed (w : World ι) (m : Message) : Prop :=
  (dlqTopic m.partition.topic c.group, m) ∈ w.dlq ∨
    ∃ env ∈ c.decode m.value, Handled c w env

/-- Every message behind a committed offset is disposed of, and a message is only taken for
a duplicate of its own event. -/
structure NeverDrops (log : Log) (w : World ι) : Prop where
  committed : ∀ p o value, o < w.committed p → (log p)[o]? = some value → Disposed c w ⟨p, o, value⟩
  duplicates : ∀ m holder, (m, holder) ∈ w.skipped → ∃ env ∈ c.decode m.value, holder = .ours env

/-- The event is in Kafka. -/
def Known (log : Log) (env : Envelope) : Prop := ∃ p, ∃ value ∈ log p, c.decode value = some env

/-- No two events in Kafka share an id. -/
def DistinctIDs (log : Log) : Prop :=
  ∀ env env', Known c log env → Known c log env' → env.eventID = env'.eventID → env = env'

/-- The claim of the event is set, and the event is not handled. -/
def Masked (w : World ι) (env : Envelope) : Prop :=
  (w.claims (c.key env)).isSome = true ∧ ¬ Handled c w env

/-- No claim is found or left behind while its event is at work: by another member, by a
crash, or by a release that does not remove it. -/
def Careful (w : World ι) : Event ι → Prop
  | .setNX i .answers =>
    ∀ env ∈ (w.phase i).atClaim, ∀ j, ∀ env' ∈ (w.phase j).atWork,
      env'.eventID = env.eventID → ¬ Masked c w env'
  | .release i redis =>
    ∀ env ∈ (w.phase i).atWork, Masked c w env →
      (c.hasDedup && c.canRelease && redis ≠ .fails false) = true
  | .restart i => ∀ env ∈ (w.phase i).atWork, ¬ Masked c w env
  | _ => True

instance (w : World ι) (env : Envelope) : Decidable (Handled c w env) :=
  inferInstanceAs (Decidable (∃ m ∈ w.handled, c.decode m.value = some env))

instance (w : World ι) (m : Message) : Decidable (Disposed c w m) :=
  inferInstanceAs (Decidable (_ ∨ ∃ env ∈ c.decode m.value, Handled c w env))

instance (w : World ι) (env : Envelope) : Decidable (Masked c w env) :=
  inferInstanceAs (Decidable (_ ∧ _))

instance [Fintype ι] (w : World ι) (ev : Event ι) : Decidable (Careful c w ev) := by
  unfold Careful
  split <;> infer_instance

/-! ### The invariant -/

/-- The phase of a member agrees with the message it is at. -/
def PhaseOk (log : Log) (position : Partition → Nat) : Phase → Prop
  | .fetching => True
  | .claiming m env | .handling m env _ | .waiting m env _ | .releasing m env _ =>
    m.offset < position m.partition ∧ m.value ∈ log m.partition ∧ c.decode m.value = some env
  | .quarantining m | .committing m => m.offset < position m.partition

/-- What a member has read is disposed of, or it is still at it. -/
structure Ready (log : Log) (w : World ι) (i : ι) : Prop where
  fetched : ∀ p o value, o < w.position i p → (log p)[o]? = some value →
    Disposed c w ⟨p, o, value⟩ ∨ (w.phase i).outstanding = some ⟨p, o, value⟩
  phase : PhaseOk c log (w.position i) (w.phase i)

/-- A claim of the group is for an event from Kafka that is handled or at work. -/
def ClaimsOk (log : Log) (w : World ι) : Prop :=
  ∀ id holder, w.claims (dedupKey c.group id) = some holder →
    ∃ env, holder = .ours env ∧ env.eventID = id ∧ Known c log env ∧
      (Handled c w env ∨ ∃ j, (w.phase j).atWork = some env)

/-- The invariant. -/
structure Inv (log : Log) (w : World ι) : Prop where
  safe : NeverDrops c log w
  ready : ∀ i, Ready c log w i
  claims : ClaimsOk c log w

variable {c} {log : Log} {w w' : World ι}

theorem Handled.mono (h : Handled c w env) (hhandled : w.handled ⊆ w'.handled) :
    Handled c w' env := by
  obtain ⟨m, hm, hdecode⟩ := h
  exact ⟨m, hhandled hm, hdecode⟩

theorem handled_or_unclaimed (h : ¬ Masked c w env) :
    Handled c w env ∨ w.claims (c.key env) = none := by
  unfold Masked at h
  rw [not_and_or, not_not, Bool.not_eq_true, Option.isSome_eq_false_iff,
    Option.isNone_iff_eq_none] at h
  exact h.symm

theorem Disposed.mono (h : Disposed c w m) (hhandled : w.handled ⊆ w'.handled)
    (hdlq : w.dlq ⊆ w'.dlq) : Disposed c w' m :=
  h.imp (fun hm => hdlq hm) fun ⟨env, hdecode, henv⟩ => ⟨env, hdecode, henv.mono hhandled⟩

/-- The claims stay in order when none is added, and no event at work goes away with its
claim. -/
theorem ClaimsOk.mono (h : ClaimsOk c log w) (hhandled : w.handled ⊆ w'.handled)
    (hclaims : ∀ id holder, w'.claims (dedupKey c.group id) = some holder →
      w.claims (dedupKey c.group id) = some holder)
    (hwork : ∀ j env, (w.phase j).atWork = some env → (w'.claims (c.key env)).isSome = true →
      (w'.phase j).atWork = some env ∨ Handled c w' env) : ClaimsOk c log w' := by
  intro id holder hholder
  obtain ⟨env, rfl, rfl, hknown, hend⟩ := h id holder (hclaims id holder hholder)
  refine ⟨env, rfl, rfl, hknown, ?_⟩
  obtain henv | ⟨j, hj⟩ := hend
  · exact .inl (henv.mono hhandled)
  · obtain hj | henv := hwork j env hj (by rw [key, hholder]; rfl)
    · exact .inr ⟨j, hj⟩
    · exact .inl henv

theorem NeverDrops.mono (h : NeverDrops c log w) (hhandled : w.handled ⊆ w'.handled)
    (hdlq : w.dlq ⊆ w'.dlq) (hcommitted : w'.committed = w.committed)
    (hskipped : w'.skipped = w.skipped) : NeverDrops c log w' := by
  refine ⟨fun p o value ho hvalue => ?_, ?_⟩
  · rw [hcommitted] at ho
    exact (h.committed p o value ho hvalue).mono hhandled hdlq
  · rw [hskipped]
    exact h.duplicates

end Drops

/-! ### Moves of one member -/

section Moves

variable {ι : Type} [DecidableEq ι] {c : ConsumerGroup} {log : Log} {w w' : World ι}

variable {i : ι}

theorem Inv.update (h : Inv c log w) (hsafe : NeverDrops c log w')
    (hhandled : w.handled ⊆ w'.handled) (hdlq : w.dlq ⊆ w'.dlq)
    (hother : ∀ j, j ≠ i → w'.position j = w.position j ∧ w'.phase j = w.phase j)
    (hready : Ready c log w' i) (hclaims : ClaimsOk c log w') : Inv c log w' := by
  refine ⟨hsafe, fun j => ?_, hclaims⟩
  by_cases hj : j = i
  · subst hj
    exact hready
  · obtain ⟨hposition, hphase⟩ := hother j hj
    refine ⟨fun p o value ho hvalue => ?_, ?_⟩
    · rw [hposition] at ho
      rw [hphase]
      exact ((h.ready j).fetched p o value ho hvalue).imp_left fun hm => hm.mono hhandled hdlq
    · rw [hposition, hphase]
      exact (h.ready j).phase

theorem Inv.move (h : Inv c log w) {p : Phase} (hsafe : NeverDrops c log w')
    (hhandled : w.handled ⊆ w'.handled) (hdlq : w.dlq ⊆ w'.dlq)
    (hposition : w'.position = w.position) (hphase : w'.phase = Function.update w.phase i p)
    (hdone : ∀ m, (w.phase i).outstanding = some m → Disposed c w' m ∨ p.outstanding = some m)
    (hok : PhaseOk c log (w.position i) p) (hclaims : ClaimsOk c log w') : Inv c log w' := by
  have hself : w'.phase i = p := by rw [hphase, Function.update_self]
  refine h.update (i := i) hsafe hhandled hdlq (fun j hj => ?_) ⟨fun q o value ho hvalue => ?_, ?_⟩
    hclaims
  · rw [hposition, hphase, Function.update_of_ne hj]
    exact ⟨rfl, rfl⟩
  · rw [hposition] at ho
    rw [hself]
    obtain hm | hm := (h.ready i).fetched q o value ho hvalue
    · exact .inl (hm.mono hhandled hdlq)
    · exact hdone _ hm
  · rw [hself, hposition]
    exact hok

theorem ClaimsOk.move (h : ClaimsOk c log w) {p : Phase}
    (hhandled : w.handled ⊆ w'.handled) (hclaims : w'.claims = w.claims)
    (hphase : w'.phase = Function.update w.phase i p)
    (hwork : ∀ env, (w.phase i).atWork = some env →
      p.atWork = some env ∨ Handled c w' env ∨ w.claims (c.key env) = none) :
    ClaimsOk c log w' := by
  refine h.mono hhandled (fun id holder hholder => by rwa [hclaims] at hholder)
    fun j env hj hset => ?_
  rw [hphase]
  by_cases hij : j = i
  · subst hij
    rw [Function.update_self]
    obtain hp | henv | hnone := hwork env hj
    · exact .inl hp
    · exact .inr henv
    · rw [hclaims, hnone] at hset
      cases hset
  · rw [Function.update_of_ne hij]
    exact .inl hj

omit [DecidableEq ι] in
theorem Inv.unclaim (h : Inv c log w) (key : Bytes) : Inv c log (w.unclaim key) := by
  refine ⟨h.safe.mono (List.Subset.refl _) (List.Subset.refl _) rfl rfl,
    fun j => ⟨(h.ready j).fetched, (h.ready j).phase⟩,
    h.claims.mono (List.Subset.refl _) (fun id holder hholder => ?_) fun j env hj _ => .inl hj⟩
  unfold World.unclaim at hholder
  dsimp only at hholder
  by_cases hkey : dedupKey c.group id = key
  · rw [hkey, Function.update_self] at hholder
    cases hholder
  · rwa [Function.update_of_ne hkey] at hholder

omit [DecidableEq ι] in
theorem Inv.foreign (h : Inv c log w) {group : Bytes} (hgroup : group ≠ c.group) (id : Uuid) :
    Inv c log (w.claim (dedupKey group id) .foreign) := by
  refine ⟨h.safe.mono (List.Subset.refl _) (List.Subset.refl _) rfl rfl,
    fun j => ⟨(h.ready j).fetched, (h.ready j).phase⟩,
    h.claims.mono (List.Subset.refl _) (fun id' holder hholder => ?_) fun j env hj _ => .inl hj⟩
  have hkey : dedupKey c.group id' ≠ dedupKey group id := fun hkey =>
    hgroup (dedupKey_inj hkey).1.symm
  unfold World.claim at hholder
  dsimp only at hholder
  rwa [Function.update_of_ne hkey] at hholder

theorem Inv.restart (h : Inv c log w)
    (hi : ∀ env, (w.phase i).atWork = some env → ¬ Masked c w env) : Inv c log (w.restart i) := by
  refine h.update (i := i) (h.safe.mono (List.Subset.refl _) (List.Subset.refl _) rfl rfl)
    (List.Subset.refl _) (List.Subset.refl _)
    (fun j hj => ⟨Function.update_of_ne hj _ _, Function.update_of_ne hj _ _⟩)
    ⟨fun q o value ho hvalue => ?_, ?_⟩ ?_
  · simp only [World.restart, Function.update_self] at ho
    exact .inl (h.safe.committed q o value ho hvalue)
  · simp only [World.restart, Function.update_self]
    trivial
  · exact h.claims.move (List.Subset.refl _) rfl rfl fun env henv =>
      .inr (handled_or_unclaimed (hi env henv))

theorem Inv.fetch (h : Inv c log w) {p : Partition} {value : Bytes}
    (hphase : w.phase i = .fetching) (hvalue : (log p)[w.position i p]? = some value) :
    Inv c log { w with
      position := Function.update w.position i
        (Function.update (w.position i) p (w.position i p + 1))
      phase := Function.update w.phase i (c.begin ⟨p, w.position i p, value⟩) } := by
  have hout : (c.begin ⟨p, w.position i p, value⟩).outstanding =
      some ⟨p, w.position i p, value⟩ := by
    unfold begin
    split
    · rfl
    · split <;> rfl
  refine h.update (i := i) (h.safe.mono (List.Subset.refl _) (List.Subset.refl _) rfl rfl)
    (List.Subset.refl _) (List.Subset.refl _)
    (fun j hj => ⟨Function.update_of_ne hj _ _, Function.update_of_ne hj _ _⟩)
    ⟨fun q o v ho hv => ?_, ?_⟩ ?_
  · simp only [Function.update_self] at ho ⊢
    rw [hout]
    by_cases hold : o < w.position i q
    · obtain hm | hm := (h.ready i).fetched q o v hold hv
      · exact .inl hm
      · rw [hphase] at hm
        cases hm
    · -- The message that was read just now.
      right
      by_cases hq : q = p
      · subst hq
        rw [Function.update_self] at ho
        obtain rfl : o = w.position i q := by omega
        rw [hvalue, Option.some.injEq] at hv
        rw [hv]
      · rw [Function.update_of_ne hq] at ho
        exact absurd ho hold
  · have hlt : w.position i p < Function.update (w.position i) p (w.position i p + 1) p := by
      rw [Function.update_self]
      exact Nat.lt_succ_self _
    have hmem : value ∈ log p := List.mem_of_getElem? hvalue
    simp only [Function.update_self]
    unfold begin
    split
    · exact hlt
    · next env hdecode =>
      split
      · exact ⟨hlt, hmem, hdecode⟩
      · exact ⟨hlt, hmem, hdecode⟩
  · refine h.claims.move (List.Subset.refl _) rfl rfl fun env henv => ?_
    rw [hphase] at henv
    cases henv

theorem Inv.commit (h : Inv c log w) (hphase : w.phase i = .committing m)
    (took : Bool) : Inv c log { w with
      committed :=
        if took then Function.update w.committed m.partition (m.offset + 1) else w.committed
      phase := Function.update w.phase i .fetching } := by
  have hread : ∀ q o v, o < w.position i q → (log q)[o]? = some v → Disposed c w ⟨q, o, v⟩ := by
    intro q o v ho hv
    obtain hm | hm := (h.ready i).fetched q o v ho hv
    · exact hm
    · rw [hphase] at hm
      cases hm
  have hlt : m.offset < w.position i m.partition := by
    have hok := (h.ready i).phase
    rwa [hphase] at hok
  refine h.update (i := i) ⟨fun q o v ho hv => ?_, h.safe.duplicates⟩ (List.Subset.refl _)
    (List.Subset.refl _) (fun j hj => ⟨rfl, Function.update_of_ne hj _ _⟩)
    ⟨fun q o v ho hv => .inl (hread q o v ho hv), ?_⟩ ?_
  · cases took with
    | false => exact h.safe.committed q o v ho hv
    | true =>
      simp only [if_true] at ho
      by_cases hq : q = m.partition
      · subst hq
        rw [Function.update_self] at ho
        exact hread m.partition o v (by omega) hv
      · rw [Function.update_of_ne hq] at ho
        exact h.safe.committed q o v ho hv
  · simp only [Function.update_self]
    trivial
  · refine h.claims.move (List.Subset.refl _) rfl rfl fun env henv => ?_
    rw [hphase] at henv
    cases henv

omit [DecidableEq ι] in
theorem Inv.quarantine (h : Inv c log w) (m : Message) : Inv c log (c.quarantine w m) := by
  have hdlq : w.dlq ⊆ (c.quarantine w m).dlq := List.subset_append_left _ _
  exact ⟨h.safe.mono (List.Subset.refl _) hdlq rfl rfl,
    fun j => ⟨fun q o v ho hv =>
      ((h.ready j).fetched q o v ho hv).imp_left fun hm => hm.mono (List.Subset.refl _) hdlq,
      (h.ready j).phase⟩,
    h.claims.mono (List.Subset.refl _) (fun _ _ hholder => hholder) fun j env hj _ => .inl hj⟩

theorem Inv.setPhase (h : Inv c log w) {p : Phase}
    (hdone : ∀ m, (w.phase i).outstanding = some m → Disposed c w m ∨ p.outstanding = some m)
    (hok : PhaseOk c log (w.position i) p)
    (hwork : ∀ env, (w.phase i).atWork = some env → p.atWork = some env ∨ ¬ Masked c w env) :
    Inv c log (w.setPhase i p) := by
  refine h.move (h.safe.mono (List.Subset.refl _) (List.Subset.refl _) rfl rfl)
    (List.Subset.refl _) (List.Subset.refl _) rfl rfl hdone hok
    (h.claims.move (List.Subset.refl _) rfl rfl fun env henv => ?_)
  exact (hwork env henv).imp_right handled_or_unclaimed

theorem Inv.claim (h : Inv c log w) (hphase : w.phase i = .claiming m env) :
    Inv c log ((w.claim (c.key env) (.ours env)).setPhase i (.handling m env 1)) := by
  have hok := (h.ready i).phase
  rw [hphase] at hok
  refine h.move (i := i) (p := .handling m env 1)
    (h.safe.mono (List.Subset.refl _) (List.Subset.refl _) rfl rfl) (List.Subset.refl _)
    (List.Subset.refl _) rfl rfl (fun x hx => .inr (by rwa [hphase] at hx)) hok ?_
  have hothers : ∀ j e, (w.phase j).atWork = some e →
      (Function.update w.phase i (.handling m env 1) j).atWork = some e := by
    intro j e hj
    have hij : j ≠ i := by
      rintro rfl
      rw [hphase] at hj
      cases hj
    rwa [Function.update_of_ne hij]
  intro id holder hholder
  have hold : ∀ holder, w.claims (dedupKey c.group id) = some holder →
      ∃ e, holder = .ours e ∧ e.eventID = id ∧ Known c log e ∧
        (Handled c w e ∨
          ∃ j, (Function.update w.phase i (.handling m env 1) j).atWork = some e) := by
    intro holder hholder
    obtain ⟨e, rfl, rfl, hknown, hend⟩ := h.claims id holder hholder
    exact ⟨e, rfl, rfl, hknown, hend.imp_right fun ⟨j, hj⟩ => ⟨j, hothers j e hj⟩⟩
  unfold World.setPhase World.claim at hholder
  dsimp only at hholder
  by_cases hkey : dedupKey c.group id = c.key env
  · rw [hkey, Function.update_self] at hholder
    obtain rfl := Option.some.inj hholder
    cases hclaim : w.claims (c.key env) with
    | some holder => exact hold holder (by rw [hkey, hclaim])
    | none =>
      refine ⟨env, rfl, (dedupKey_inj hkey).2.symm, ⟨m.partition, m.value, hok.2.1, hok.2.2⟩,
        .inr ⟨i, ?_⟩⟩
      show (Function.update w.phase i (.handling m env 1) i).atWork = some env
      rw [Function.update_self]
      rfl
  · rw [Function.update_of_ne hkey] at hholder
    exact hold holder hholder

theorem Inv.skip (h : Inv c log w) (hids : DistinctIDs c log)
    {holder : Holder} (hphase : w.phase i = .claiming m env)
    (hclaim : w.claims (c.key env) = some holder) (hcareful : Careful c w (.setNX i .answers)) :
    Inv c log { w with
      skipped := w.skipped ++ [(m, holder)]
      phase := Function.update w.phase i (.committing m) } := by
  obtain ⟨hlt, hmem, hdecode⟩ : m.offset < w.position i m.partition ∧ m.value ∈ log m.partition ∧
      c.decode m.value = some env := by
    have hok := (h.ready i).phase
    rwa [hphase] at hok
  obtain ⟨env', rfl, hid, hknown, hend⟩ := h.claims env.eventID holder hclaim
  obtain rfl : env' = env := hids env' env hknown ⟨m.partition, m.value, hmem, hdecode⟩ hid
  have hhandled : Handled c w env' := by
    obtain hhandled | ⟨j, hj⟩ := hend
    · exact hhandled
    · have hnot := hcareful env' (by rw [hphase]; rfl) j env' hj rfl
      exact (handled_or_unclaimed hnot).resolve_right (by rw [hclaim]; exact Option.some_ne_none _)
  refine h.move (i := i) (p := .committing m)
    ⟨fun q o v ho hv => h.safe.committed q o v ho hv, fun x holder hx => ?_⟩
    (List.Subset.refl _) (List.Subset.refl _) rfl rfl (fun x hx => .inl ?_) hlt
    (h.claims.move (List.Subset.refl _) rfl rfl fun e he => ?_)
  · obtain hx | hx := List.mem_append.mp hx
    · exact h.safe.duplicates x holder hx
    · obtain ⟨rfl, rfl⟩ := Prod.mk.inj (List.mem_singleton.mp hx)
      exact ⟨env', hdecode, rfl⟩
  · rw [hphase] at hx
    obtain rfl : m = x := Option.some.inj hx
    exact .inr ⟨env', hdecode, hhandled⟩
  · rw [hphase] at he
    cases he

theorem Inv.handle (h : Inv c log w) {attempt : Nat}
    (hphase : w.phase i = .handling m env attempt) : Inv c log { w with
      handled := w.handled ++ [m]
      phase := Function.update w.phase i (.committing m) } := by
  have hsub : w.handled ⊆ w.handled ++ [m] := List.subset_append_left _ _
  obtain ⟨hlt, hmem, hdecode⟩ : m.offset < w.position i m.partition ∧ m.value ∈ log m.partition ∧
      c.decode m.value = some env := by
    have hok := (h.ready i).phase
    rwa [hphase] at hok
  have hhandled : ∃ x ∈ w.handled ++ [m], c.decode x.value = some env := ⟨m, by simp, hdecode⟩
  refine h.move (i := i) (p := .committing m) (h.safe.mono hsub (List.Subset.refl _) rfl rfl)
    hsub (List.Subset.refl _) rfl rfl (fun x hx => .inl ?_) hlt
    (h.claims.move hsub rfl rfl fun e he => .inr (.inl ?_))
  · rw [hphase] at hx
    obtain rfl : m = x := Option.some.inj hx
    exact .inr ⟨env, hdecode, hhandled⟩
  · rw [hphase] at he
    obtain rfl : env = e := Option.some.inj he
    exact hhandled

theorem Inv.release (h : Inv c log w) {exhausted : Bool}
    {redis : Redis} (hphase : w.phase i = .releasing m env exhausted)
    (hcareful : Careful c w (.release i redis)) : let released :=
      if c.hasDedup && c.canRelease && redis ≠ .fails false then w.unclaim (c.key env) else w
    Inv c log (if exhausted then released.setPhase i (.quarantining m)
      else released.restart i) := by
  intro released
  have hsame : released.phase i = .releasing m env exhausted := by
    unfold released
    split <;> exact hphase
  have hinv : Inv c log released := by
    unfold released
    split
    · exact h.unclaim _
    · exact h
  -- The claim is gone, or its event is handled.
  have hfree : ∀ e, (released.phase i).atWork = some e → ¬ Masked c released e := by
    intro e he
    rw [hsame] at he
    obtain rfl : env = e := Option.some.inj he
    unfold released
    split
    · intro hmasked
      have hset := hmasked.1
      unfold World.unclaim at hset
      dsimp only at hset
      rw [Function.update_self] at hset
      cases hset
    · next hkept => exact fun hmasked => hkept (hcareful env (by rw [hphase]; rfl) hmasked)
  cases exhausted with
  | true =>
    have hok := (hinv.ready i).phase
    rw [hsame] at hok
    exact hinv.setPhase (fun x hx => .inr (by rwa [hsame] at hx)) hok.1 fun e he =>
      .inr (hfree e he)
  | false => exact hinv.restart hfree

theorem Inv.step_setNX (h : Inv c log w) (hids : DistinctIDs c log) {i : ι} {redis : Redis}
    (hcareful : Careful c w (.setNX i redis)) : Inv c log (c.step log w (.setNX i redis)) := by
  simp only [ConsumerGroup.step]
  split
  · next m env hphase =>
    cases redis with
    | answers =>
      cases hclaim : w.claims (c.key env) with
      | some holder => exact h.skip hids hphase hclaim hcareful
      | none => exact h.claim hphase
    | fails applied =>
      have hok := (h.ready i).phase
      rw [hphase] at hok
      cases applied with
      | true => exact h.claim hphase
      | false =>
        refine h.setPhase (fun x hx => .inr (by rwa [hphase] at hx)) hok fun e he => ?_
        rw [hphase] at he
        cases he
  · exact h

theorem Inv.step_handle (h : Inv c log w) (i : ι) (succeeds : Bool) :
    Inv c log (c.step log w (.handle i succeeds)) := by
  simp only [ConsumerGroup.step]
  split
  · next m env attempt hphase =>
    have hok := (h.ready i).phase
    rw [hphase] at hok
    split
    · exact h.handle hphase
    · split
      · exact h.setPhase (fun x hx => .inr (by rwa [hphase] at hx)) hok
          fun e he => .inl (by rwa [hphase] at he)
      · exact h.setPhase (fun x hx => .inr (by rwa [hphase] at hx)) hok
          fun e he => .inl (by rwa [hphase] at he)
  · exact h

theorem Inv.step_select (h : Inv c log w) (i : ι) (done : Bool) :
    Inv c log (c.step log w (.select i done)) := by
  simp only [ConsumerGroup.step]
  split
  · next m env attempt hphase =>
    have hok := (h.ready i).phase
    rw [hphase] at hok
    split
    · exact h.setPhase (fun x hx => .inr (by rwa [hphase] at hx)) hok
        fun e he => .inl (by rwa [hphase] at he)
    · split
      · exact h.setPhase (fun x hx => .inr (by rwa [hphase] at hx)) hok
          fun e he => .inl (by rwa [hphase] at he)
      · exact h
  · exact h

theorem Inv.step_publish (h : Inv c log w) (i : ι) (acknowledged delivered : Bool) :
    Inv c log (c.step log w (.publish i acknowledged delivered)) := by
  simp only [ConsumerGroup.step]
  split
  · next m hphase =>
    have hok := (h.ready i).phase
    rw [hphase] at hok
    split
    · exact h
    · split
      · refine (h.quarantine m).setPhase (fun x hx => .inl (.inl ?_)) hok fun e he => ?_
        · have hx' : (Phase.quarantining m).outstanding = some x := by rwa [← hphase]
          obtain rfl : m = x := Option.some.inj hx'
          exact List.mem_append_right _ (List.mem_singleton_self _)
        · have he' : (Phase.quarantining m).atWork = some e := by rwa [← hphase]
          cases he'
      · split
        · exact h.quarantine m
        · exact h
  · exact h

theorem Inv.step_quit (h : Inv c log w) (i : ι) : Inv c log (c.step log w (.quit i)) := by
  have hidle : (w.phase i).atWork = none → Inv c log
      (if w.cancelled i then w.restart i else w) := by
    intro hnone
    split
    · exact h.restart fun env henv => by rw [hnone] at henv; cases henv
    · exact h
  simp only [ConsumerGroup.step]
  split
  · next hphase => exact hidle (by rw [hphase]; rfl)
  · next m hphase => exact hidle (by rw [hphase]; rfl)
  · exact h

theorem Inv.step (h : Inv c log w) (hids : DistinctIDs c log) (ev : Event ι)
    (hcareful : Careful c w ev) : Inv c log (c.step log w ev) := by
  cases ev with
  | fetch i p =>
    simp only [ConsumerGroup.step]
    split
    · next value hphase hvalue => exact h.fetch hphase hvalue
    · exact h
  | setNX i redis => exact h.step_setNX hids hcareful
  | handle i succeeds => exact h.step_handle i succeeds
  | select i done => exact h.step_select i done
  | release i redis =>
    simp only [ConsumerGroup.step]
    split
    · next m env exhausted hphase => exact h.release hphase hcareful
    · exact h
  | publish i acknowledged delivered => exact h.step_publish i acknowledged delivered
  | commit i took =>
    simp only [ConsumerGroup.step]
    split
    · next m hphase => exact h.commit hphase took
    · exact h
  | cancel i => exact ⟨h.safe.mono (List.Subset.refl _) (List.Subset.refl _) rfl rfl,
      fun j => ⟨(h.ready j).fetched, (h.ready j).phase⟩, h.claims⟩
  | quit i => exact h.step_quit i
  | restart i => exact h.restart fun env henv => hcareful env henv
  | expire key => exact h.unclaim key
  | foreign group id claims =>
    simp only [ConsumerGroup.step]
    split
    · exact h
    · next hgroup =>
      split
      · exact h.foreign hgroup id
      · exact h.unclaim _

end Moves

/-! ## Runs -/

/-- **No event is dropped** in a run that keeps its claims in order, over a Kafka in which an
id names one event. -/
theorem never_drops {ι : Type} [DecidableEq ι] (c : ConsumerGroup) (log : Log)
    (hids : DistinctIDs c log) (events : List (Event ι))
    (hcareful : Each (c.step log) (Careful c) World.init events) :
    Always (c.step log) (NeverDrops c log) World.init events := by
  have hinit : Inv c log (World.init : World ι) :=
    ⟨⟨fun _ _ _ ho => absurd ho (Nat.not_lt_zero _), nofun⟩,
      fun i => ⟨fun _ _ _ ho => absurd ho (Nat.not_lt_zero _), trivial⟩, fun _ _ h => by cases h⟩
  have hinv := always_of_each (P := Inv c log) (fun w ev h hev => h.step hids ev hev) hinit hcareful
  exact fun done hdone => (hinv done hdone).safe

/-! ## Two runs -/

/-- An event. -/
def sampleValue : Bytes :=
  bytes "\x7b\"event_id\":\"00000000-0000-0000-0000-000000000007\",\"event_type\":\"case.created\"\x7d"

/-- Two messages that name no event. -/
def untitledValue (eventType : Bytes) : Bytes :=
  bytes "\x7b\"event_type\":\"" ++ eventType ++ bytes "\"\x7d"

/-- What they decode to. -/
def sampleEnvelope (eventID : Uuid) (eventType : Bytes) : Envelope :=
  { eventID, eventType, tenantID := Uuid.ofByte 0, actor := ⟨[], []⟩, viaAgent := none
    resourceURN := [], occurredAt := .ofSec (-62135596800), traceID := [], payload := none }

def sampleDecode (value : Bytes) : Option Envelope :=
  if value = sampleValue then some (sampleEnvelope (Uuid.ofByte 7) (bytes "case.created"))
  else if value = untitledValue (bytes "case.created") then
    some (sampleEnvelope (Uuid.ofByte 0) (bytes "case.created"))
  else if value = untitledValue (bytes "case.closed") then
    some (sampleEnvelope (Uuid.ofByte 0) (bytes "case.closed"))
  else none

/-- A group with all its parts; the decoding of other messages does not matter. -/
def sampleGroup : ConsumerGroup :=
  { group := bytes "search-indexer", decode := sampleDecode, hasDedup := true, canRelease := true
    hasDLQ := true, maxRetries := 0 }

def samplePartition : Partition := ⟨bytes "case.events.v1", 0⟩

/-- Kafka with the given messages in one partition. -/
def sampleLog (values : List Bytes) : Log := fun p => if p = samplePartition then values else []

/-- The event twice: the first time the handler fails once, the second time it is skipped. -/
def skipRun : List (Event Unit) :=
  [.fetch () samplePartition, .setNX () .answers, .handle () false, .select () false,
    .handle () true, .commit () true, .fetch () samplePartition, .setNX () .answers,
      .commit () true]

/-- The member crashes after its claim. -/
def crashRun : List (Event Unit) :=
  [.fetch () samplePartition, .setNX () .answers, .restart (), .fetch () samplePartition,
    .setNX () .answers, .commit () true]

theorem never_drops_skip :
    (run (sampleGroup.step (sampleLog [sampleValue, sampleValue])) World.init skipRun).committed
        samplePartition = 2 ∧
      Always (sampleGroup.step (sampleLog [sampleValue, sampleValue]))
        (NeverDrops sampleGroup (sampleLog [sampleValue, sampleValue])) World.init skipRun := by
  have hknown : ∀ env, Known sampleGroup (sampleLog [sampleValue, sampleValue]) env →
      sampleDecode sampleValue = some env := by
    rintro env ⟨p, value, hvalue, hdecode⟩
    unfold sampleLog at hvalue
    split at hvalue
    · obtain rfl : value = sampleValue := by simpa using hvalue
      exact hdecode
    · exact absurd hvalue List.not_mem_nil
  exact ⟨by decide, never_drops sampleGroup _
    (fun env env' h h' _ => Option.some.inj ((hknown env h).symm.trans (hknown env' h')))
    skipRun (by decide)⟩

/-- A crash drops the event, and a missing event id takes one event for another. -/
theorem crash_drops : (¬ Always (sampleGroup.step (sampleLog [sampleValue]))
      (NeverDrops sampleGroup (sampleLog [sampleValue])) World.init crashRun) ∧
    ¬ Always (sampleGroup.step (sampleLog [untitledValue (bytes "case.created"),
        untitledValue (bytes "case.closed")]))
      (NeverDrops sampleGroup (sampleLog [untitledValue (bytes "case.created"),
        untitledValue (bytes "case.closed")])) World.init skipRun := by
  constructor
  · intro h
    have hdisposed := (h crashRun List.prefix_rfl).committed samplePartition 0 sampleValue
      (by decide) (by decide)
    revert hdisposed
    decide
  · intro h
    have hdisposed := (h skipRun List.prefix_rfl).committed samplePartition 1
      (untitledValue (bytes "case.closed")) (by decide) (by decide)
    revert hdisposed
    decide

end ConsumerGroup

end Windrose.Events

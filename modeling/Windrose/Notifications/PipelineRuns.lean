/-
  Notifications/PipelineRuns.lean --- when every recipient gets a message exactly once.

  Source: services/notification-service/internal/pipeline/pipeline.go, email.go, inapp.go,
  internal/worker/worker.go (flushDigests, sendDeferredEmail).

  `Process` returns no error for a recipient whose reads or whose delivery failed, and only
  an in-app message and a deferred email are held back by the delivery row of an earlier
  call; a digest buffer is gone before it is sent.  `Pipeline.Fits` says of a step that it
  comes to none of these.
-/
import Mathlib.Data.List.Flatten
import Windrose.Foundation.Runs
import Windrose.Notifications.Pipeline

set_option autoImplicit false

namespace Windrose.Notifications

open Windrose.Foundation

/-! ## What is promised -/

/-- The channels of an audience's recipient that the preferences allow, and that
`deliverToRecipient` has. -/
def Settings.channelsIn (s : Settings) (e : Event) (m : Mapping)
    (out : Table String (List Channel)) (user : String) : List Channel :=
  match out.find user with
  | none => []
  | some plan =>
    (resolveChannels (s.preferences user) plan e (m.eventClass = severityCritical)).filter
      (· ≠ .webhook)

/-- The channels that an event's recipient is to get a message on. -/
def Settings.allowed (s : Settings) (id : Nat) (user : String) : List Channel :=
  match s.registry (s.event id).eventType with
  | none => []
  | some m => s.channelsIn (s.event id) m (s.resolveAudience (s.event id) m fun _ => false) user

/-- The message of an event for a recipient on a channel. -/
def message (id : Nat) (user : String) (ch : Channel) : Key := ⟨.event id, user, ch⟩

namespace Pipeline

def isQueued (status : Option DeliveryStatus) : Bool :=
  match status with
  | some (.queued _) => true
  | _ => false

/-- No call is under way, and the sweeps have nothing left. -/
def Settled (w : Pipeline) : Prop :=
  w.calls = [] ∧ w.buffers = [] ∧ ∀ k, isQueued (w.deliveries.find k) = false

/-- What is promised of a state. -/
structure Sound (s : Settings) (w : Pipeline) : Prop where
  /-- Nothing is handed over twice. -/
  once : w.handed.Nodup
  /-- What the preferences allow is handed over in the end. -/
  complete : w.Settled → ∀ id ∈ w.consumed, ∀ user, ∀ ch ∈ s.allowed id user,
    message id user ch ∈ w.handed

/-- How often a message was handed over, is in a digest buffer, or is queued as a deferred
email. -/
def tally (w : Pipeline) (k : Key) : Nat :=
  w.handed.count k + (w.buffers.flatMap (·.2.items)).count k +
    (isQueued (w.deliveries.find k)).toNat

/-- A message is under way, or was handed over. -/
def UnderWay (w : Pipeline) (k : Key) : Prop := w.tally k = 1

/-- The channels' messages are all under way. -/
def Behind (w : Pipeline) (id : Nat) (user : String) (channels : List Channel) : Prop :=
  ∀ ch ∈ channels, ch ≠ .webhook → w.UnderWay (message id user ch)

/-- An in-app delivery: no error and no rollup for a message that is not under way, and no
error while there are others behind it that are not. -/
def FitsInApp (s : Settings) (w : Pipeline) (id : Nat) (r : Recipient) (rest : List Channel)
    (a : Answers) : Prop :=
  if a.counted && a.stored then
    w.countInAppToday r.user < s.inAppCap ∨ w.UnderWay (message id r.user .inApp)
  else w.Behind id r.user (.inApp :: rest)

/-- An email: it is sent or buffered unless it is under way.  Of one that is deferred, the
row is there exactly if it is under way. -/
def FitsEmail (w : Pipeline) (id : Nat) (m : Mapping) (r : Recipient) (rest : List Channel)
    (a : Answers) : Prop :=
  let k := message id r.user .email
  match emailRoute m r a with
  | .skip => w.UnderWay k
  | .suppress => w.UnderWay k
  | .deferred _ =>
    if a.stored then w.UnderWay k ↔ (w.deliveries.find k).isSome = true
    else w.Behind id r.user (.email :: rest)
  | .digest => if a.stored then ¬w.UnderWay k else w.Behind id r.user (.email :: rest)
  | .immediate => a.sent = true ↔ ¬w.UnderWay k

instance (w : Pipeline) (k : Key) : Decidable (w.UnderWay k) :=
  inferInstanceAs (Decidable (w.tally k = 1))

instance (w : Pipeline) (id : Nat) (user : String) (channels : List Channel) :
    Decidable (w.Behind id user channels) :=
  inferInstanceAs (Decidable (∀ ch ∈ channels, ch ≠ .webhook → w.UnderWay (message id user ch)))

/-- The condition on a delivery. -/
def FitsNext (s : Settings) (w : Pipeline) (i : Nat) (a : Answers) : Prop :=
  match w.calls[i]? with
  | some ⟨id, m, _, some r⟩ =>
    match r.channels with
    | .inApp :: rest => w.FitsInApp s id r rest a
    | .email :: rest => w.FitsEmail id m r rest a
    | _ => True
  | _ => True

/-- The audience that a call begins with has every channel whose message is not under way. -/
def FitsProcess (s : Settings) (w : Pipeline) (id : Nat) (fails : Lookup → Bool)
    (kept : String → Bool) : Prop :=
  ∀ m, s.registry (s.event id).eventType = some m → ∀ user, ∀ ch ∈ s.allowed id user,
    w.UnderWay (message id user ch) ∨ ch ∈ s.channelsIn (s.event id) m
      (truncate kept (s.resolveAudience (s.event id) m fails)) user

/-- The reads for a recipient succeed, or all of its messages are under way. -/
def FitsRecipient (s : Settings) (w : Pipeline) (i : Nat) (user : String) (read : Bool)
    (info : Option String) : Prop :=
  read = true ∧ info.isSome = true ∨
    ∀ c, w.calls[i]? = some c →
      w.Behind c.event user (s.channelsIn (s.event c.event) c.mapping c.recipients user)

/-- The condition on one step. -/
def Fits (s : Settings) (w : Pipeline) : Op → Prop
  | .wait _ => True
  | .process id fails kept => w.FitsProcess s id fails kept
  | .recipient i user _ read info => w.FitsRecipient s i user read info
  | .next i a => w.FitsNext s i a
  -- A buffer that is taken is sent.
  | .flush _ taken info sent => taken = true → sent = true ∧ info.any (· ≠ "") = true
  -- A deferred email is sent and its row updated, or neither.
  | .send _ sent updated => sent = updated

/-! ## The invariant -/

/-- The channels that a call still has before it for a user. -/
def ahead (s : Settings) (c : Call) (user : String) : List Channel :=
  (match c.current with
    | some r => if r.user = user then r.channels else []
    | none => []) ++
  s.channelsIn (s.event c.event) c.mapping c.recipients user

/-- The counts of the messages and the delivery rows. -/
structure Counted (w : Pipeline) : Prop where
  once : ∀ k, w.tally k ≤ 1
  stored : ∀ k, (w.deliveries.find k).isSome = true → w.UnderWay k
  inApp : ∀ k, k.channel = .inApp → w.UnderWay k → (w.deliveries.find k).isSome = true

/-- A call gets to every message that is not under way. -/
def Covers (s : Settings) (w : Pipeline) (c : Call) : Prop :=
  s.registry (s.event c.event).eventType = some c.mapping ∧
    ∀ user, ∀ ch ∈ s.allowed c.event user,
      w.UnderWay (message c.event user ch) ∨ ch ∈ ahead s c user

/-- The invariant. -/
structure Good (s : Settings) (w : Pipeline) : Prop where
  counted : Counted w
  calls : ∀ c ∈ w.calls, w.Covers s c
  consumed : ∀ id ∈ w.consumed, ∀ user, ∀ ch ∈ s.allowed id user,
    w.UnderWay (message id user ch)

variable {s : Settings} {w w' : Pipeline} {k k' : Key}

theorem tally_of_settled (h : w.Settled) : w.tally k = w.handed.count k := by
  obtain ⟨-, hbuffers, hqueued⟩ := h
  rw [tally, hbuffers, hqueued]
  rfl

theorem Good.sound (h : Good s w) : Sound s w where
  once := by
    refine List.nodup_iff_count_le_one.mpr fun k => le_trans ?_ (h.counted.once k)
    rw [tally, Nat.add_assoc]
    exact Nat.le_add_right _ _
  complete hsettled id hid user ch hch := by
    have hunder := h.consumed id hid user ch hch
    rw [UnderWay, tally_of_settled hsettled] at hunder
    exact List.count_pos_iff.mp (hunder ▸ Nat.one_pos)

/-! ## Growth

What a step does to the counts: the messages under way stay under way. -/

/-- The calls stay, and no message is lost. -/
structure Extends (w w' : Pipeline) : Prop where
  calls : w'.calls = w.calls
  consumed : w'.consumed = w.consumed
  underWay : ∀ k, w.UnderWay k → w'.UnderWay k

theorem Extends.refl (w : Pipeline) : Extends w w := ⟨rfl, rfl, fun _ h => h⟩

theorem Covers.mono {c : Call} (h : w.Covers s c) (hext : ∀ k, w.UnderWay k → w'.UnderWay k) :
    w'.Covers s c :=
  ⟨h.1, fun user ch hch => (h.2 user ch hch).imp_left (hext _)⟩

theorem good_of_extends (h : Good s w) (hcounted : Counted w') (hext : Extends w w') :
    Good s w' where
  counted := hcounted
  calls c hc := (h.calls c (hext.calls ▸ hc)).mono hext.underWay
  consumed id hid user ch hch := hext.underWay _ (h.consumed id (hext.consumed ▸ hid) user ch hch)

/-- The counts move by one message at most. -/
structure Moves (w w' : Pipeline) (k : Key) (n : Nat) : Prop where
  tally : ∀ k', w'.tally k' = w.tally k' + if k' = k then n else 0
  others : ∀ k', k' ≠ k → w'.deliveries.find k' = w.deliveries.find k'
  calls : w'.calls = w.calls
  consumed : w'.consumed = w.consumed

theorem Moves.counted {n : Nat} (h : Moves w w' k n) (hw : Counted w) (hn : w.tally k + n = 1)
    (hrow : k.channel = .inApp → (w'.deliveries.find k).isSome = true) :
    Counted w' ∧ Extends w w' ∧ w'.UnderWay k := by
  have hk : w'.tally k = 1 := by rw [h.tally, if_pos rfl, hn]
  have hother : ∀ k', k' ≠ k → w'.tally k' = w.tally k' := by
    intro k' hne
    rw [h.tally, if_neg hne]
    rfl
  refine ⟨⟨fun k' => ?_, fun k' hsome => ?_, fun k' hch hunder => ?_⟩,
    ⟨h.calls, h.consumed, fun k' hunder => ?_⟩, hk⟩
  all_goals by_cases hne : k' = k
  · rw [hne, hk]
  · exact (hother k' hne).trans_le (hw.once k')
  · exact hne ▸ hk
  · rw [h.others k' hne] at hsome
    exact (hother k' hne).trans (hw.stored k' hsome)
  · subst hne
    exact hrow hch
  · rw [h.others k' hne]
    exact hw.inApp k' hch ((hother k' hne).symm.trans hunder)
  · exact hne ▸ hk
  · exact (hother k' hne).trans hunder

theorem good_of_tally_eq (h : Good s w) (htally : ∀ k, w'.tally k = w.tally k)
    (hrows : ∀ k, (w'.deliveries.find k).isSome = (w.deliveries.find k).isSome)
    (hcalls : w'.calls = w.calls) (hconsumed : w'.consumed = w.consumed) : Good s w' := by
  have hunder : ∀ k, w'.UnderWay k ↔ w.UnderWay k := fun k => by rw [UnderWay, UnderWay, htally]
  refine good_of_extends h ⟨fun k => ?_, fun k hsome => ?_, fun k hch hk => ?_⟩
    ⟨hcalls, hconsumed, fun k => (hunder k).mpr⟩
  · exact (htally k).trans_le (h.counted.once k)
  · exact (hunder k).mpr (h.counted.stored k (hrows k ▸ hsome))
  · exact hrows k ▸ h.counted.inApp k hch ((hunder k).mp hk)

theorem Moves.refl (w : Pipeline) (k : Key) : Moves w w k 0 := by
  refine ⟨fun k' => ?_, fun _ _ => rfl, rfl, rfl⟩
  rw [ite_self, Nat.add_zero]

theorem Moves.trans {w'' : Pipeline} {n n' : Nat} (h : Moves w w' k n) (h' : Moves w' w'' k n') :
    Moves w w'' k (n + n') where
  tally k' := by
    rw [h'.tally, h.tally]
    split
    · exact Nat.add_assoc _ _ _
    · rfl
  others k' hne := (h'.others k' hne).trans (h.others k' hne)
  calls := h'.calls.trans h.calls
  consumed := h'.consumed.trans h.consumed

/-! ## What the writes move -/

theorem find_insertDelivery (w : Pipeline) (k : Key) (status : DeliveryStatus) :
    (w.insertDelivery k status).deliveries.find k = some ((w.deliveries.find k).getD status) := by
  rw [insertDelivery, Table.find_upsert]
  cases w.deliveries.find k <;> rfl

theorem moves_insertDelivery (w : Pipeline) (k : Key) (status : DeliveryStatus) :
    Moves w (w.insertDelivery k status) k
      (if (w.deliveries.find k).isSome then 0 else (isQueued (some status)).toNat) where
  tally k' := by
    rw [tally, tally]
    by_cases hk : k' = k
    · subst hk
      rw [find_insertDelivery, if_pos rfl]
      cases w.deliveries.find k' <;> rfl
    · rw [if_neg hk, insertDelivery, Table.find_upsert_of_ne hk]
      rfl
  others k' hne := Table.find_upsert_of_ne hne
  calls := rfl
  consumed := rfl

theorem moves_recordEmail {status : DeliveryStatus} (hstatus : isQueued (some status) = false)
    (w : Pipeline) (k : Key) (a : Answers) : Moves w (w.recordEmail k status a) k 0 := by
  rw [recordEmail]
  split
  · have h := moves_insertDelivery w k status
    rwa [hstatus, Bool.toNat_false, ite_self] at h
  · exact Moves.refl w k

theorem moves_hand (w : Pipeline) (k : Key) : Moves w (w.hand k) k 1 where
  tally k' := by
    show (k :: w.handed).count k' + _ + _ = w.tally k' + _
    rw [tally, List.count_cons, Nat.add_right_comm _ _ (if k' = k then 1 else 0),
      Nat.add_right_comm _ _ (if k' = k then 1 else 0)]
    by_cases hk : k' = k
    · rw [if_pos hk, if_pos (beq_iff_eq.mpr hk.symm)]
      rfl
    · rw [if_neg hk, if_neg fun h => hk (beq_iff_eq.mp h).symm]
      rfl
  others _ _ := rfl
  calls := rfl
  consumed := rfl

theorem perm_bufferDigest (w : Pipeline) (s : Settings) (m : Mapping) (k : Key) (a : Answers) :
    ((w.bufferDigest s m k a).buffers.flatMap (·.2.items)).Perm
      (k :: w.buffers.flatMap (·.2.items)) := by
  rw [bufferDigest]
  cases hb : w.buffers.find (k.recipient, m.eventClass) with
  | none => exact (Table.perm_upsert_of_none hb).flatMap_right _
  | some b =>
    refine ((Table.perm_upsert_of_some hb).flatMap_right _).trans ?_
    refine .trans ?_ (((Table.perm_remove hb).flatMap_right _).cons k).symm
    simp only [List.flatMap_cons]
    rw [← List.cons_append]
    exact (List.perm_append_singleton k b.items).append_right _

theorem moves_bufferDigest (w : Pipeline) (s : Settings) (m : Mapping) (k : Key) (a : Answers) :
    Moves w (w.bufferDigest s m k a) k 1 where
  tally k' := by
    rw [tally, (perm_bufferDigest w s m k a).count_eq, List.count_cons]
    show w.handed.count k' + _ + _ = w.tally k' + _
    rw [tally, Nat.add_right_comm _ _ (if k' = k then 1 else 0), ← Nat.add_assoc]
    by_cases hk : k' = k
    · rw [if_pos hk, if_pos (beq_iff_eq.mpr hk.symm)]
      rfl
    · rw [if_neg hk, if_neg fun h => hk (beq_iff_eq.mp h).symm]
      rfl
  others _ _ := rfl
  calls := rfl
  consumed := rfl

/-! ## Deliveries -/

theorem Counted.tally_eq_zero (hw : Counted w) (h : ¬w.UnderWay k) : w.tally k = 0 := by
  have hle := hw.once k
  rw [UnderWay] at h
  omega

theorem counted_insertNotification (hw : Counted w) (hch : k.channel = .inApp) :
    Counted (w.insertNotification k) ∧ Extends w (w.insertNotification k) ∧
      (w.insertNotification k).UnderWay k := by
  rw [insertNotification]
  cases hfind : w.deliveries.find k with
  | some status => exact ⟨hw, .refl w, hw.stored k (by rw [hfind]; rfl)⟩
  | none =>
    have hnot : ¬w.UnderWay k := fun h => by
      have hsome := hw.inApp k hch h
      rw [hfind] at hsome
      cases hsome
    have hmoves := (moves_insertDelivery w k .delivered).trans
      (moves_hand (w.insertDelivery k .delivered) k)
    rw [hfind] at hmoves
    have hsame : Moves w { (w.insertDelivery k .delivered).hand k with
        notifications := (k.recipient, w.clock) :: w.notifications } k 1 :=
      ⟨hmoves.tally, hmoves.others, hmoves.calls, hmoves.consumed⟩
    refine hsame.counted hw ?_ fun _ => ?_
    · rw [hw.tally_eq_zero hnot]
    · show ((w.insertDelivery k .delivered).deliveries.find k).isSome = true
      rw [find_insertDelivery]
      rfl

/-- What a delivery on a channel comes to. -/
structure Delivers (w : Pipeline) (out : Pipeline × Bool) (id : Nat) (user : String)
    (ch : Channel) (rest : List Channel) : Prop where
  counted : Counted out.1
  extends_ : Extends w out.1
  done : ch ≠ .webhook → out.2 = true → out.1.UnderWay (message id user ch)
  error : out.2 = false → w.Behind id user (ch :: rest)

section Deliver

variable {id : Nat} {m : Mapping} {r : Recipient} {rest : List Channel} {a : Answers}

theorem deliverInApp_over (hok : (a.counted && a.stored) = true)
    (hcap : s.inAppCap ≤ w.countInAppToday k.recipient) : w.deliverInApp s k a =
      (w.insertNotification ⟨.rollup k.recipient (w.clock / day), k.recipient, .inApp⟩, true) := by
  rw [deliverInApp, if_pos hok]
  dsimp only
  rw [if_pos hcap]

theorem deliverInApp_under (hok : (a.counted && a.stored) = true)
    (hcap : w.countInAppToday k.recipient < s.inAppCap) :
    w.deliverInApp s k a = (w.insertNotification k, true) := by
  rw [deliverInApp, if_pos hok]
  dsimp only
  rw [if_neg (Nat.not_le.mpr hcap)]

theorem delivers_inApp (hw : Counted w) (hfits : w.FitsInApp s id r rest a) :
    Delivers w (w.deliverInApp s (message id r.user .inApp) a) id r.user .inApp rest := by
  rw [FitsInApp] at hfits
  split at hfits
  · next hok =>
    rcases Nat.lt_or_ge (w.countInAppToday r.user) s.inAppCap with hcap | hcap
    · rw [deliverInApp_under hok hcap]
      obtain ⟨hcounted, hext, hunder⟩ :=
        counted_insertNotification (k := message id r.user .inApp) hw rfl
      exact ⟨hcounted, hext, fun _ _ => hunder, fun h => nomatch h⟩
    · -- The rollup is inserted; the message itself is under way.
      have hunder := hfits.resolve_left (Nat.not_lt.mpr hcap)
      rw [deliverInApp_over hok hcap]
      obtain ⟨hcounted, hext, -⟩ :=
        counted_insertNotification (k := ⟨.rollup r.user (w.clock / day), r.user, .inApp⟩) hw rfl
      exact ⟨hcounted, hext, fun _ _ => hext.underWay _ hunder, fun h => nomatch h⟩
  · next hfail =>
    rw [deliverInApp, if_neg hfail]
    exact ⟨hw, .refl w, nofun, fun _ => hfits⟩

theorem Moves.delivers {n : Nat} (h : Moves w w' k n) (hw : Counted w)
    (hk : k = message id r.user .email) (hn : w.tally k + n = 1) :
    Delivers w (w', true) id r.user .email rest := by
  subst hk
  obtain ⟨hcounted, hext, hunder⟩ := h.counted hw hn fun hch => nomatch hch
  exact ⟨hcounted, hext, fun _ _ => hunder, fun h => nomatch h⟩

theorem delivers_email (hw : Counted w) (hfits : w.FitsEmail id m r rest a) :
    Delivers w (w.deliverEmail s m r (message id r.user .email) a) id r.user .email rest := by
  rw [FitsEmail] at hfits
  rw [deliverEmail]
  set k := message id r.user .email with hk
  have hfailed : w.Behind id r.user (.email :: rest) →
      Delivers w (w, false) id r.user .email rest :=
    fun hbehind => ⟨hw, .refl w, nofun, fun _ => hbehind⟩
  cases hroute : emailRoute m r a with
  | skip =>
    rw [hroute] at hfits
    exact (moves_recordEmail rfl w k a).delivers hw hk hfits
  | suppress =>
    rw [hroute] at hfits
    exact (moves_recordEmail rfl w k a).delivers hw hk hfits
  | deferred due =>
    rw [hroute] at hfits
    dsimp only at hfits ⊢
    split at hfits
    · next hstored =>
      rw [if_pos hstored]
      have hmoves := moves_insertDelivery w k (.queued due)
      by_cases hunder : w.UnderWay k
      · rw [if_pos (hfits.mp hunder)] at hmoves
        exact hmoves.delivers hw hk hunder
      · rw [if_neg fun hsome => hunder (hfits.mpr hsome)] at hmoves
        refine hmoves.delivers hw hk ?_
        rw [hw.tally_eq_zero hunder]
        rfl
    · next hstored =>
      rw [if_neg hstored]
      exact hfailed hfits
  | digest =>
    rw [hroute] at hfits
    dsimp only at hfits ⊢
    split at hfits
    · next hstored =>
      rw [if_pos hstored]
      refine ((moves_bufferDigest w s m k a).trans (moves_recordEmail rfl _ k a)).delivers
        hw hk ?_
      rw [hw.tally_eq_zero hfits]
    · next hstored =>
      rw [if_neg hstored]
      exact hfailed hfits
  | immediate =>
    rw [hroute] at hfits
    dsimp only at hfits ⊢
    split
    · next hsent =>
      refine ((moves_hand w k).trans (moves_recordEmail rfl _ k a)).delivers hw hk ?_
      rw [hw.tally_eq_zero (hfits.mp hsent)]
    · next hsent =>
      have hunder : w.UnderWay k := by
        by_contra hnot
        exact hsent (hfits.mpr hnot)
      exact (moves_recordEmail rfl w k a).delivers hw hk hunder

end Deliver

variable {ch : Channel} {user : String} {out : Table String (List Channel)} {id : Nat}

theorem delivers {c : Call} {r : Recipient} {rest : List Channel} {a : Answers} (hw : Counted w)
    (hfits : match ch with
      | .inApp => w.FitsInApp s c.event r rest a
      | .email => w.FitsEmail c.event c.mapping r rest a
      | .webhook => True) : Delivers w (w.deliver s c r ch a) c.event r.user ch rest := by
  cases ch with
  | inApp => exact delivers_inApp hw hfits
  | email => exact delivers_email hw hfits
  | webhook => exact ⟨hw, .refl w, fun h => absurd rfl h, fun h => nomatch h⟩

/-! ## Calls -/

theorem mem_channelsIn {e : Event} {m : Mapping} (h : ch ∈ s.channelsIn e m out user) :
    ch ≠ .webhook ∧ ∃ plan, out.find user = some plan ∧
      ch ∈ resolveChannels (s.preferences user) plan e (m.eventClass = severityCritical) := by
  rw [Settings.channelsIn] at h
  split at h
  · cases h
  · next plan hplan =>
    obtain ⟨hmem, hne⟩ := List.mem_filter.mp h
    exact ⟨of_decide_eq_true hne, plan, hplan, hmem⟩

theorem ne_webhook_of_allowed (h : ch ∈ s.allowed id user) : ch ≠ .webhook := by
  rw [Settings.allowed] at h
  split at h
  · cases h
  · exact (mem_channelsIn h).1

theorem mem_resolveChannels_of_perm {prefs : Option Preferences} {channels plan : List Channel}
    (h : channels.Perm plan) (e : Event) (critical : Bool)
    (hch : ch ∈ resolveChannels prefs plan e critical) :
    ch ∈ resolveChannels prefs channels e critical := by
  cases prefs with
  | none => exact h.mem_iff.mpr hch
  | some prefs =>
    rw [resolveChannels] at hch ⊢
    cases hover : prefs.channelOverride.lookup e.eventType with
    | some channels' =>
      rw [hover] at hch
      exact hch
    | none =>
      rw [hover, Option.getD_none] at hch
      rw [Option.getD_none]
      split
      · next hmuted =>
        rw [if_pos hmuted] at hch
        exact (h.filter _).mem_iff.mpr hch
      · next hmuted =>
        rw [if_neg hmuted] at hch
        exact h.mem_iff.mpr hch

theorem channelsIn_remove_of_ne {e : Event} {m : Mapping} {user' : String} (h : user' ≠ user) :
    s.channelsIn e m (out.remove user) user' = s.channelsIn e m out user' := by
  rw [Settings.channelsIn, Settings.channelsIn, Table.find_remove_of_ne h]

theorem ahead_none (id : Nat) (m : Mapping) (out : Table String (List Channel)) (user : String) :
    ahead s ⟨id, m, out, none⟩ user = s.channelsIn (s.event id) m out user := List.nil_append _

theorem mem_ahead_some {m : Mapping} {r : Recipient} : ch ∈ ahead s ⟨id, m, out, some r⟩ user ↔
      (r.user = user ∧ ch ∈ r.channels) ∨ ch ∈ s.channelsIn (s.event id) m out user := by
  refine List.mem_append.trans (or_congr_left ?_)
  show ch ∈ (if r.user = user then r.channels else []) ↔ _
  split
  · next h => exact (and_iff_right h).symm
  · next h => exact iff_of_false List.not_mem_nil fun hboth => h hboth.1

theorem good_setCall {i : Nat} {c : Call} (hw : Good s w) (hc : w.Covers s c) :
    Good s (w.setCall i c) where
  counted := ⟨hw.counted.once, hw.counted.stored, hw.counted.inApp⟩
  calls c' hc' := by
    rcases List.mem_or_eq_of_mem_set hc' with hold | rfl
    · exact hw.calls c' hold
    · exact hc
  consumed := hw.consumed

theorem good_process {fails : Lookup → Bool} {kept : String → Bool} (hw : Good s w)
    (hfits : w.FitsProcess s id fails kept) : Good s (w.process s id fails kept) := by
  rw [process]
  split
  · next hnone =>
    refine ⟨⟨hw.counted.once, hw.counted.stored, hw.counted.inApp⟩, hw.calls, ?_⟩
    refine List.forall_mem_cons.mpr ⟨fun user ch hch => ?_, hw.consumed⟩
    rw [Settings.allowed, hnone] at hch
    cases hch
  · next m hsome =>
    refine ⟨⟨hw.counted.once, hw.counted.stored, hw.counted.inApp⟩, ?_, hw.consumed⟩
    refine List.forall_mem_cons.mpr ⟨⟨hsome, fun user ch hch => ?_⟩, hw.calls⟩
    exact hfits m hsome user ch hch

theorem good_startRecipient {i : Nat} {channels : List Channel} {read : Bool}
    {info : Option String} (hw : Good s w) (hfits : w.FitsRecipient s i user read info) :
    Good s (w.startRecipient s i user channels read info) := by
  rw [startRecipient]
  split
  · next id m recipients hcall =>
    split
    · next plan hplan =>
      split
      · next hperm =>
        obtain ⟨hmapping, hcovers⟩ := hw.calls _ (List.mem_of_getElem? hcall)
        refine good_setCall hw ⟨hmapping, fun user' ch hch => ?_⟩
        refine (hcovers user' ch hch).elim .inl fun hahead => ?_
        have htodo : ch ∈ s.channelsIn (s.event id) m recipients user' := hahead
        by_cases huser : user' = user
        · subst huser
          obtain ⟨hne, plan', hfind, hmem⟩ := mem_channelsIn htodo
          obtain rfl : plan = plan' := Option.some.inj (hplan.symm.trans hfind)
          rcases hfits with ⟨hread, hinfo⟩ | hbehind
          · obtain ⟨address, rfl⟩ := Option.isSome_iff_exists.mp hinfo
            right
            rw [if_pos hread]
            exact mem_ahead_some.mpr (.inl ⟨rfl, mem_resolveChannels_of_perm hperm _ _ hmem⟩)
          · exact .inl (hbehind _ hcall ch htodo hne)
        · right
          refine List.mem_append_right _ ?_
          rw [channelsIn_remove_of_ne huser]
          exact htodo
      · exact hw
    · exact hw
  · exact hw

theorem good_next {i : Nat} {a : Answers} (hw : Good s w) (hfits : w.FitsNext s i a) :
    Good s (w.next s i a) := by
  rw [next.eq_def]
  rw [FitsNext.eq_def] at hfits
  split
  · next id m recipients r hcall =>
    rw [hcall] at hfits
    obtain ⟨hmapping, hcovers⟩ := hw.calls _ (List.mem_of_getElem? hcall)
    dsimp only at hfits hmapping
    cases hchannels : r.channels with
    | nil =>
      refine good_setCall hw ⟨hmapping, fun user ch hch => ?_⟩
      refine (hcovers user ch hch).imp_right fun hahead => ?_
      rcases mem_ahead_some.mp hahead with ⟨-, hcurrent⟩ | htodo
      · rw [hchannels] at hcurrent
        cases hcurrent
      · exact (ahead_none id m recipients user).symm ▸ htodo
    | cons ch rest =>
      have hdelivers : Delivers w (w.deliver s ⟨id, m, recipients, some r⟩ r ch a) id r.user
          ch rest := by
        refine delivers hw.counted ?_
        rw [hchannels] at hfits
        cases ch <;> exact hfits
      obtain ⟨hcounted, hext, hdone, herror⟩ := hdelivers
      dsimp only
      generalize w.deliver s ⟨id, m, recipients, some r⟩ r ch a = out at *
      obtain ⟨w', ok⟩ := out
      refine good_setCall (good_of_extends hw hcounted hext) ⟨hmapping, fun user ch' hch' => ?_⟩
      have hne := ne_webhook_of_allowed hch'
      refine (hcovers user ch' hch').elim (fun h => .inl (hext.underWay _ h)) fun hahead => ?_
      rcases mem_ahead_some.mp hahead with ⟨rfl, hcurrent⟩ | htodo
      · rw [hchannels] at hcurrent
        cases ok with
        | false => exact .inl (hext.underWay _ (herror rfl ch' hcurrent hne))
        | true =>
          rcases List.mem_cons.mp hcurrent with rfl | hrest
          · exact .inl (hdone hne rfl)
          · exact .inr (mem_ahead_some.mpr (.inl ⟨rfl, hrest⟩))
      · exact .inr (List.mem_append_right _ htodo)
  · next id m hcall =>
    obtain ⟨-, hcovers⟩ := hw.calls _ (List.mem_of_getElem? hcall)
    refine ⟨⟨hw.counted.once, hw.counted.stored, hw.counted.inApp⟩, fun c hc => ?_, ?_⟩
    · exact hw.calls c (List.mem_of_mem_eraseIdx hc)
    · refine List.forall_mem_cons.mpr ⟨fun user ch hch => ?_, hw.consumed⟩
      exact (hcovers user ch hch).resolve_right List.not_mem_nil
  · exact hw

/-! ## Sweeps -/

theorem good_flushDigest {b : String × String} {taken sent : Bool} {info : Option String}
    (hw : Good s w) (hfits : taken = true → sent = true ∧ info.any (· ≠ "") = true) :
    Good s (w.flushDigest b taken info sent) := by
  rw [flushDigest]
  split
  · next buffer hfind =>
    split
    · next hdue =>
      obtain ⟨hsent, hinfo⟩ := hfits hdue.2
      rw [hsent, hinfo, Bool.and_self, if_pos rfl]
      refine good_of_tally_eq hw (fun k => ?_) (fun _ => rfl) rfl rfl
      have hperm := ((Table.perm_remove hfind).flatMap_right (·.2.items)).count_eq k
      rw [List.flatMap_cons, List.count_append] at hperm
      rw [tally, tally, hperm, List.count_append]
      dsimp only
      omega
    · exact hw
  · exact hw

theorem tally_sent {due : Nat} (h : w.deliveries.find k = some (.queued due)) (k' : Key) :
    { w.hand k with deliveries := w.deliveries.upsert k .sent fun _ => .sent }.tally k' =
      w.tally k' := by
  have hhand := (moves_hand w k).tally k'
  rw [tally] at hhand ⊢
  by_cases hk : k' = k
  · subst hk
    have hrow : isQueued ((w.hand k').deliveries.find k') = true := congrArg isQueued h
    rw [Table.find_upsert_const]
    rw [hrow, if_pos rfl] at hhand
    exact Nat.add_right_cancel hhand
  · rw [Table.find_upsert_of_ne hk]
    rw [if_neg hk] at hhand
    exact hhand

theorem good_sendDeferred {sent updated : Bool} (hw : Good s w) (hfits : sent = updated) :
    Good s (w.sendDeferred k sent updated) := by
  subst hfits
  rw [sendDeferred]
  split
  · next due hqueued =>
    split
    · cases sent with
      | false => exact hw
      | true =>
        refine good_of_tally_eq hw (tally_sent hqueued) (fun k' => ?_) rfl rfl
        show ((w.deliveries.upsert k .sent fun _ => .sent).find k').isSome = _
        by_cases hk : k' = k
        · rw [hk, Table.find_upsert_const, hqueued]
          rfl
        · rw [Table.find_upsert_of_ne hk]
    · exact hw
  · exact hw

theorem good_step (op : Op) (hw : Good s w) (hfits : w.Fits s op) : Good s (step s w op) := by
  cases op with
  | wait time => exact ⟨⟨hw.counted.once, hw.counted.stored, hw.counted.inApp⟩, hw.calls,
    hw.consumed⟩
  | process id fails kept => exact good_process hw hfits
  | recipient i user channels read info => exact good_startRecipient hw hfits
  | next i a => exact good_next hw hfits
  | flush b taken info sent => exact good_flushDigest hw hfits
  | send k sent updated => exact good_sendDeferred hw hfits

theorem good_start (s : Settings) (clock : Nat) : Good s { clock } where
  counted := ⟨fun _ => Nat.zero_le _, nofun, nofun⟩
  calls _ h := nomatch h
  consumed _ h := nomatch h

/-- Each message that the preferences allow is handed over exactly once, as long as reads and
deliveries that are to bring a message succeed, and a repeated one brings none. -/
theorem delivered_exactly_once (s : Settings) (clock : Nat) (ops : List Op)
    (h : Each (step s) (Fits s) { clock } ops) : Always (step s) (Sound s) { clock } ops := by
  have hgood := always_of_each (P := Good s) (C := Fits s)
    (fun w op hw hfits => good_step op hw hfits) (good_start s clock) h
  exact fun done hdone => (hgood done hdone).sound

/-- A case is assigned, and its assignee is told in the app and by email. -/
def assignment : Settings where
  event _ := ⟨"case.assigned", "urn:case", [("assignee", .text "u1")]⟩
  registry _ := some ⟨[⟨"assignee", ""⟩], [.inApp, .email], "warning", false⟩
  rules := []
  role _ _ := []
  group _ := []
  preferences _ := none
  quietUntil _ _ := none

theorem assignment_audience (fails : Lookup → Bool) (m : Mapping)
    (h : assignment.registry "case.assigned" = some m) :
    assignment.resolveAudience (assignment.event 0) m fails = [("u1", [.inApp, .email])] := by
  cases h
  cases hrules : fails .rules <;> rw [Settings.resolveAudience, hrules] <;> rfl

theorem fits_process_assignment (w : Pipeline) :
    w.FitsProcess assignment 0 (fun _ => false) fun _ => true := by
  intro m hm user ch hch
  have hlength : ¬maxAudience < [("u1", [Channel.inApp, .email])].length := by decide
  rw [truncate, assignment_audience _ m hm, if_neg hlength, ← assignment_audience _ m hm]
  rw [Settings.allowed, hm] at hch
  exact .inr hch

/-- The event comes a second time, when the directory is away. -/
theorem delivered_exactly_once_assigned : let ops : List Op :=
      [.process 0 (fun _ => false) (fun _ => true),
        .recipient 0 "u1" [.email, .inApp] true (some "u1@x"), .next 0 {}, .next 0 {}, .next 0 {},
        .next 0 {}, .process 0 (fun _ => false) (fun _ => true),
        .recipient 0 "u1" [.inApp, .email] true none, .next 0 {}]
    Always (step assignment) (Sound assignment) { clock := 0 } ops ∧
      (run (step assignment) { clock := 0 } ops).handed =
        [message 0 "u1" .inApp, message 0 "u1" .email] := by
  refine ⟨delivered_exactly_once assignment 0 _ ?_, by decide⟩
  refine each_cons.mpr ⟨fits_process_assignment _, each_cons.mpr ⟨.inl ⟨rfl, rfl⟩, each_cons.mpr
    ⟨iff_of_true rfl (by decide), each_cons.mpr ⟨.inl (by decide), each_cons.mpr
    ⟨trivial, each_cons.mpr ⟨trivial, each_cons.mpr ⟨fits_process_assignment _, each_cons.mpr
    ⟨.inr fun c hc => ?_, each_cons.mpr ⟨trivial, each_nil _⟩⟩⟩⟩⟩⟩⟩⟩⟩
  cases hc
  decide

/-- The preferences cannot be read for a moment.  `Process` returns all the same, and its event
does not come again. -/
theorem unread_recipient_gets_nothing : ¬ ∀ (s : Settings) (clock : Nat) (ops : List Op),
      (∀ id m, s.registry (s.event id).eventType = some m →
        (s.resolveAudience (s.event id) m fun _ => false).length ≤ maxAudience) →
      Always (step s) (Sound s) { clock } ops := by
  intro h
  let ops : List Op :=
    [.process 0 (fun _ => false) (fun _ => true), .recipient 0 "u1" [.inApp, .email] false none,
      .next 0 {}]
  have hbound : ∀ id m, assignment.registry (assignment.event id).eventType = some m →
      (assignment.resolveAudience (assignment.event id) m fun _ => false).length ≤ maxAudience := by
    intro id m hm
    refine (congrArg List.length (assignment_audience _ m hm)).trans_le ?_
    decide
  have hsound := h assignment 0 ops hbound ops List.prefix_rfl
  have hsettled : (run (step assignment) { clock := 0 } ops).Settled := ⟨rfl, rfl, fun _ => rfl⟩
  have hallowed : .inApp ∈ assignment.allowed 0 "u1" := by decide
  have hmem := hsound.complete hsettled 0 (by decide) "u1" .inApp hallowed
  exact absurd hmem (by decide)

end Pipeline

end Windrose.Notifications

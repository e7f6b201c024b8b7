/-
  Writebacks/Runs.lean --- what is delivered was approved.

  Source: services/ingestion-service/app/domain/services/writebacks.py.

  The history of a writeback and its row agree (`Recorded`), and a call that delivers it has
  taken it over (`Attending`).  A retry takes over a row that is being delivered, so this is
  kept only if the earlier delivery has ended.
-/
import Windrose.Foundation.Trace
import Windrose.Writebacks.Service

set_option autoImplicit false

namespace Windrose.Writebacks

open Windrose.Foundation Await

/-! ## What may happen -/

/-- The writeback that an event is about. -/
def Event.writeback : Event → Option Bytes
  | .reserved _ _ => none
  | .enqueued id _ _ => some id
  | .approved id _ => some id
  | .rejected id => some id
  | .sent id _ => some id
  | .recorded id _ => some id

/-- The interchange was rendered from what was asked, with numbers that were reserved. -/
def Rendered (checksum : Bytes → Bytes) (past : List Event) (content : Bytes) :
    Option (Payload × Target) → Prop
  | none => False
  | some (payload, target) =>
    (∃ tenant asked numbers,
      .reserved ⟨tenant, X12.pyStrip target.senderID, X12.pyStrip target.receiverID⟩
        numbers ∈ past ∧
        target = Target.withControl asked numbers) ∧
      ∃ stored, renderForWriteback checksum payload target = .ok stored ∧
        stored.lookup renderedKey = some (.text content)

/-- What may happen after `past`: a writeback is sent after it was approved by another than
its requester and if it was not rejected, an X12 body of it was rendered when it was
enqueued; it is delivered only if it was not rejected, and nothing else comes of it then. -/
def Allowed (checksum : Bytes → Bytes) (past : List Event) : Event → Prop
  | .enqueued id _ _ => ∀ e ∈ past, e.writeback ≠ some id
  | .sent id body =>
    .rejected id ∉ past ∧
      ∃ requester rendering approver, .enqueued id requester rendering ∈ past ∧
        .approved id approver ∈ past ∧ approver ≠ requester ∧
        ∀ content, body = .x12 content → Rendered checksum past content rendering
  | .recorded id true => .rejected id ∉ past
  | .recorded id false => .recorded id true ∉ past
  | .rejected id => .recorded id true ∉ past
  | _ => True

/-- Every event was allowed, and what was delivered has the status `delivered`. -/
structure Governed (checksum : Bytes → Bytes) (s : Store) : Prop where
  allowed : ∀ past e, past ++ [e] <+: s.history → Allowed checksum past e
  delivered : ∀ id, .recorded id true ∈ s.history →
    ∃ wb, s.rows.lookup id = some wb ∧ wb.status = .delivered

/-- The calls under way. -/
abbrev Calls : Type := Pool Store Nat Call Cmd Cmd.Ans Exn Unit

/-- A call is delivering the writeback. -/
def Carries (w : Calls) (id : Bytes) (i : Nat) : Prop :=
  ∃ c o k, w.busy i = some (c, .await o k) ∧ o.delivery = some id

/-- An interchange that is posted is one of an X12 writeback. -/
def Pinned (checksum : Bytes → Bytes) (s : Store) (principal : Principal) (id : Bytes) : Prop :=
  ∀ wb conn content, s.get principal.tenantID id = .ok wb →
    s.getConnection wb.tenantID wb.connectionID = .ok conn → conn.executor = some .httpPost →
    approvedBytes checksum wb.payload = .ok content → isX12Writeback wb.target = true

/-- When a command keeps to the governance: the approver and the requester are not both
anonymous, a retry finds no delivery of its writeback under way, and what is claimed is
pinned. -/
def Orderly (checksum : Bytes → Bytes) (w : Calls) : Cmd → Prop
  | .approve principal id =>
    Pinned checksum w.store principal id ∧
      ∀ wb, w.store.get principal.tenantID id = .ok wb → principal.sub = [] → wb.requestedBy ≠ []
  | .retry principal id => Pinned checksum w.store principal id ∧ ∀ i, ¬Carries w id i
  | _ => True

/-! ## The commands -/

variable {id : Bytes} {wb : Writeback}

namespace Store

variable {s : Store}

theorem get_eq_ok {tenant : Bytes} (h : s.get tenant id = .ok wb) : s.rows.lookup id = some wb := by
  unfold get at h
  split at h
  · rename_i wb' hlookup
    obtain rfl := Except.ok.inj h
    exact (Option.filter_eq_some_iff.mp hlookup).1
  · cases h

theorem claim_cases (s : Store) (wb : Writeback) (events : List Event) :
    (∃ e, s.claim wb events = (.error e, s)) ∨
      ∃ conn kind, s.getConnection wb.tenantID wb.connectionID = .ok conn ∧
        conn.executor = some kind ∧
        s.claim wb events =
          (.ok ⟨conn, wb.target, wb.payload, wb.idempotencyKey, kind⟩,
            { s with
              rows := s.rows.insert wb.id
                { wb with status := .delivering, attempts := wb.attempts + 1 }
              history := s.history ++ events }) := by
  unfold claim
  split
  · rename_i e _
    exact .inl ⟨e, rfl⟩
  · rename_i conn hconn
    split
    · exact .inl ⟨_, rfl⟩
    · rename_i kind hkind
      exact .inr ⟨conn, kind, hconn, hkind, rfl⟩

theorem approve_cases (s : Store) (principal : Principal) (id : Bytes) :
    (∃ e, s.approve principal id = (.error e, s)) ∨
      ∃ wb, s.get principal.tenantID id = .ok wb ∧ wb.status = .pendingApproval ∧
        (wb.requestedBy ≠ [] → principal.sub ≠ wb.requestedBy) ∧
        s.approve principal id =
          s.claim { wb with approvedBy := some principal.sub } [.approved wb.id principal.sub] := by
  unfold approve
  cases hget : s.get principal.tenantID id with
  | error e => exact .inl ⟨e, rfl⟩
  | ok wb =>
    dsimp only
    split
    · exact .inl ⟨_, rfl⟩
    · rename_i hstatus
      split
      · exact .inl ⟨_, rfl⟩
      · rename_i hother
        exact .inr ⟨wb, rfl, not_not.mp hstatus, fun hsome hsub => hother ⟨hsome, hsub⟩, rfl⟩

theorem retry_cases (s : Store) (principal : Principal) (id : Bytes) :
    (∃ e, s.retry principal id = (.error e, s)) ∨
      ∃ wb, s.get principal.tenantID id = .ok wb ∧
        (wb.status = .failed ∨ wb.status = .delivering) ∧ s.retry principal id = s.claim wb [] := by
  unfold retry
  cases hget : s.get principal.tenantID id with
  | error e => exact .inl ⟨e, rfl⟩
  | ok wb =>
    dsimp only
    split
    · exact .inl ⟨_, rfl⟩
    · rename_i hstatus
      split
      · exact .inl ⟨_, rfl⟩
      · exact .inr ⟨wb, rfl, by tauto, rfl⟩

theorem reject_cases (s : Store) (principal : Principal) (id : Bytes) :
    (s.reject principal id).2 = s ∨
      ∃ wb, s.get principal.tenantID id = .ok wb ∧
        (wb.status = .pendingApproval ∨ wb.status = .failed) ∧
        (s.reject principal id).2 =
          { s with
            rows := s.rows.insert wb.id { wb with status := .rejected }
            history := s.history ++ [.rejected wb.id] } := by
  unfold reject
  cases hget : s.get principal.tenantID id with
  | error e => exact .inl rfl
  | ok wb =>
    dsimp only
    split
    · exact .inl rfl
    · exact .inr ⟨wb, rfl, by tauto, rfl⟩

theorem record_cases (s : Store) (principal : Principal) (id : Bytes)
    (outcome : Except String Bytes) : (s.record principal id outcome).2 = s ∨
      ∃ wb wb' delivered, s.get principal.tenantID id = .ok wb ∧ wb'.id = wb.id ∧
        wb'.requestedBy = wb.requestedBy ∧ wb'.target = wb.target ∧ wb'.payload = wb.payload ∧
        wb'.status = (if delivered then .delivered else .failed) ∧
        (s.record principal id outcome).2 =
          { s with
            rows := s.rows.insert wb.id wb'
            history := s.history ++ [.recorded wb.id delivered] } := by
  unfold record
  cases hget : s.get principal.tenantID id with
  | error e => exact .inl rfl
  | ok wb =>
    cases outcome with
    | ok ref =>
      exact .inr ⟨wb, { wb with status := .delivered, targetRef := some ref, lastError := none },
        true, rfl, rfl, rfl, rfl, rfl, rfl, rfl⟩
    | error e =>
      exact .inr ⟨wb, { wb with status := .failed, lastError := some e }, false, rfl, rfl, rfl,
        rfl, rfl, rfl, rfl⟩

/-- A row that was just inserted, with the events of its transaction. -/
structure Enqueued (checksum : Bytes → Bytes) (s s' : Store) (wb : Writeback)
    (events : List Event) (rendering : Option (Payload × Target)) : Prop where
  new : wb.id ∉ s.rows
  status : wb.status = .pendingApproval
  rows : s'.rows = s.rows.insert wb.id wb
  history : s'.history = s.history ++ events ++ [.enqueued wb.id wb.requestedBy rendering]
  others : events = [] ∨ ∃ partner numbers, events = [.reserved partner numbers]
  rendered : isX12Writeback wb.target = true → ∀ content,
    wb.payload.lookup renderedKey = some (.text content) →
      Rendered checksum events content rendering

theorem insert_cases (s : Store) (principal : Principal) (body : NewWriteback) (target : Target)
    (payload : Payload) (rendering : Option (Payload × Target)) :
    (∃ e, s.insert principal body target payload rendering = (.error e, s)) ∨
      ∃ wb, wb.id ∉ s.rows ∧ wb.status = .pendingApproval ∧ wb.target = target ∧
        wb.payload = payload ∧
        s.insert principal body target payload rendering =
          (.ok (),
            { s with
              rows := s.rows.insert wb.id wb
              history := s.history ++ [.enqueued wb.id wb.requestedBy rendering] }) := by
  unfold insert
  split
  · exact .inl ⟨_, rfl⟩
  · rename_i hnew
    exact .inr ⟨⟨body.id, principal.tenantID, body.connectionID, body.idempotencyKey, target,
      payload,
      .pendingApproval, principal.sub, none, 0, none, none⟩, hnew, rfl, rfl, rfl, rfl⟩

theorem enqueueX12_cases (checksum : Bytes → Bytes) (s : Store) (principal : Principal)
    (body : NewWriteback) : (s.enqueueX12 checksum principal body).2 = s ∨
      ∃ wb events rendering,
        Enqueued checksum s (s.enqueueX12 checksum principal body).2 wb events rendering := by
  unfold enqueueX12
  dsimp only
  split
  · exact .inl rfl
  · split
    · exact .inl rfl
    · rename_i payload hrender
      let reserved := s.reserve ⟨principal.tenantID, X12.pyStrip body.target.senderID,
        X12.pyStrip body.target.receiverID⟩
      let target := body.target.withControl reserved.1
      obtain ⟨e, h⟩ | ⟨wb, hnew, hstatus, htarget, hpayload, h⟩ :=
        insert_cases reserved.2 principal body target payload (some (body.payload, target))
      · simp only [reserved, target] at h
        simp only [h]
        exact .inl trivial
      · simp only [reserved, target] at h
        simp only [h]
        refine .inr ⟨wb, [.reserved _ _], _, hnew, hstatus, rfl, rfl, .inr ⟨_, _, rfl⟩, ?_⟩
        intro _ content hcontent
        rw [hpayload] at hcontent
        exact ⟨⟨_, _, _, List.mem_singleton.mpr rfl, rfl⟩, payload, hrender, hcontent⟩

theorem enqueue_cases (checksum : Bytes → Bytes) (s : Store) (principal : Principal)
    (body : NewWriteback) : (s.enqueue checksum principal body).2 = s ∨
      ∃ wb events rendering,
        Enqueued checksum s (s.enqueue checksum principal body).2 wb events rendering := by
  unfold enqueue
  split
  · exact .inl rfl
  · split_ifs with hdirection hexecutor hexisting hx12
    · exact .inl rfl
    · exact .inl rfl
    · exact .inl rfl
    · exact enqueueX12_cases checksum s principal body
    · obtain ⟨e, h⟩ | ⟨wb, hnew, hstatus, htarget, hpayload, h⟩ :=
        insert_cases s principal body body.target body.payload none
      · rw [h]
        exact .inl rfl
      · rw [h]
        refine .inr ⟨wb, [], none, hnew, hstatus, rfl, by rw [List.append_nil], .inl rfl, ?_⟩
        rw [htarget]
        exact fun h => absurd h hx12

end Store

/-! ## Rows and their histories -/

/-- What the history says about a row. -/
structure Recorded (checksum : Bytes → Bytes) (history : List Event) (wb : Writeback) : Prop where
  enqueued : ∃ rendering, .enqueued wb.id wb.requestedBy rendering ∈ history ∧
    (isX12Writeback wb.target = true → ∀ content,
      wb.payload.lookup renderedKey = some (.text content) →
        Rendered checksum history content rendering)
  approved : wb.status ≠ .pendingApproval → wb.status ≠ .rejected →
    ∃ approver, .approved wb.id approver ∈ history ∧ approver ≠ wb.requestedBy
  rejected : .rejected wb.id ∈ history → wb.status = .rejected
  delivered : .recorded wb.id true ∈ history → wb.status = .delivered

/-- The history of an id agrees with its row; where there is none, nothing has happened. -/
def Known (checksum : Bytes → Bytes) (history : List Event) (id : Bytes) :
    Option Writeback → Prop
  | none => ∀ e ∈ history, e.writeback ≠ some id
  | some wb => wb.id = id ∧ Recorded checksum history wb

/-- The history was allowed, and the rows agree with it. -/
structure Consistent (checksum : Bytes → Bytes) (s : Store) : Prop where
  allowed : ∀ past e, past ++ [e] <+: s.history → Allowed checksum past e
  known : ∀ id, Known checksum s.history id (s.rows.lookup id)

section Rows

variable {checksum : Bytes → Bytes} {past events : List Event} {wb wb' : Writeback} {s s' : Store}

theorem Rendered.mono {content : Bytes} {rendering : Option (Payload × Target)}
    (h : Rendered checksum past content rendering) {past' : List Event} (hsub : past ⊆ past') :
    Rendered checksum past' content rendering := by
  cases rendering with
  | none => exact h
  | some r =>
    obtain ⟨⟨tenant, asked, numbers, hmem, htarget⟩, hstored⟩ := h
    exact ⟨⟨tenant, asked, numbers, hsub hmem, htarget⟩, hstored⟩

theorem Known.frame {row : Option Writeback} (h : Known checksum past id row)
    (hothers : ∀ e ∈ events, e.writeback ≠ some id) : Known checksum (past ++ events) id row := by
  cases row with
  | none =>
    intro e he
    obtain he | he := List.mem_append.mp he
    · exact h e he
    · exact hothers e he
  | some wb =>
    obtain ⟨rfl, ⟨rendering, henq, hrendered⟩, happroved, hrejected, hdelivered⟩ := h
    have hold : ∀ e : Event, e.writeback = some wb.id → e ∈ past ++ events → e ∈ past := by
      intro e hid he
      obtain he | he := List.mem_append.mp he
      · exact he
      · exact absurd hid (hothers e he)
    refine ⟨rfl, ⟨rendering, List.mem_append_left _ henq, fun hx12 content hcontent =>
      (hrendered hx12 content hcontent).mono (List.subset_append_left _ _)⟩, fun h₁ h₂ => ?_,
      fun h => hrejected (hold _ rfl h), fun h => hdelivered (hold _ rfl h)⟩
    obtain ⟨approver, hmem, hne⟩ := happroved h₁ h₂
    exact ⟨approver, List.mem_append_left _ hmem, hne⟩

theorem allowed_append {h : List Event} (hold : ∀ past e, past ++ [e] <+: h →
    Allowed checksum past e)
    {e : Event} (hnew : Allowed checksum h e) :
    ∀ past e', past ++ [e'] <+: h ++ [e] → Allowed checksum past e' := by
  intro past e' hprefix
  obtain heq | hprefix := List.prefix_concat_iff.mp hprefix
  · obtain ⟨rfl, he⟩ := List.append_inj' heq rfl
    rw [List.singleton_inj.mp he]
    exact hnew
  · exact hold past e' hprefix

theorem Consistent.write (h : Consistent checksum s) (wb : Writeback) (events : List Event)
    (hevents : ∀ e ∈ events, e.writeback = some wb.id)
    (hallowed : ∀ past e, past ++ [e] <+: s.history ++ events → Allowed checksum past e)
    (hrecorded : Recorded checksum (s.history ++ events) wb)
    (hself : s'.rows.lookup wb.id = some wb)
    (hrest : ∀ id, id ≠ wb.id → s'.rows.lookup id = s.rows.lookup id)
    (hhistory : s'.history = s.history ++ events) : Consistent checksum s' := by
  refine ⟨?_, fun id => ?_⟩
  · rw [hhistory]
    exact hallowed
  · rw [hhistory]
    by_cases hid : id = wb.id
    · subst hid
      rw [hself]
      exact ⟨rfl, hrecorded⟩
    · rw [hrest id hid]
      refine (h.known id).frame fun e he => ?_
      rw [hevents e he]
      exact fun heq => hid (Option.some.inj heq).symm

theorem Consistent.recorded (h : Consistent checksum s)
    (hlookup : s.rows.lookup id = some wb) : wb.id = id ∧ Recorded checksum s.history wb := by
  have hknown := h.known id
  rwa [hlookup] at hknown

theorem Recorded.update (h : Recorded checksum past wb) (hid : wb'.id = wb.id)
    (hrequester : wb'.requestedBy = wb.requestedBy) (htarget : wb'.target = wb.target)
    (hpayload : wb'.payload = wb.payload)
    (happroved : wb'.status ≠ .pendingApproval → wb'.status ≠ .rejected →
      ∃ approver, .approved wb.id approver ∈ past ++ events ∧ approver ≠ wb.requestedBy)
    (hrejected : .rejected wb.id ∈ past ++ events → wb'.status = .rejected)
    (hdelivered : .recorded wb.id true ∈ past ++ events → wb'.status = .delivered) :
    Recorded checksum (past ++ events) wb' := by
  obtain ⟨rendering, henqueued, hrendered⟩ := h.enqueued
  refine ⟨⟨rendering, ?_, ?_⟩, ?_, ?_, ?_⟩
  · rw [hid, hrequester]
    exact List.mem_append_left _ henqueued
  · rw [htarget, hpayload]
    exact fun hx12 content hcontent =>
      (hrendered hx12 content hcontent).mono (List.subset_append_left _ _)
  · rw [hid, hrequester]
    exact happroved
  · rw [hid]
    exact hrejected
  · rw [hid]
    exact hdelivered

theorem Consistent.reserve (h : Consistent checksum s) (partner : Partner)
    (numbers : ControlSequence) :
    Consistent checksum { s with history := s.history ++ [.reserved partner numbers] } := by
  refine ⟨allowed_append h.allowed trivial, fun id => (h.known id).frame fun e he => ?_⟩
  rw [List.mem_singleton.mp he]
  exact fun heq => by cases heq

theorem Consistent.enqueue (h : Consistent checksum s) (principal : Principal)
    (body : NewWriteback) : Consistent checksum (s.enqueue checksum principal body).2 := by
  obtain hs | ⟨wb, events, rendering, hnew⟩ := Store.enqueue_cases checksum s principal body
  · rwa [hs]
  · have hbefore : Consistent checksum { s with history := s.history ++ events } := by
      obtain rfl | ⟨partner, numbers, rfl⟩ := hnew.others
      · rwa [List.append_nil]
      · exact h.reserve partner numbers
    have hnone : ∀ e ∈ s.history ++ events, e.writeback ≠ some wb.id := by
      have hknown := hbefore.known wb.id
      rwa [AList.lookup_eq_none.mpr hnew.new] at hknown
    have hfresh : ∀ e : Event, e.writeback = some wb.id →
        e ∈ s.history ++ events ++ [.enqueued wb.id wb.requestedBy rendering] →
        e = .enqueued wb.id wb.requestedBy rendering := by
      intro e hid he
      obtain he | he := List.mem_append.mp he
      · exact absurd hid (hnone e he)
      · exact List.mem_singleton.mp he
    refine hbefore.write wb [.enqueued wb.id wb.requestedBy rendering] ?_
      (allowed_append hbefore.allowed hnone) ⟨⟨rendering, by simp, ?_⟩, ?_, ?_, ?_⟩
        ?_ ?_ hnew.history
    · intro e he
      rw [List.mem_singleton.mp he]
      rfl
    · exact fun hx12 content hcontent => (hnew.rendered hx12 content hcontent).mono fun e he =>
        List.mem_append_left _ (List.mem_append_right _ he)
    · exact fun hpending => absurd hnew.status hpending
    · exact fun hmem => by cases hfresh _ rfl hmem
    · exact fun hmem => by cases hfresh _ rfl hmem
    · rw [hnew.rows, AList.lookup_insert]
    · exact fun id hid => by rw [hnew.rows, AList.lookup_insert_ne hid]

theorem Consistent.reject (h : Consistent checksum s) (principal : Principal) (id : Bytes) :
    Consistent checksum (s.reject principal id).2 := by
  obtain hs | ⟨wb, hget, hstatus, hs⟩ := Store.reject_cases s principal id
  · rwa [hs]
  · obtain ⟨rfl, hrecorded⟩ := h.recorded (Store.get_eq_ok hget)
    have hnot : .recorded wb.id true ∉ s.history := fun hmem => by
      rw [hrecorded.delivered hmem] at hstatus
      simp at hstatus
    rw [hs]
    refine h.write { wb with status := .rejected } [.rejected wb.id] ?_
      (allowed_append h.allowed hnot) (hrecorded.update rfl rfl rfl rfl ?_ ?_ ?_)
      (AList.lookup_insert _) (fun id hid => AList.lookup_insert_ne hid) rfl
    · intro e he
      rw [List.mem_singleton.mp he]
      rfl
    · exact fun _ hrejected => absurd rfl hrejected
    · exact fun _ => rfl
    · intro hmem
      obtain hmem | hmem := List.mem_append.mp hmem
      · exact absurd hmem hnot
      · cases List.mem_singleton.mp hmem

theorem Consistent.claim (h : Consistent checksum s) (hlookup : s.rows.lookup wb.id = some wb)
    (hwb' : wb'.id = wb.id ∧ wb'.requestedBy = wb.requestedBy ∧ wb'.target = wb.target ∧
      wb'.payload = wb.payload)
    (hopen : wb.status ≠ .rejected ∧ wb.status ≠ .delivered)
    (hevents : events = [] ∨ ∃ approver, events = [.approved wb.id approver])
    (happroved : ∃ approver, .approved wb.id approver ∈ s.history ++ events ∧
      approver ≠ wb.requestedBy) :
    Consistent checksum (s.claim wb' events).2 := by
  obtain ⟨e, hs⟩ | ⟨conn, kind, -, -, hs⟩ := Store.claim_cases s wb' events
  · rwa [hs]
  · obtain ⟨-, hrecorded⟩ := h.recorded hlookup
    obtain ⟨hid, hrequester, htarget, hpayload⟩ := hwb'
    have hold : ∀ e ∈ s.history ++ events, e = .rejected wb.id ∨ e = .recorded wb.id true →
        e ∈ s.history := by
      intro e he hkind
      obtain he | he := List.mem_append.mp he
      · exact he
      · obtain rfl | ⟨approver, rfl⟩ := hevents
        · cases he
        · rw [List.mem_singleton.mp he] at hkind
          simp at hkind
    rw [hs]
    refine h.write { wb' with status := .delivering, attempts := wb'.attempts + 1 } events ?_ ?_
      (hrecorded.update hid hrequester htarget hpayload ?_ ?_ ?_)
      (AList.lookup_insert _) (fun id hid => AList.lookup_insert_ne hid) rfl
    · intro e he
      obtain rfl | ⟨approver, rfl⟩ := hevents
      · cases he
      · rw [List.mem_singleton.mp he]
        exact congrArg some hid.symm
    · obtain rfl | ⟨approver, rfl⟩ := hevents
      · rw [List.append_nil]
        exact h.allowed
      · exact allowed_append h.allowed trivial
    · exact fun _ _ => happroved
    · exact fun hmem => absurd (hrecorded.rejected (hold _ hmem (.inl rfl))) hopen.1
    · exact fun hmem => absurd (hrecorded.delivered (hold _ hmem (.inr rfl))) hopen.2

theorem Consistent.record (h : Consistent checksum s) (principal : Principal)
    (hdelivering : ∀ wb, s.rows.lookup id = some wb → wb.status = .delivering)
    (outcome : Except String Bytes) : Consistent checksum (s.record principal id outcome).2 := by
  obtain hs | ⟨wb, wb', delivered, hget, hid, hrequester, htarget, hpayload, hstatus, hs⟩ :=
    Store.record_cases s principal id outcome
  · rwa [hs]
  · have hlookup := Store.get_eq_ok hget
    have hopen := hdelivering wb hlookup
    obtain ⟨rfl, hrecorded⟩ := h.recorded hlookup
    have hnotRejected : .rejected wb.id ∉ s.history := fun hmem => by
      rw [hrecorded.rejected hmem] at hopen
      cases hopen
    have hnotDelivered : .recorded wb.id true ∉ s.history := fun hmem => by
      rw [hrecorded.delivered hmem] at hopen
      cases hopen
    rw [hs]
    refine h.write wb' [.recorded wb.id delivered] ?_
      (allowed_append h.allowed ?_) (hrecorded.update hid hrequester htarget hpayload ?_ ?_ ?_)
      (by rw [hid, AList.lookup_insert]) (fun id hne => AList.lookup_insert_ne (by rwa [← hid])) rfl
    · intro e he
      rw [List.mem_singleton.mp he]
      exact congrArg some hid.symm
    · cases delivered with
      | true => exact hnotRejected
      | false => exact hnotDelivered
    · intro _ _
      obtain ⟨approver, hmem, hne⟩ := hrecorded.approved (by rw [hopen]; decide)
          (by rw [hopen]; decide)
      exact ⟨approver, List.mem_append_left _ hmem, hne⟩
    · intro hmem
      obtain hmem | hmem := List.mem_append.mp hmem
      · exact absurd hmem hnotRejected
      · cases List.mem_singleton.mp hmem
    · intro hmem
      obtain hmem | hmem := List.mem_append.mp hmem
      · exact absurd hmem hnotDelivered
      · cases List.mem_singleton.mp hmem
        exact hstatus

theorem Consistent.send (h : Consistent checksum s) (hlookup : s.rows.lookup wb.id = some wb)
    (hdelivering : wb.status = .delivering) {body : Body} (hbody : ∀ content, body = .x12 content →
      isX12Writeback wb.target = true ∧ approvedBytes checksum wb.payload = .ok content) :
    Consistent checksum { s with history := s.history ++ [.sent wb.id body] } := by
  obtain ⟨-, hrecorded⟩ := h.recorded hlookup
  have hother : ∀ e : Event, e ≠ .sent wb.id body → e ∈ s.history ++ [.sent wb.id body] →
      e ∈ s.history := by
    intro e hne he
    obtain he | he := List.mem_append.mp he
    · exact he
    · exact absurd (List.mem_singleton.mp he) hne
  obtain ⟨approver, happroved, hne⟩ :=
    hrecorded.approved (by rw [hdelivering]; decide) (by rw [hdelivering]; decide)
  obtain ⟨rendering, henqueued, hrendered⟩ := hrecorded.enqueued
  refine h.write wb [.sent wb.id body] ?_
    (allowed_append h.allowed ⟨fun hmem => ?_, wb.requestedBy, rendering, approver, henqueued,
      happroved, hne, fun content hcontent => ?_⟩)
    (hrecorded.update rfl rfl rfl rfl ?_ ?_ ?_) hlookup (fun id _ => rfl) rfl
  · intro e he
    rw [List.mem_singleton.mp he]
    rfl
  · rw [hrecorded.rejected hmem] at hdelivering
    cases hdelivering
  · obtain ⟨hx12, happrovedBytes⟩ := hbody content hcontent
    exact hrendered hx12 content (lookup_of_approvedBytes happrovedBytes)
  · exact fun _ _ => ⟨approver, List.mem_append_left _ happroved, hne⟩
  · exact fun hmem => hrecorded.rejected (hother _ (by simp) hmem)
  · exact fun hmem => hrecorded.delivered (hother _ (by simp) hmem)

end Rows

/-! ## Deliveries -/

/-- What a delivery of the row does before it records its outcome. -/
def Sends (checksum : Bytes → Bytes) (wb : Writeback) : Cmd → Prop
  | .secrets id => id = wb.id
  | .guard id _ => id = wb.id
  | .send id _ _ body => id = wb.id ∧ ∀ content, body = .x12 content →
      isX12Writeback wb.target = true ∧ approvedBytes checksum wb.payload = .ok content
  | _ => False

/-- It records the answer. -/
def Records (id : Bytes) : Cmd → Prop
  | .record _ id' _ => id' = id
  | _ => False

/-- What was read of a row for its delivery. -/
structure Snapshot.Of (checksum : Bytes → Bytes) (snap : Snapshot) (wb : Writeback) : Prop where
  payload : snap.payload = wb.payload
  pinned : snap.kind = .httpPost → ∀ content, approvedBytes checksum wb.payload = .ok content →
    isX12Writeback wb.target = true

section Programs

variable {checksum : Bytes → Bytes} {wb : Writeback} {snap : Snapshot}

theorem only_deliverHTTPPost (hsnap : snap.Of checksum wb) (hkind : snap.kind = .httpPost) :
    Only (Sends checksum wb) (deliverHTTPPost checksum wb.id snap) := by
  unfold deliverHTTPPost
  refine (only_ofExcept _).bind fun url => ?_
  refine (only_ask (S := Sends checksum wb) (o := Cmd.secrets wb.id) rfl).bind fun _ => ?_
  refine (only_ask (S := Sends checksum wb) (o := Cmd.guard wb.id url) rfl).bind fun _ => ?_
  -- what is sent is an interchange only where `approvedBytes` returned it
  have hsend : ∀ (method : Bytes) (body : Body), (∀ content, body = .x12 content →
      approvedBytes checksum snap.payload = .ok content) →
      Only (Sends checksum wb) (do
        let status ← perform (.send wb.id method url body)
        if 300 ≤ status then raise (.validationFailed s!"target returned {status}")
        else return method ++ bytes " " ++ url ++ bytes " -> " ++ itoa status) := by
    intro method body hbody
    have hpinned : ∀ content, body = .x12 content →
        isX12Writeback wb.target = true ∧ approvedBytes checksum wb.payload = .ok content := by
      intro content hcontent
      have happroved := hbody content hcontent
      rw [hsnap.payload] at happroved
      exact ⟨hsnap.pinned hkind content happroved, happroved⟩
    refine (only_ask (S := Sends checksum wb) (o := Cmd.send wb.id method url body)
      ⟨rfl, hpinned⟩).bind fun status => ?_
    split
    · exact only_raise _
    · exact only_done _
  split
  · cases happroved : approvedBytes checksum snap.payload with
    | error e => exact only_raise e
    | ok content =>
      refine hsend _ (.x12 content) fun content' hcontent' => ?_
      rw [happroved, Body.x12.inj hcontent']
  · exact hsend _ (.json snap.payload) fun content hcontent => by cases hcontent

theorem only_deliverDBUpsert : Only (Sends checksum wb) (deliverDBUpsert wb.id snap) := by
  unfold deliverDBUpsert
  dsimp only
  split
  · exact only_raise _
  · split
    · exact only_raise _
    · refine (only_ofExcept _).bind fun sql => ?_
      refine (only_ask (S := Sends checksum wb) (o := Cmd.secrets wb.id) rfl).bind fun _ => ?_
      refine (only_ask (S := Sends checksum wb) (o := Cmd.guard wb.id snap.conn.host) rfl).bind
        fun _ => ?_
      refine (only_ask (S := Sends checksum wb)
        (o := Cmd.send wb.id [] snap.conn.host (.row sql snap.payload.values))
        ⟨rfl, fun content hcontent => by cases hcontent⟩).bind fun _ => ?_
      exact only_done _

theorem until_deliverAndRecord (hsnap : snap.Of checksum wb) (principal : Principal) :
    Until (Sends checksum wb) (Records wb.id) (deliverAndRecord checksum principal wb.id snap) := by
  refine Only.until_bind (Only.tryCatch (Only.bind ?_ fun _ => only_done _) fun _ => only_done _)
    fun outcome => until_ask (o := Cmd.record principal wb.id outcome) rfl
  cases hkind : snap.kind with
  | dbUpsert => exact only_deliverDBUpsert
  | httpPost => exact only_deliverHTTPPost hsnap hkind

end Programs

/-! ## Calls under way -/

/-- The program is a delivery of a row that it has claimed. -/
def Delivers (checksum : Bytes → Bytes) (s : Store) (id : Bytes) (p : Prog Unit) : Prop :=
  ∃ wb, s.rows.lookup id = some wb ∧ wb.id = id ∧ wb.status = .delivering ∧
    Until (Sends checksum wb) (Records id) p

/-- Every call is about to begin, or delivers a row that no other call delivers. -/
structure Attending (checksum : Bytes → Bytes) (w : Calls) : Prop where
  fresh : ∀ i c o k, w.busy i = some (c, .await o k) → o.delivery = none →
    .await o k = program checksum c
  delivers : ∀ i c o k id, w.busy i = some (c, .await o k) → o.delivery = some id →
    Delivers checksum w.store id (.await o k)
  alone : ∀ i j id, Carries w id i → Carries w id j → i = j

/-- The invariant of a run. -/
structure Kept (checksum : Bytes → Bytes) (w : Calls) : Prop where
  consistent : Consistent checksum w.store
  attending : Attending checksum w

variable {o : Cmd}

section Attending

variable {checksum : Bytes → Bytes} {w w' : Calls} {i : Nat} {c : Call} {id : Bytes}

theorem delivery_of_until {k : Except Exn o.Ans → Prog Unit}
    (h : Until (Sends checksum wb) (Records wb.id) (.await o k)) : o.delivery = some wb.id := by
  obtain ⟨hsends, -⟩ | ⟨hrecords, -⟩ := h
  · cases o with
    | secrets id => exact congrArg some hsends
    | guard id address => exact congrArg some hsends
    | send id method address body => exact congrArg some hsends.1
    | _ => exact hsends.elim
  · cases o with
    | record principal id outcome => exact congrArg some hrecords
    | _ => exact hrecords.elim

theorem program_await {k : Except Exn o.Ans → Prog Unit} (h : program checksum c = .await o k) :
    o.delivery = none ∧ ∀ e, (k (.error e)).head? = none := by
  cases c <;> (cases h; exact ⟨rfl, fun e => rfl⟩)

variable {q : Prog Unit}

theorem Attending.resume (h : Attending checksum w) (hbusy : w'.busy = w.busy)
    (hothers : ∀ j id, j ≠ i → Carries w id j → w'.store.rows.lookup id = w.store.rows.lookup id)
    (hfresh : ∀ o k, q = .await o k → o.delivery = none → q = program checksum c)
    (hdelivers : ∀ o k id, q = .await o k → o.delivery = some id →
      Delivers checksum w'.store id q ∧ ∀ j, j ≠ i → ¬Carries w id j) :
    Attending checksum (w'.resume i c q) := by
  have hcarries : ∀ id j, Carries (w'.resume i c q) id j →
      (j = i ∧ ∃ o k, q = .await o k ∧ o.delivery = some id) ∨ (j ≠ i ∧ Carries w id j) := by
    rintro id j ⟨c', o, k, hj, ho⟩
    obtain ⟨rfl, rfl, rfl⟩ | ⟨hij, hj⟩ := Pool.busy_resume hj
    · exact .inl ⟨rfl, o, k, rfl, ho⟩
    · rw [hbusy] at hj
      exact .inr ⟨hij, c', o, k, hj, ho⟩
  refine ⟨fun j c' o k hj ho => ?_, fun j c' o k id hj ho => ?_, fun j j' id hj hj' => ?_⟩
  · obtain ⟨rfl, rfl, rfl⟩ | ⟨hij, hj⟩ := Pool.busy_resume hj
    · exact hfresh o k rfl ho
    · rw [hbusy] at hj
      exact h.fresh j c' o k hj ho
  · rw [Pool.resume_store]
    obtain ⟨rfl, rfl, rfl⟩ | ⟨hij, hj⟩ := Pool.busy_resume hj
    · exact (hdelivers o k id rfl ho).1
    · rw [hbusy] at hj
      obtain ⟨wb, hlookup, hwb⟩ := h.delivers j c' o k id hj ho
      refine ⟨wb, ?_, hwb⟩
      rw [hothers j id hij ⟨c', o, k, hj, ho⟩, hlookup]
  · obtain ⟨rfl, o, k, hq, ho⟩ | ⟨hij, hold⟩ := hcarries id j hj
    · obtain ⟨rfl, -⟩ | ⟨hij', hold'⟩ := hcarries id j' hj'
      · rfl
      · exact absurd hold' ((hdelivers o k id hq ho).2 j' hij')
    · obtain ⟨rfl, o, k, hq, ho⟩ | ⟨hij', hold'⟩ := hcarries id j' hj'
      · exact absurd hold ((hdelivers o k id hq ho).2 j hij)
      · exact h.alone j j' id hold hold'

theorem Attending.ends (h : Attending checksum w) (hbusy : w'.busy = w.busy)
    (hothers : ∀ j id, j ≠ i → Carries w id j → w'.store.rows.lookup id = w.store.rows.lookup id)
    (hq : q.head? = none) : Attending checksum (w'.resume i c q) := by
  refine h.resume hbusy hothers (fun o k ho => ?_) fun o k id ho => ?_
  all_goals
    rw [ho] at hq
    cases hq

theorem others_of_not_carried (hnot : ∀ j, j ≠ i → ¬Carries w id j)
    (hrest : ∀ id', id' ≠ id → w'.store.rows.lookup id' = w.store.rows.lookup id') :
    ∀ j id', j ≠ i → Carries w id' j → w'.store.rows.lookup id' = w.store.rows.lookup id' := by
  intro j id' hij hj
  refine hrest id' fun heq => ?_
  subst heq
  exact hnot j hij hj

theorem Attending.delivering (h : Attending checksum w) (hbusy : w'.busy = w.busy)
    (hlookup : w'.store.rows.lookup wb.id = some wb)
    (hstatus : wb.status = .delivering) (hq : Until (Sends checksum wb) (Records wb.id) q)
    (hrest : ∀ id', id' ≠ wb.id → w'.store.rows.lookup id' = w.store.rows.lookup id')
    (hnot : ∀ j, j ≠ i → ¬Carries w wb.id j) : Attending checksum (w'.resume i c q) := by
  refine h.resume hbusy (others_of_not_carried hnot hrest) (fun o k ho hnone => ?_)
    fun o k id ho hsome => ?_
  · rw [ho] at hq
    rw [delivery_of_until hq] at hnone
    cases hnone
  · rw [ho] at hq
    obtain rfl := Option.some.inj ((delivery_of_until hq).symm.trans hsome)
    rw [← ho] at hq
    exact ⟨⟨wb, hlookup, rfl, hstatus, hq⟩, hnot⟩

theorem Attending.status_of_carries (h : Attending checksum w) {j : Nat} (hj : Carries w id j)
    (hlookup : w.store.rows.lookup id = some wb) : wb.status = .delivering := by
  obtain ⟨c', o, k, hbusy, ho⟩ := hj
  obtain ⟨wb', hlookup', -, hstatus, -⟩ := h.delivers j c' o k id hbusy ho
  obtain rfl := Option.some.inj (hlookup.symm.trans hlookup')
  exact hstatus

end Attending

/-! ## Steps -/

/-- One move of the service. -/
abbrev step (checksum : Bytes → Bytes) : Calls → Move Nat Call Exn Outside → Calls :=
  Pool.step (program checksum) (effect checksum) outside

section Steps

variable {checksum : Bytes → Bytes} {w : Calls} {i : Nat}

variable {c : Call} {principal : Principal}

theorem Kept.resume {q : Prog Unit} (hconsistent : Consistent checksum w.store)
    (hattending : Attending checksum (w.resume i c q)) : Kept checksum (w.resume i c q) :=
  ⟨by rwa [Pool.resume_store], hattending⟩

theorem Kept.claim (h : Kept checksum w) {wb' : Writeback}
    {events : List Event} (hconsistent : Consistent checksum (w.store.claim wb' events).2)
    (hpinned : ∀ conn content, w.store.getConnection wb.tenantID wb.connectionID = .ok conn →
      conn.executor = some .httpPost → approvedBytes checksum wb.payload = .ok content →
      isX12Writeback wb.target = true)
    (hwb' : wb'.id = wb.id ∧ wb'.tenantID = wb.tenantID ∧ wb'.connectionID = wb.connectionID ∧
      wb'.target = wb.target ∧ wb'.payload = wb.payload) (hnot : ∀ j, j ≠ i → ¬Carries w wb.id j) :
    Kept checksum ({ w with store := (w.store.claim wb' events).2 }.resume i c
      ((ofExcept (w.store.claim wb' events).1 : Prog Snapshot) >>=
        deliverAndRecord checksum principal wb.id)) := by
  obtain ⟨hid, htenant, hconnection, htarget, hpayload⟩ := hwb'
  refine .resume hconsistent ?_
  obtain ⟨e, hs⟩ | ⟨conn, kind, hconn, hkind, hs⟩ := Store.claim_cases w.store wb' events
  · rw [hs]
    exact h.attending.ends rfl (fun _ _ _ _ => rfl) rfl
  · rw [hs]
    rw [htenant, hconnection] at hconn
    have hsnap : Snapshot.Of checksum ⟨conn, wb'.target, wb'.payload, wb'.idempotencyKey, kind⟩
        { wb' with status := .delivering, attempts := wb'.attempts + 1 } := by
      refine ⟨rfl, fun hpost content => ?_⟩
      rw [htarget, hpayload]
      exact hpinned conn content hconn (hkind.trans (congrArg some hpost))
    have huntil := until_deliverAndRecord hsnap principal
    rw [← hid] at hnot ⊢
    exact h.attending.delivering (by rfl) (AList.lookup_insert _) rfl huntil
      (fun id' hne => AList.lookup_insert_ne hne) hnot

theorem Kept.go_approve (h : Kept checksum w)
    (horderly : Orderly checksum w (.approve principal id)) :
    Kept checksum ({ w with store := (w.store.approve principal id).2 }.resume i c
      ((ofExcept (w.store.approve principal id).1 : Prog Snapshot) >>=
        deliverAndRecord checksum principal id)) := by
  obtain ⟨e, hs⟩ | ⟨wb, hget, hstatus, hother, hs⟩ := Store.approve_cases w.store principal id
  · rw [hs]
    exact .resume h.consistent (h.attending.ends rfl (fun _ _ _ _ => rfl) rfl)
  · have hlookup := Store.get_eq_ok hget
    obtain ⟨rfl, -⟩ := h.consistent.recorded hlookup
    have hdistinct : principal.sub ≠ wb.requestedBy := by
      intro heq
      by_cases hanonymous : wb.requestedBy = []
      · exact horderly.2 wb hget (heq.trans hanonymous) hanonymous
      · exact hother hanonymous heq
    rw [hs]
    refine h.claim (h.consistent.claim hlookup ⟨rfl, rfl, rfl, rfl⟩ ?_ (.inr ⟨_, rfl⟩)
      ⟨_, List.mem_append_right _ (List.mem_singleton.mpr rfl), hdistinct⟩)
      (fun conn content => horderly.1 wb conn content hget)
        ⟨rfl, rfl, rfl, rfl, rfl⟩ fun j _ hj => ?_
    · rw [hstatus]
      decide
    · rw [h.attending.status_of_carries hj hlookup] at hstatus
      cases hstatus

theorem Kept.go_retry (h : Kept checksum w) (horderly : Orderly checksum w (.retry principal id)) :
    Kept checksum ({ w with store := (w.store.retry principal id).2 }.resume i c
      ((ofExcept (w.store.retry principal id).1 : Prog Snapshot) >>=
        deliverAndRecord checksum principal id)) := by
  obtain ⟨e, hs⟩ | ⟨wb, hget, hstatus, hs⟩ := Store.retry_cases w.store principal id
  · rw [hs]
    exact .resume h.consistent (h.attending.ends rfl (fun _ _ _ _ => rfl) rfl)
  · have hlookup := Store.get_eq_ok hget
    obtain ⟨rfl, hrecorded⟩ := h.consistent.recorded hlookup
    have happroved : ∃ approver, .approved wb.id approver ∈ w.store.history ++ [] ∧
        approver ≠ wb.requestedBy := by
      rw [List.append_nil]
      apply hrecorded.approved
      all_goals obtain h | h := hstatus <;> rw [h] <;> decide
    rw [hs]
    refine h.claim (h.consistent.claim hlookup ⟨rfl, rfl, rfl, rfl⟩ ?_ (.inl rfl) happroved)
      (fun conn content => horderly.1 wb conn content hget) ⟨rfl, rfl, rfl, rfl, rfl⟩
      fun j _ => horderly.2 j
    obtain h | h := hstatus <;> rw [h] <;> decide

theorem Kept.go_enqueue (h : Kept checksum w) (principal : Principal) (body : NewWriteback) :
    Kept checksum ({ w with store := (w.store.enqueue checksum principal body).2 }.resume i c
      (ofExcept (w.store.enqueue checksum principal body).1)) := by
  refine .resume (h.consistent.enqueue principal body)
    (h.attending.ends (by rfl) (fun j id _ hj => ?_) ?_)
  · obtain hs | ⟨wb, events, rendering, hnew⟩ := Store.enqueue_cases checksum w.store principal body
    · rw [hs]
    · -- a row that a call delivers is there already
      obtain ⟨c', o, k, hbusy, ho⟩ := hj
      obtain ⟨wb', hlookup, -⟩ := h.attending.delivers j c' o k id hbusy ho
      have hne : id ≠ wb.id := fun heq => by
        rw [heq, AList.lookup_eq_none.mpr hnew.new] at hlookup
        cases hlookup
      exact (congrArg _ hnew.rows).trans (AList.lookup_insert_ne hne)
  · cases (w.store.enqueue checksum principal body).1 <;> rfl

theorem Kept.go_reject (h : Kept checksum w) (principal : Principal) (id : Bytes) :
    Kept checksum ({ w with store := (w.store.reject principal id).2 }.resume i c
      (ofExcept (w.store.reject principal id).1)) := by
  refine .resume (h.consistent.reject principal id)
    (h.attending.ends (by rfl) (fun j id' _ hj => ?_) ?_)
  · obtain hs | ⟨wb, hget, hstatus, hs⟩ := Store.reject_cases w.store principal id
    · rw [hs]
    · have hlookup := Store.get_eq_ok hget
      obtain ⟨rfl, -⟩ := h.consistent.recorded hlookup
      have hne : id' ≠ wb.id := fun heq => by
        subst heq
        rw [h.attending.status_of_carries hj hlookup] at hstatus
        simp at hstatus
      rw [hs]
      exact AList.lookup_insert_ne hne
  · cases (w.store.reject principal id).1 <;> rfl

variable {k : Except Exn o.Ans → Prog Unit}

theorem Kept.go_delivery (h : Kept checksum w)
    (hbusy : w.busy i = some (c, .await o k))
    (ho : o.delivery = some id) :
    Kept checksum ({ w with store := (effect checksum o w.store).2 }.resume i c
      (k (effect checksum o w.store).1)) := by
  obtain ⟨wb, hlookup, rfl, hstatus, huntil⟩ := h.attending.delivers i c o k id hbusy ho
  have hi : Carries w wb.id i := ⟨c, o, k, hbusy, ho⟩
  have hnot : ∀ j, j ≠ i → ¬Carries w wb.id j := fun j hij hj => hij (h.attending.alone j i _ hj hi)
  obtain ⟨hsends, hnext⟩ | ⟨hrecords, hlast⟩ := huntil
  · have hrows : (effect checksum o w.store).2.rows = w.store.rows := by
      cases o with
      | secrets id => rfl
      | guard id address => rfl
      | send id method address body => rfl
      | _ => exact hsends.elim
    refine .resume ?_ (h.attending.delivering (by rfl) ((congrArg _ hrows).trans hlookup) hstatus
      (hnext _) (fun id' _ => congrArg _ hrows) hnot)
    cases o with
    | secrets id => exact h.consistent
    | guard id address => exact h.consistent
    | send id method address body =>
      obtain ⟨rfl, hbody⟩ := hsends
      exact h.consistent.send hlookup hstatus hbody
    | _ => exact hsends.elim
  · cases o with
    | record principal id outcome =>
      obtain rfl : id = wb.id := hrecords
      refine .resume ?_
        (h.attending.ends (by rfl) (others_of_not_carried hnot fun id' hne => ?_) (hlast _))
      · refine h.consistent.record principal (fun wb' hlookup' => ?_) outcome
        rwa [Option.some.inj (hlookup'.symm.trans hlookup)]
      · obtain hs | ⟨row, row', delivered, hget, hid, -, -, -, -, hs⟩ :=
          Store.record_cases w.store principal wb.id outcome
        · exact congrArg (fun s : Store => s.rows.lookup id') hs
        · obtain rfl := Option.some.inj ((Store.get_eq_ok hget).symm.trans hlookup)
          exact (congrArg (fun s : Store => s.rows.lookup id') hs).trans
            (AList.lookup_insert_ne hne)
    | _ => exact hrecords.elim

theorem Kept.fail (h : Kept checksum w)
    (hbusy : w.busy i = some (c, .await o k)) (e : Exn) :
    Kept checksum (w.resume i c (k (.error e))) := by
  refine .resume h.consistent ?_
  cases ho : o.delivery with
  | none =>
    have hprogram := h.attending.fresh i c o k hbusy ho
    exact h.attending.ends rfl (fun _ _ _ _ => rfl) ((program_await hprogram.symm).2 e)
  | some id =>
    obtain ⟨wb, hlookup, rfl, hstatus, huntil⟩ := h.attending.delivers i c o k id hbusy ho
    have hi : Carries w wb.id i := ⟨c, o, k, hbusy, ho⟩
    obtain ⟨hsends, hnext⟩ | ⟨hrecords, hlast⟩ := huntil
    · exact h.attending.delivering rfl hlookup hstatus (hnext _) (fun _ _ => rfl)
        fun j hij hj => hij (h.attending.alone j i _ hj hi)
    · exact h.attending.ends rfl (fun _ _ _ _ => rfl) (hlast _)

/-- An operation of an orderly run keeps the invariant. -/
theorem Kept.go (h : Kept checksum w)
    (hbusy : w.busy i = some (c, .await o k)) (horderly : Orderly checksum w o) :
    Kept checksum ({ w with store := (effect checksum o w.store).2 }.resume i c
      (k (effect checksum o w.store).1)) := by
  cases ho : o.delivery with
  | some id => exact h.go_delivery hbusy ho
  | none =>
    have hprogram := h.attending.fresh i c o k hbusy ho
    cases c with
    | enqueue principal body =>
      cases hprogram
      exact h.go_enqueue principal body
    | approve principal id =>
      cases hprogram
      exact h.go_approve horderly
    | reject principal id =>
      cases hprogram
      exact h.go_reject principal id
    | retry principal id =>
      cases hprogram
      exact h.go_retry horderly

theorem outside_same (t : Outside) (s : Store) :
    (outside t s).rows = s.rows ∧ (outside t s).history = s.history := by
  cases t with
  | addConnection id conn => by_cases hid : id ∈ s.connections <;> simp [outside, hid]
  | updateConnection id new =>
    cases hlookup : s.connections.lookup id <;> simp [outside, hlookup]
  | deleteConnection id =>
    cases hlookup : s.connections.lookup id <;> simp [outside, hlookup]
  | answer status => exact ⟨rfl, rfl⟩

theorem Kept.step (h : Kept checksum w) {m : Move Nat Call Exn Outside}
    (horderly : ∀ o ∈ w.operation m, Orderly checksum w o) : Kept checksum (step checksum w m) := by
  unfold Writebacks.step
  obtain hs | ⟨i, c, -, -, hs⟩ | ⟨i, c, o, k, -, hbusy, ho, hs⟩ | ⟨i, c, o, k, e, -, hbusy, hs⟩ |
      ⟨t, -, hs⟩ :=
    Pool.step_view (program checksum) (effect checksum) outside w m
  · rwa [hs]
  · rw [hs]
    refine .resume h.consistent (h.attending.resume (by rfl) (fun _ _ _ _ => rfl)
      (fun o k _ _ => rfl) fun o k id ho hsome => ?_)
    rw [(program_await ho).1] at hsome
    cases hsome
  · rw [hs]
    exact h.go hbusy (horderly o ho)
  · rw [hs]
    exact h.fail hbusy e
  · rw [hs]
    obtain ⟨hrows, hhistory⟩ := outside_same t w.store
    refine ⟨⟨?_, fun id => ?_⟩, h.attending.fresh, fun j c o k id hj ho => ?_, h.attending.alone⟩
    · rw [hhistory]
      exact h.consistent.allowed
    · rw [hhistory, hrows]
      exact h.consistent.known id
    · unfold Delivers
      rw [hrows]
      exact h.attending.delivers j c o k id hj ho

end Steps

/-! ## Runs -/

theorem Consistent.governed {checksum : Bytes → Bytes} {s : Store} (h : Consistent checksum s) :
    Governed checksum s := by
  refine ⟨h.allowed, fun id hmem => ?_⟩
  have hknown := h.known id
  cases hlookup : s.rows.lookup id with
  | none =>
    rw [hlookup] at hknown
    exact absurd rfl (hknown _ hmem)
  | some wb =>
    rw [hlookup] at hknown
    obtain ⟨rfl, hrecorded⟩ := hknown
    exact ⟨wb, rfl, hrecorded.delivered hmem⟩

/-- What is delivered was approved by another than its requester, was not rejected and, if
it is an interchange, was rendered when it was requested: in every run whose approvals and
retries are orderly. -/
theorem deliveries_governed (checksum : Bytes → Bytes) (ms : List (Move Nat Call Exn Outside))
    (horderly : Each (step checksum) (fun w m => ∀ o ∈ w.operation m, Orderly checksum w o)
      (Pool.idle {}) ms) :
    Always (step checksum) (fun w => Governed checksum w.store) (Pool.idle {}) ms := by
  have hempty : Kept checksum (Pool.idle {}) := by
    refine ⟨⟨fun past e h => ?_, fun id e he => ?_⟩, ?_, ?_, ?_⟩
    · simp [Pool.idle] at h
    · simp [Pool.idle] at he
    · exact fun i c o k h => by cases h
    · exact fun i c o k id h => by cases h
    · rintro i j id ⟨c, o, k, h, -⟩
      cases h
  have hkept := always_of_each (fun w m hw hm => hw.step hm) hempty horderly
  exact fun done hdone => (hkept done hdone).consistent.governed

/-- One asks, and another approves. -/
def approvedOnce : List (Move Nat Call Exn Outside) :=
  [.other (.addConnection (bytes "c")
      { tenantID := bytes "t"
        trafficDirection := bytes "outgoing"
        connectorType := bytes "http_api"
        url := bytes "https://sor.example" }),
    .start 0 (.enqueue ⟨bytes "alice", bytes "t"⟩
      { id := bytes "w"
        connectionID := bytes "c"
        idempotencyKey := bytes "k"
        target := {}
        payload := ∅ }),
    .go 0,
    .start 1 (.approve ⟨bytes "bob", bytes "t"⟩ (bytes "w")),
    .go 1]

/-- The approver delivers. -/
def delivering : List (Move Nat Call Exn Outside) := [.go 1, .go 1, .go 1, .go 1]

theorem deliveries_governed_sample :
    Always (step fun _ => []) (fun w => Governed (fun _ => []) w.store) (Pool.idle {})
      (approvedOnce ++ delivering) := by
  refine deliveries_governed (fun _ => []) (approvedOnce ++ delivering) ?_
  simp only [approvedOnce, delivering, List.cons_append, List.nil_append, each_cons]
  refine ⟨?_, ?_, ?_, ?_, ?_, ?_, ?_, ?_, ?_, each_nil _⟩
  case refine_5 =>
    intro o ho
    cases ho
    refine ⟨fun wb conn content hget _ _ hbytes => ?_, fun wb _ hanonymous => by cases hanonymous⟩
    cases hget
    cases hbytes
  all_goals
    intro o ho
    cases ho
    try trivial

/-- A retry during the delivery: the delivery succeeds, and then the retry fails. -/
def retriedMeanwhile : List (Move Nat Call Exn Outside) :=
  approvedOnce ++ [.start 2 (.retry ⟨bytes "bob", bytes "t"⟩ (bytes "w")), .go 2] ++ delivering ++
    [.fail 2 .other, .go 2]

theorem deliveries_not_governed :
    ¬Always (step fun _ => []) (fun w => Governed (fun _ => []) w.store) (Pool.idle {})
      retriedMeanwhile := by
  intro h
  obtain ⟨wb, hlookup, hstatus⟩ :=
    (h retriedMeanwhile List.prefix_rfl).delivered (bytes "w") (by repeat constructor)
  have hfailed : ((run (step fun _ => []) (Pool.idle {}) retriedMeanwhile).store.rows.lookup
      (bytes "w")).map (·.status) = some .failed := by decide
  rw [hlookup, Option.map_some, hstatus] at hfailed
  cases hfailed

end Windrose.Writebacks

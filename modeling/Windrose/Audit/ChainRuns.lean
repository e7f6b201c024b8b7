/-
  Audit/ChainRuns.lean --- the chain over a whole day of calls.

  Source: services/audit-service/internal/chain/chain.go and
  internal/ingest/processor.go (Handle, HandleBatch, buildPending).

  A run is a list of `Append` and `AppendBatch` calls of one tenant on one day, each with
  the fates of its commands.  A call that answers gives its links to the events, and the
  caller then inserts the rows, or fails to and retries later.
-/
import Windrose.Audit.ChainFaults

set_option autoImplicit false

namespace Windrose.Audit

open Windrose.Foundation

/-- What the ingest receives of an event, besides its id. -/
structure Envelope where
  payloadDigest : Bytes
  occurredAt : Time
  deriving DecidableEq

/-- `buildPending`: the time is cut to the milliseconds the rows can hold. -/
def buildPending (env : Uuid → Envelope) (e : Uuid) : BatchItem :=
  ⟨e, (env e).payloadDigest, (env e).occurredAt.utc.truncateMs⟩

/-- One call, the fates of its commands, and whether the insert of its rows
succeeds when it answers. -/
inductive Call where
  | append (e : Uuid) (fate : Cmd → Fate) (inserted : Bool)
  | appendBatch (es : List Uuid) (fate : Cmd → Fate) (inserted : Bool)

/-- The events a call is about. -/
def Call.events : Call → List Uuid
  | .append e _ _ => [e]
  | .appendBatch es _ _ => es

/-- The day's store, and the links given to callers so far. -/
structure World where
  store : Store
  given : List (Uuid × Link)

/-- The day before the first call. -/
def World.init : World := ⟨Store.empty, []⟩

/-! ## `FINAL` -/

theorem finalRows_sublist (rows : List Record) : (finalRows rows).Sublist rows := by
  induction rows with
  | nil => exact .slnil
  | cons r rows ih =>
    unfold finalRows
    split
    · exact .cons r ih
    · exact ih.cons_cons r

theorem exists_mem_finalRows {rows : List Record} :
    ∀ {r : Record}, r ∈ rows → ∃ r' ∈ finalRows rows, r'.key = r.key := by
  induction rows with
  | nil => intro r hr; exact absurd hr List.not_mem_nil
  | cons a rows ih =>
    intro r hr
    unfold finalRows
    rcases List.mem_cons.mp hr with rfl | hr
    · split
      · -- A later row has this key.
        rename_i hlater
        obtain ⟨q, hq, hkey⟩ := List.any_eq_true.mp hlater
        obtain ⟨r', hr', hkey'⟩ := ih hq
        exact ⟨r', hr', hkey'.trans (eq_of_beq hkey)⟩
      · exact ⟨r, List.mem_cons_self, rfl⟩
    · obtain ⟨r', hr', hkey⟩ := ih hr
      split
      · exact ⟨r', hr', hkey⟩
      · exact ⟨r', List.mem_cons_of_mem a hr', hkey⟩

theorem pairwise_key_finalRows (rows : List Record) :
    (finalRows rows).Pairwise fun r r' => r.key ≠ r'.key := by
  induction rows with
  | nil => exact .nil
  | cons r rows ih =>
    unfold finalRows
    split
    · exact ih
    · rename_i hlast
      refine .cons (fun r' hr' heq => ?_) ih
      refine hlast (List.any_eq_true.mpr ⟨r', (finalRows_sublist rows).mem hr', ?_⟩)
      exact beq_iff_eq.mpr heq.symm

namespace Manager

variable (m : Manager) (env : Uuid → Envelope)

/-- The row `Handle` and `HandleBatch` insert for an event with its link. -/
def rowOf (e : Uuid) (l : Link) : Record where
  eventID := e
  tenantID := m.tenant
  occurredAt := (buildPending env e).occurredAt
  payloadDigest := (buildPending env e).payloadDigest
  chainDate := l.chainDate
  chainSeq := l.seq
  chainHash := l.hash

/-- Hand the links of a call to its events, and insert the rows. -/
def deliver (w : World) (es : List Uuid) (inserted : Bool) :
    Option (List Link) × Store → World
  | (none, s) => ⟨s, w.given⟩
  | (some links, s) =>
    let given := es.zip links
    ⟨if inserted then { s with rows := s.rows ++ given.map fun p => m.rowOf env p.1 p.2 } else s,
      w.given ++ given⟩

/-- One call. -/
def step (w : World) : Call → World
  | .append e fate inserted =>
    let (link, s) := (m.append (buildPending env e)).run fate w.store
    m.deliver env w [e] inserted (link.map fun l => [l], s)
  | .appendBatch es fate inserted =>
    m.deliver env w es inserted ((m.appendBatch (es.map (buildPending env))).run fate w.store)

/-- A run of calls. -/
def run (w : World) (calls : List Call) : World := calls.foldl (m.step env) w

/-- A call that does not reach the two places where a number is lost or spent
twice: an append interrupted between INCR and the SET of the head, and a batch
that lists an unassigned event twice. -/
def CleanCall (s : Store) : Call → Prop
  | .append e fate _ => m.CleanAppend s e fate
  | .appendBatch [] _ _ => True
  | .appendBatch [e] fate _ => m.CleanAppend s e fate
  | .appendBatch es _ _ => ((pending s (es.map (buildPending env))).map BatchItem.eventID).Nodup

/-- Every call of the run is clean where it is made. -/
def CleanRun (w : World) : List Call → Prop
  | [] => True
  | c :: calls => m.CleanCall env w.store c ∧ CleanRun (m.step env w c) calls

instance (s : Store) (c : Call) : Decidable (m.CleanCall env s c) :=
  match c with
  | .append e fate _ => inferInstanceAs (Decidable (m.CleanAppend s e fate))
  | .appendBatch [] _ _ => .isTrue trivial
  | .appendBatch [e] fate _ => inferInstanceAs (Decidable (m.CleanAppend s e fate))
  | .appendBatch (a :: b :: rest) _ _ => inferInstanceAs (Decidable (List.Nodup
      ((pending s ((a :: b :: rest).map (buildPending env))).map BatchItem.eventID)))

instance decidableCleanRun : (w : World) → (calls : List Call) → Decidable (m.CleanRun env w calls)
  | _, [] => .isTrue trivial
  | w, c :: calls =>
    have := decidableCleanRun (m.step env w c) calls
    inferInstanceAs (Decidable (_ ∧ _))

/-! ## The invariant -/

/-- The head after the given events. -/
def headOf (order : List Uuid) : Bytes :=
  HashChain.head (linkHash m.sum256) m.genesis (order.map (buildPending env))

/-- The link of the `k`-th event, from zero. -/
def linkAt (order : List Uuid) (k : Nat) : Link :=
  ⟨m.date, k + 1, m.headOf env (order.take (k + 1))⟩

/-- The store is the one of the given events, in this order. -/
structure Inv (order : List Uuid) (s : Store) : Prop where
  nodup : order.Nodup
  assign : ∀ e l, s.assign e = some l ↔ ∃ k, order[k]? = some e ∧ l = m.linkAt env order k
  tip : (s.seq = none ∧ s.head = none ∧ order = []) ∨
    (s.seq = some order.length ∧
      (s.head = some (m.headOf env order) ∨ s.head = none ∧ order = []))
  rows : ∀ r ∈ s.rows, ∃ l, s.assign r.eventID = some l ∧ r = m.rowOf env r.eventID l

variable {m env}

theorem inv_empty : m.Inv env [] Store.empty where
  nodup := List.nodup_nil
  assign e l := by simp [Store.empty]
  tip := .inl ⟨rfl, rfl, rfl⟩
  rows r hr := absurd hr List.not_mem_nil

theorem headOf_append_singleton (order : List Uuid) (e : Uuid) : m.headOf env (order ++ [e]) =
      linkHash m.sum256 (m.headOf env order) (buildPending env e) := by
  rw [headOf, List.map_append, List.map_singleton, HashChain.head_append_singleton]
  rfl

theorem headOf_ne_nil (hne : ∀ b, m.sum256 b ≠ []) (order : List Uuid) : m.headOf env order ≠ [] :=
  HashChain.head_wellFormed (P := fun h => h ≠ []) (sha256Hex_ne_nil hne _)
    (fun _ _ => sha256Hex_ne_nil hne _) _

variable {e : Uuid} {order' : List Uuid}

namespace Inv

variable {order : List Uuid} {s s' : Store}

theorem mem_iff (h : m.Inv env order s) : e ∈ order ↔ s.assign e ≠ none := by
  rw [List.mem_iff_getElem?, ← Option.isSome_iff_ne_none, Option.isSome_iff_exists]
  constructor
  · rintro ⟨k, hk⟩
    exact ⟨_, (h.assign e _).mpr ⟨k, hk, rfl⟩⟩
  · rintro ⟨l, hl⟩
    obtain ⟨k, hk, -⟩ := (h.assign e l).mp hl
    exact ⟨k, hk⟩

theorem rows_eq_nil (h : m.Inv env [] s) : s.rows = [] := by
  refine List.eq_nil_iff_forall_not_mem.mpr fun r hr => ?_
  obtain ⟨l, hl, -⟩ := h.rows r hr
  obtain ⟨k, hk, -⟩ := (h.assign _ l).mp hl
  exact absurd hk (by simp)

theorem seedOf_eq (h : m.Inv env [] s) : m.seedOf s = (0, m.genesis) := by
  have htip : chainTip s.rows = none := by
    rw [h.rows_eq_nil]
    rfl
  simp [seedOf, htip]

theorem start_eq (h : m.Inv env order s) : m.start s = (order.length, m.headOf env order) := by
  unfold start
  rcases h.tip with ⟨hseq, -, rfl⟩ | ⟨hseq, hhead | ⟨hhead, rfl⟩⟩
  · rw [hseq]
    exact h.seedOf_eq
  · rw [hseq, hhead]
    rfl
  · rw [hseq, hhead]
    rfl

theorem sameChain (h : m.Inv env order s) (hsame : s'.SameChain s) : m.Inv env order s' := by
  obtain ⟨hassign, hseq, hhead, hrows⟩ := hsame
  exact ⟨h.nodup, by rw [hassign]; exact h.assign, by rw [hseq, hhead]; exact h.tip,
    by rw [hassign, hrows]; exact h.rows⟩

theorem unmoved (h : m.Inv env order s) (hsame : m.Unmoved s s') : m.Inv env order s' := by
  rcases hsame with hsame | ⟨hcold, hsame⟩
  · exact h.sameChain hsame
  · -- Only a cold counter is seeded, and then no event is assigned.
    rcases h.tip with ⟨-, hhead, rfl⟩ | ⟨hseq, -⟩
    · rw [h.seedOf_eq] at hsame
      rcases hsame with hsame | hsame
      · have hseeded : m.Inv env [] (s.setSeq 0) :=
          ⟨h.nodup, h.assign, .inr ⟨rfl, .inr ⟨hhead, rfl⟩⟩, h.rows⟩
        exact hseeded.sameChain hsame
      · have hseeded : m.Inv env [] ((s.setSeq 0).setHead m.genesis) :=
          ⟨h.nodup, h.assign, .inr ⟨rfl, .inl rfl⟩, h.rows⟩
        exact hseeded.sameChain hsame
    · rw [hcold] at hseq
      exact absurd hseq (by simp)

theorem linkAt_extend (hpre : order <+: order') {k : Nat}
    (hk : k < order.length) : m.linkAt env order' k = m.linkAt env order k := by
  obtain ⟨t, rfl⟩ := hpre
  rw [linkAt, linkAt, List.take_append_of_le_length hk]

theorem assign_mono (h : m.Inv env order s) (h' : m.Inv env order' s')
    (hpre : order <+: order') {l : Link} (hl : s.assign e = some l) : s'.assign e = some l := by
  obtain ⟨k, hk, rfl⟩ := (h.assign e l).mp hl
  have hlt : k < order.length := (List.getElem?_eq_some_iff.mp hk).1
  refine (h'.assign e _).mpr ⟨k, ?_, (linkAt_extend hpre hlt).symm⟩
  obtain ⟨t, rfl⟩ := hpre
  rw [List.getElem?_append_left hlt, hk]

theorem nextLink_eq (hne : ∀ b, m.sum256 b ≠ []) (h : m.Inv env order s) (e : Uuid) :
    m.nextLink s (buildPending env e) = m.linkAt env (order ++ [e]) order.length := by
  rw [nextLink, h.start_eq, orGenesis_of_ne_nil (headOf_ne_nil hne order), linkAt,
    List.take_of_length_le (by simp), headOf_append_singleton]

theorem appended (hne : ∀ b, m.sum256 b ≠ []) (h : m.Inv env order s) (he : s.assign e = none) :
    m.Inv env (order ++ [e]) (m.appended s (buildPending env e)) := by
  have hlink := h.nextLink_eq hne e
  have hnew : e ∉ order := fun hmem => h.mem_iff.mp hmem he
  have hpre : order <+: order ++ [e] := List.prefix_append order [e]
  refine ⟨?_, fun e' l => ?_, .inr ⟨?_, .inl ?_⟩, fun r hr => ?_⟩
  · exact List.nodup_append.mpr ⟨h.nodup, List.nodup_singleton e, by
      intro a ha b hb
      rw [List.mem_singleton.mp hb]
      rintro rfl
      exact hnew ha⟩
  · by_cases hee : e' = e
    · subst hee
      have hself : (m.appended s (buildPending env e')).assign e' =
          some (m.linkAt env (order ++ [e']) order.length) := by
        rw [← hlink]
        exact assign_appended_self s (buildPending env e')
      rw [hself, Option.some_inj]
      constructor
      · rintro rfl
        exact ⟨order.length, by simp, rfl⟩
      · rintro ⟨k, hk, rfl⟩
        -- The new event stands only at the end.
        have hlast : ¬ k < order.length := by
          intro hlt
          rw [List.getElem?_append_left hlt] at hk
          exact hnew (List.mem_of_getElem? hk)
        have hbound := (List.getElem?_eq_some_iff.mp hk).1
        rw [List.length_append, List.length_singleton] at hbound
        rw [show k = order.length by omega]
    · rw [assign_appended_of_ne (show e' ≠ (buildPending env e).eventID from hee), h.assign]
      constructor
      · rintro ⟨k, hk, rfl⟩
        have hlt : k < order.length := (List.getElem?_eq_some_iff.mp hk).1
        exact ⟨k, by rw [List.getElem?_append_left hlt, hk], (linkAt_extend hpre hlt).symm⟩
      · rintro ⟨k, hk, rfl⟩
        have hlt : k < order.length := by
          by_contra hge
          have hbound := (List.getElem?_eq_some_iff.mp hk).1
          rw [List.length_append, List.length_singleton] at hbound
          rw [show k = order.length by omega, List.getElem?_concat_length] at hk
          exact hee (Option.some.inj hk).symm
        rw [List.getElem?_append_left hlt] at hk
        exact ⟨k, hk, linkAt_extend hpre hlt⟩
  · show some (m.nextLink s (buildPending env e)).seq = _
    rw [hlink, List.length_append]
    rfl
  · show some (m.nextLink s (buildPending env e)).hash = _
    rw [hlink, linkAt, List.take_of_length_le (by simp)]
  · obtain ⟨l, hl, hrow⟩ := h.rows r hr
    refine ⟨l, ?_, hrow⟩
    rw [assign_appended_of_ne (show r.eventID ≠ (buildPending env e).eventID from ?_), hl]
    rintro heq
    rw [show r.eventID = e from heq, he] at hl
    exact absurd hl (by simp)

theorem each (hne : ∀ b, m.sum256 b ≠ []) (es : List Uuid) :
    ∀ {order : List Uuid} {s : Store}, m.Inv env order s →
      ∃ order', m.Inv env order' (m.each s (es.map (buildPending env))).2 ∧
        order <+: order' ∧ (∀ e ∈ order', e ∈ order ∨ e ∈ es) ∧
        List.Forall₂ (fun e l => (m.each s (es.map (buildPending env))).2.assign e = some l)
          es (m.each s (es.map (buildPending env))).1 := by
  induction es with
  | nil =>
    intro order s h
    exact ⟨order, h, List.prefix_refl _, fun e he => .inl he, .nil⟩
  | cons e es ih =>
    intro order s h
    have hid : (buildPending env e).eventID = e := rfl
    simp only [List.map_cons, Manager.each, hid]
    cases he : s.assign e with
    | some l =>
      obtain ⟨order', h', hpre, hfrom, hlinks⟩ := ih h
      refine ⟨order', h', hpre, fun a ha => ?_, .cons (h.assign_mono h' hpre he) hlinks⟩
      exact (hfrom a ha).imp_right (List.mem_cons_of_mem e)
    | none =>
      have hnext := h.appended hne he
      obtain ⟨order', h', hpre, hfrom, hlinks⟩ := ih hnext
      refine ⟨order', h', (List.prefix_append _ _).trans hpre, fun a ha => ?_,
        .cons (hnext.assign_mono h' hpre (assign_appended_self s (buildPending env e)))
          hlinks⟩
      rcases hfrom a ha with ha | ha
      · rcases List.mem_append.mp ha with ha | ha
        · exact .inl ha
        · exact .inr (by rw [List.mem_singleton.mp ha]; exact List.mem_cons_self)
      · exact .inr (List.mem_cons_of_mem e ha)

end Inv

/-! ## Runs -/

/-- The world after some calls: its store, and the links handed out. -/
def WorldInv (m : Manager) (env : Uuid → Envelope) (events order : List Uuid) (w : World) : Prop :=
  m.Inv env order w.store ∧ (∀ p ∈ w.given, w.store.assign p.1 = some p.2) ∧
    ∀ e ∈ order, e ∈ events

variable {order events : List Uuid} {w : World}

theorem deliver_inv {es : List Uuid} {inserted : Bool}
    {links : Option (List Link)} {s : Store} (h : WorldInv m env events order w)
    (h' : m.Inv env order' s) (hpre : order <+: order') (hfrom : ∀ e ∈ order', e ∈ order ∨ e ∈ es)
    (hlinks : ∀ ls, links = some ls → List.Forall₂ (fun e l => s.assign e = some l) es ls) :
    WorldInv m env (events ++ es) order' (m.deliver env w es inserted (links, s)) := by
  have hgiven : ∀ p ∈ w.given, s.assign p.1 = some p.2 :=
    fun p hp => h.1.assign_mono h' hpre (h.2.1 p hp)
  have hevents : ∀ e ∈ order', e ∈ events ++ es := by
    intro e he
    rcases hfrom e he with he | he
    · exact List.mem_append_left _ (h.2.2 e he)
    · exact List.mem_append_right _ he
  cases links with
  | none => exact ⟨h', hgiven, hevents⟩
  | some ls =>
    have hzip : ∀ p ∈ es.zip ls, s.assign p.1 = some p.2 := by
      rintro ⟨e, l⟩ hp
      exact (List.forall₂_iff_zip.mp (hlinks ls rfl)).2 hp
    have hall : ∀ p ∈ w.given ++ es.zip ls, s.assign p.1 = some p.2 := by
      intro p hp
      rcases List.mem_append.mp hp with hp | hp
      · exact hgiven p hp
      · exact hzip p hp
    cases inserted with
    | false => exact ⟨h', hall, hevents⟩
    | true =>
      refine ⟨⟨h'.nodup, h'.assign, h'.tip, fun r hr => ?_⟩, hall, hevents⟩
      rcases List.mem_append.mp hr with hr | hr
      · exact h'.rows r hr
      · obtain ⟨p, hp, rfl⟩ := List.mem_map.mp hr
        exact ⟨p.2, hzip p hp, rfl⟩

theorem append_inv (hne : ∀ b, m.sum256 b ≠ [])
    {fate : Cmd → Fate} (inserted : Bool) (h : WorldInv m env events order w)
    (hclean : m.CleanAppend w.store e fate) :
    ∃ order', order <+: order' ∧ WorldInv m env (events ++ [e]) order'
      (m.deliver env w [e] inserted
        ((((m.append (buildPending env e)).run fate w.store).1).map fun l => [l],
          ((m.append (buildPending env e)).run fate w.store).2)) := by
  have hout := m.append_outcome (show m.CleanAppend w.store (buildPending env e).eventID fate
      from hclean)
  generalize (m.append (buildPending env e)).run fate w.store = out at hout ⊢
  obtain ⟨r, s'⟩ := out
  rcases hout with ⟨hr, hunmoved⟩ | ⟨hnew, hr, hsame⟩
  · have h' := h.1.unmoved hunmoved
    refine ⟨order, List.prefix_refl _,
      deliver_inv h h' (List.prefix_refl _) (fun a ha => .inl ha) fun ls hls => ?_⟩
    rcases hr with rfl | rfl
    · exact absurd hls (by simp)
    · obtain ⟨l, hl, rfl⟩ := Option.map_eq_some_iff.mp hls
      exact .cons (h.1.assign_mono h' (List.prefix_refl _) hl) .nil
  · have h' := (h.1.appended hne hnew).sameChain hsame
    refine ⟨order ++ [e], List.prefix_append _ _, deliver_inv h h' (List.prefix_append _ _)
      (fun a ha => List.mem_append.mp ha) fun ls hls => ?_⟩
    rcases hr with rfl | rfl
    · exact absurd hls (by simp)
    · rw [← Option.some.inj hls]
      refine .cons ?_ .nil
      rw [hsame.1]
      exact assign_appended_self w.store (buildPending env e)

theorem appendBatch_inv (hne : ∀ b, m.sum256 b ≠ []) {es : List Uuid}
    (fate : Cmd → Fate) (inserted : Bool) (h : WorldInv m env events order w) (hlen : 2 ≤ es.length)
    (hnodup : ((pending w.store (es.map (buildPending env))).map BatchItem.eventID).Nodup) :
    ∃ order', order <+: order' ∧ WorldInv m env (events ++ es) order'
      (m.deliver env w es inserted
        ((m.appendBatch (es.map (buildPending env))).run fate w.store)) := by
  have hlen' : 2 ≤ (es.map (buildPending env)).length := by
    rw [List.length_map]
    exact hlen
  have hout := m.appendBatch_outcome fate w.store hlen'
  have hhead : (m.start w.store).2 ≠ [] := by
    rw [h.1.start_eq]
    exact headOf_ne_nil hne order
  have heach := each_eq_planned hne (es.map (buildPending env)) w.store hnodup (.inr hhead)
  generalize (m.appendBatch (es.map (buildPending env))).run fate w.store = out at hout ⊢
  obtain ⟨r, s'⟩ := out
  rcases hout with ⟨hr, hsame⟩ | ⟨hr, hsame⟩
  · refine ⟨order, List.prefix_refl _, deliver_inv h (h.1.sameChain hsame) (List.prefix_refl _)
      (fun a ha => .inl ha) fun ls hls => ?_⟩
    rw [show r = none from hr] at hls
    exact absurd hls (by simp)
  · obtain ⟨order', h', hpre, hfrom, hlinks⟩ := h.1.each hne es
    rw [heach] at h' hlinks
    refine ⟨order', hpre, deliver_inv h (h'.sameChain hsame) hpre hfrom fun ls hls => ?_⟩
    rcases hr with hr | hr
    · rw [show r = none from hr] at hls
      exact absurd hls (by simp)
    · rw [show r = some _ from hr] at hls
      rw [← Option.some.inj hls, show s'.assign = _ from hsame.1]
      exact hlinks

theorem step_inv (hne : ∀ b, m.sum256 b ≠ []) {c : Call}
    (h : WorldInv m env events order w) (hclean : m.CleanCall env w.store c) :
    ∃ order', order <+: order' ∧ WorldInv m env (events ++ c.events) order' (m.step env w c) := by
  match c with
  | .append e fate inserted => exact append_inv hne inserted h hclean
  | .appendBatch [] fate inserted =>
    refine ⟨order, List.prefix_refl _,
      deliver_inv h h.1 (List.prefix_refl _) (fun a ha => .inl ha) fun ls hls => ?_⟩
    rw [← Option.some.inj hls]
    exact .nil
  | .appendBatch [e] fate inserted =>
    have happend := append_inv hne inserted h (show m.CleanAppend w.store e fate from hclean)
    have hone : (m.appendBatch [buildPending env e]).run fate w.store =
        ((((m.append (buildPending env e)).run fate w.store).1).map fun l => [l],
          ((m.append (buildPending env e)).run fate w.store).2) := by
      rw [appendBatch, Prog.run_bind]
      rcases (m.append (buildPending env e)).run fate w.store with ⟨_ | l, s'⟩
      · rfl
      · rfl
    rw [← hone] at happend
    exact happend
  | .appendBatch (a :: b :: rest) fate inserted =>
    have hlen : 2 ≤ (a :: b :: rest).length := by simp
    exact appendBatch_inv hne fate inserted h hlen hclean

theorem run_inv (hne : ∀ b, m.sum256 b ≠ []) (calls : List Call) :
    ∀ {events order : List Uuid} {w : World}, WorldInv m env events order w →
      m.CleanRun env w calls →
      ∃ order', WorldInv m env (events ++ calls.flatMap Call.events)
        order' (m.run env w calls) := by
  induction calls with
  | nil =>
    intro events order w h _
    exact ⟨order, by simpa [run] using h⟩
  | cons c calls ih =>
    intro events order w h hclean
    obtain ⟨order₁, -, h₁⟩ := step_inv hne h hclean.1
    obtain ⟨order₂, h₂⟩ := ih h₁ hclean.2
    exact ⟨order₂, by simpa [run, List.append_assoc] using h₂⟩

/-! ## The stored rows -/

/-- The rows of the given events, chained from `prev` and numbered from `n`. -/
def rowsFrom (m : Manager) (env : Uuid → Envelope) : Bytes → Nat → List Uuid → List Record
  | _, _, [] => []
  | prev, n, e :: es =>
    let hash := linkHash m.sum256 prev (buildPending env e)
    m.rowOf env e ⟨m.date, n, hash⟩ :: rowsFrom m env hash (n + 1) es

theorem item_rowOf (e : Uuid) (l : Link) : (m.rowOf env e l).item = buildPending env e := rfl

theorem chained_rowsFrom (es : List Uuid) :
    ∀ (prev : Bytes) (n : Nat), Chained m.sum256 prev n (rowsFrom m env prev n es) := by
  induction es with
  | nil => intro prev n; exact trivial
  | cons e es ih => intro prev n; exact ⟨rfl, rfl, ih _ _⟩

theorem map_item_rowsFrom (es : List Uuid) : ∀ (prev : Bytes) (n : Nat),
      (rowsFrom m env prev n es).map Record.item = es.map (buildPending env) := by
  induction es with
  | nil => intro prev n; rfl
  | cons e es ih =>
    intro prev n
    rw [rowsFrom, List.map_cons, List.map_cons, ih, item_rowOf]

theorem mem_rowsFrom {r : Record} (es : List Uuid) :
    ∀ (prev : Bytes) (n : Nat), r ∈ rowsFrom m env prev n es ↔
      ∃ k e, es[k]? = some e ∧ r = m.rowOf env e ⟨m.date, n + k,
        HashChain.head (linkHash m.sum256) prev ((es.take (k + 1)).map (buildPending env))⟩ := by
  induction es with
  | nil => intro prev n; simp [rowsFrom]
  | cons a es ih =>
    intro prev n
    rw [rowsFrom, List.mem_cons, ih]
    constructor
    · rintro (rfl | ⟨k, e, hk, rfl⟩)
      · exact ⟨0, a, rfl, rfl⟩
      · refine ⟨k + 1, e, hk, ?_⟩
        rw [List.take_succ_cons, List.map_cons, HashChain.head_cons, Nat.add_right_comm,
          Nat.add_assoc n k 1]
    · rintro ⟨k, e, hk, rfl⟩
      cases k with
      | zero =>
        obtain rfl : a = e := Option.some.inj hk
        exact .inl rfl
      | succ k =>
        refine .inr ⟨k, e, hk, ?_⟩
        rw [List.take_succ_cons, List.map_cons, HashChain.head_cons, Nat.add_right_comm,
          Nat.add_assoc n k 1]

theorem pairwise_rowsFrom (es : List Uuid) : ∀ (prev : Bytes) (n : Nat),
      (rowsFrom m env prev n es).Pairwise fun r r' => r.chainSeq < r'.chainSeq := by
  induction es with
  | nil => intro prev n; exact .nil
  | cons e es ih =>
    intro prev n
    refine .cons (fun r hr => ?_) (ih _ _)
    obtain ⟨k, e', -, rfl⟩ := (mem_rowsFrom es _ _).mp hr
    show n < n + 1 + k
    omega

/-- With a row for every assigned event the scan reads the chain in order. -/
theorem Inv.chainScan_eq {s : Store} (h : m.Inv env order s)
    (hstored : ∀ e ∈ order, ∃ r ∈ s.rows, r.eventID = e) :
    chainScan s.rows = rowsFrom m env m.genesis 1 order := by
  -- A row is determined by its event, hence by its key.
  have hrow : ∀ r, r ∈ s.rows ↔ r ∈ rowsFrom m env m.genesis 1 order := by
    intro r
    rw [mem_rowsFrom]
    constructor
    · intro hr
      obtain ⟨l, hl, hrl⟩ := h.rows r hr
      obtain ⟨k, hk, rfl⟩ := (h.assign _ l).mp hl
      refine ⟨k, r.eventID, hk, ?_⟩
      rw [Nat.add_comm 1 k]
      exact hrl
    · rintro ⟨k, e, hk, rfl⟩
      obtain ⟨r, hr, rfl⟩ := hstored e (List.mem_of_getElem? hk)
      obtain ⟨l, hl, hrl⟩ := h.rows r hr
      have hlink := (h.assign _ _).mpr ⟨k, hk, rfl⟩
      rw [hl] at hlink
      rw [hrl, Option.some.inj hlink] at hr
      rw [Nat.add_comm 1 k]
      exact hr
  have hkeys : ∀ r ∈ s.rows, ∀ r' ∈ s.rows, r.key = r'.key → r = r' := by
    intro r hr r' hr' hkey
    obtain ⟨l, hl, hrl⟩ := h.rows r hr
    obtain ⟨l', hl', hrl'⟩ := h.rows r' hr'
    have hid : r.eventID = r'.eventID := congrArg (fun k => k.2.2) hkey
    rw [hid, hl'] at hl
    rw [hrl, hrl', hid, Option.some.inj hl]
  have hfinal : ∀ r, r ∈ finalRows s.rows ↔ r ∈ s.rows := by
    intro r
    refine ⟨fun hr => (finalRows_sublist _).mem hr, fun hr => ?_⟩
    obtain ⟨r', hr', hkey⟩ := exists_mem_finalRows hr
    rw [← hkeys r' ((finalRows_sublist _).mem hr') r hr hkey]
    exact hr'
  have hsorted : (rowsFrom m env m.genesis 1 order).Pairwise
      fun r r' => r.chainSeq < r'.chainSeq := pairwise_rowsFrom order m.genesis 1
  have hperm : (finalRows s.rows).Perm (rowsFrom m env m.genesis 1 order) := by
    rw [List.perm_ext_iff_of_nodup]
    · intro r
      rw [hfinal, hrow]
    · exact (pairwise_key_finalRows s.rows).imp fun hne heq => hne (congrArg Record.key heq)
    · exact hsorted.imp fun hlt heq => absurd hlt (by rw [heq]; exact Nat.lt_irrefl _)
  refine List.Perm.eq_of_pairwise ?_ (List.pairwise_insertionSort _ _)
    (hsorted.imp fun hlt => Nat.le_of_lt hlt) ((List.perm_insertionSort _ _).trans hperm)
  intro a b ha hb hab hba
  have ha' := (hrow a).mp ((hfinal a).mp ((List.mem_insertionSort _).mp ha))
  obtain ⟨k, e, hk, rfl⟩ := (mem_rowsFrom order _ _).mp ha'
  obtain ⟨k', e', hk', rfl⟩ := (mem_rowsFrom order _ _).mp hb
  have hab' : 1 + k ≤ 1 + k' := hab
  have hba' : 1 + k' ≤ 1 + k := hba
  obtain rfl : k = k' := by omega
  rw [hk] at hk'
  rw [Option.some.inj hk']

/-! ## The day -/

/-- Every event of the day was given a link. -/
def AllGiven (w : World) (events : List Uuid) : Prop := ∀ e ∈ events, e ∈ w.given.map Prod.fst

instance (w : World) (events : List Uuid) : Decidable (AllGiven w events) :=
  inferInstanceAs (Decidable (∀ e ∈ events, _))

theorem AllGiven.exists_link (h : AllGiven w events) (he : e ∈ events) : ∃ l, (e, l) ∈ w.given := by
  obtain ⟨⟨e, l⟩, hl, rfl⟩ := List.mem_map.mp (h e he)
  exact ⟨l, hl⟩

/-- The chain of a day in order: each event has one link, the numbers are
`1, ..., n` for the `n` events, the hashes are linked from the genesis hash on,
and the stored rows, once there is one for every event, replay as valid, whether
the day is unsealed or sealed with the head. -/
structure Intact (m : Manager) (env : Uuid → Envelope) (w : World) (events : List Uuid) :
    Prop where
  functional : ∀ e l l', (e, l) ∈ w.given → (e, l') ∈ w.given → l = l'
  numbers : ∀ k, (∃ e l, (e, l) ∈ w.given ∧ l.seq = k) ↔ 1 ≤ k ∧ k ≤ events.toFinset.card
  distinct : ∀ e l e' l', (e, l) ∈ w.given → (e', l') ∈ w.given → l.seq = l'.seq → e = e'
  first : ∀ e l, (e, l) ∈ w.given → l.seq = 1 →
    l.hash = linkHash m.sum256 m.genesis (buildPending env e)
  linked : ∀ e l e' l', (e, l) ∈ w.given → (e', l') ∈ w.given → l'.seq = l.seq + 1 →
    l'.hash = linkHash m.sum256 l.hash (buildPending env e')
  verified : (∀ e ∈ events, ∃ r ∈ w.store.rows, r.eventID = e) →
    ∀ sealedHead, sealedHead = [] ∨ w.store.head = some sealedHead →
      (verify m.sum256 (chainScan w.store.rows) m.tenant m.date sealedHead).valid = true

theorem headOf_take_succ {k : Nat} (hk : order[k]? = some e) : m.headOf env (order.take (k + 1)) =
      linkHash m.sum256 (m.headOf env (order.take k)) (buildPending env e) := by
  rw [List.take_add_one, hk, Option.toList_some, headOf_append_singleton]

theorem WorldInv.intact
    (h : WorldInv m env events order w) (hgiven : AllGiven w events) : Intact m env w events := by
  obtain ⟨hinv, hassigned, hfrom⟩ := h
  have hlink : ∀ e l, (e, l) ∈ w.given → ∃ k, order[k]? = some e ∧ l = m.linkAt env order k :=
    fun e l hel => (hinv.assign e l).mp (hassigned (e, l) hel)
  have hcard : events.toFinset.card = order.length := by
    rw [← List.toFinset_card_of_nodup hinv.nodup]
    congr 1
    ext e
    rw [List.mem_toFinset, List.mem_toFinset]
    refine ⟨fun he => ?_, hfrom e⟩
    obtain ⟨l, hl⟩ := hgiven.exists_link he
    obtain ⟨k, hk, -⟩ := hlink e l hl
    exact List.mem_of_getElem? hk
  refine ⟨?_, fun k => ⟨?_, ?_⟩, ?_, ?_, ?_, ?_⟩
  · intro e l l' hl hl'
    exact Option.some.inj ((hassigned _ hl).symm.trans (hassigned _ hl'))
  · rintro ⟨e, l, hl, rfl⟩
    obtain ⟨k, hk, rfl⟩ := hlink e l hl
    have hlt := (List.getElem?_eq_some_iff.mp hk).1
    rw [hcard]
    exact ⟨Nat.le_add_left 1 k, hlt⟩
  · rintro ⟨hpos, hle⟩
    rw [hcard] at hle
    have hlt : k - 1 < order.length := by omega
    obtain ⟨l, hl⟩ := hgiven.exists_link (hfrom _ (List.getElem_mem hlt))
    obtain ⟨j, hj, rfl⟩ := hlink _ l hl
    refine ⟨_, _, hl, ?_⟩
    -- The order has no repetition, so the link's position is this one.
    have hj' := List.getElem?_eq_some_iff.mp hj
    have hjk := (hinv.nodup.getElem_inj_iff).mp hj'.2
    show j + 1 = k
    omega
  · intro e l e' l' hl hl' heq
    obtain ⟨k, hk, rfl⟩ := hlink e l hl
    obtain ⟨k', hk', rfl⟩ := hlink e' l' hl'
    obtain rfl : k = k' := Nat.succ.inj heq
    rw [hk] at hk'
    exact Option.some.inj hk'
  · intro e l hl hone
    obtain ⟨k, hk, rfl⟩ := hlink e l hl
    obtain rfl : k = 0 := Nat.succ.inj hone
    exact headOf_take_succ hk
  · intro e l e' l' hl hl' heq
    obtain ⟨k, hk, rfl⟩ := hlink e l hl
    obtain ⟨k', hk', rfl⟩ := hlink e' l' hl'
    obtain rfl : k' = k + 1 := Nat.succ.inj heq
    exact headOf_take_succ hk'
  · intro hstored sealedHead hsealed
    rw [hinv.chainScan_eq fun e he => hstored e (hfrom e he), verify_valid_iff]
    refine ⟨chained_rowsFrom order _ _, fun hne => ?_⟩
    rw [map_item_rowsFrom]
    have hhead := hsealed.resolve_left hne
    rcases hinv.tip with ⟨-, hnone, -⟩ | ⟨-, hsome | ⟨hnone, -⟩⟩
    · exact absurd (hnone.symm.trans hhead) (by simp)
    · exact Option.some.inj (hsome.symm.trans hhead)
    · exact absurd (hnone.symm.trans hhead) (by simp)

/-- **Every clean run keeps the chain in order.** -/
theorem run_intact (m : Manager) (hne : ∀ b, m.sum256 b ≠ []) (env : Uuid → Envelope)
    (calls : List Call) (hclean : m.CleanRun env World.init calls)
    (hgiven : AllGiven (m.run env World.init calls) (calls.flatMap Call.events)) :
    Intact m env (m.run env World.init calls) (calls.flatMap Call.events) := by
  have hinit : WorldInv m env [] [] World.init :=
    ⟨inv_empty, nofun, fun e he => he⟩
  obtain ⟨order, h⟩ := run_inv hne calls hinit hclean
  exact WorldInv.intact h hgiven

/-- The sample content of every event. -/
def sampleEnv : Uuid → Envelope := fun _ => ⟨sampleItem.payloadDigest, sampleItem.occurredAt⟩

/-- The caller ends right after the given command. -/
def crashAt (c : Cmd) : Cmd → Fate := fun c' => if c' = c then .crash else .ok

/-- An append whose caller ends right after the SET of the head, and a batch
that retries the event together with another: the two events are numbers one
and two of a chain that replays as valid. -/
theorem run_intact_sample : (verify sampleSum256 (chainScan (sample.run sampleEnv World.init
      [.append (Uuid.ofByte 2) (crashAt .setHead) true,
       .appendBatch [Uuid.ofByte 2, Uuid.ofByte 3] Prog.noFault true]).store.rows)
      (Uuid.ofByte 1) (bytes "2026-07-08") []).valid = true := by
  have h := run_intact sample sampleSum256_ne_nil sampleEnv
    [.append (Uuid.ofByte 2) (crashAt .setHead) true,
     .appendBatch [Uuid.ofByte 2, Uuid.ofByte 3] Prog.noFault true]
    (by decide) (by decide)
  exact h.verified (by decide) [] (.inl rfl)

/-- The caller ends right after INCR and retries: the only event of the day is
number two. -/
theorem run_incr_crash : ¬ (AllGiven (sample.run sampleEnv World.init
          [.append (Uuid.ofByte 2) (crashAt .incr) true,
           .append (Uuid.ofByte 2) Prog.noFault true]) [Uuid.ofByte 2, Uuid.ofByte 2] →
        Intact sample sampleEnv (sample.run sampleEnv World.init
          [.append (Uuid.ofByte 2) (crashAt .incr) true,
           .append (Uuid.ofByte 2) Prog.noFault true]) [Uuid.ofByte 2, Uuid.ofByte 2]) := by
  intro h
  have hlink : ((sample.run sampleEnv World.init
      [.append (Uuid.ofByte 2) (crashAt .incr) true,
       .append (Uuid.ofByte 2) Prog.noFault true]).given.map fun p => (p.1, p.2.seq)) =
      [(Uuid.ofByte 2, 2)] := by decide
  obtain ⟨⟨e, l⟩, hgiven, hseq⟩ := List.mem_map.mp (hlink ▸ List.mem_singleton_self _)
  have hnumber := ((h (by decide)).numbers 2).mp ⟨e, l, hgiven, (Prod.mk.inj hseq).2⟩
  exact absurd hnumber.2 (by decide)

end Manager

end Windrose.Audit

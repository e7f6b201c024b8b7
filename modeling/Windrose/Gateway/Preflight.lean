/-
  Gateway/Preflight.lean --- the reservations of a preflight that fails.

  Source: services/ai-gateway/app/domain/budgets.py (BudgetEngine.preflight,
  _exhausted_error) and app/adapters/ledger.py (RedisLedger).

  A preflight runs alone over the Redis ledger.  Each of its calls completes, or raises
  `LedgerUnavailable` before or after it took effect.  The handler of a refused reservation
  releases the earlier ones, but `LedgerUnavailable` leaves them: `preflight_atomic_iff`
  says when nothing is left behind.

  The ids that a request draws are new to the ledger.
-/
import Windrose.Gateway.Budgets
import Windrose.Gateway.Ledger

set_option autoImplicit false

namespace Windrose.Gateway

open Windrose.Foundation

/-! ## The window that is named -/

/-- The scope in the details of `_exhausted_error`. -/
structure ExhaustedScope where
  scopeType : String
  scopeRef : String
  window : String
  deriving DecidableEq

/-- `_exhausted_error`. -/
def exhaustedError (gw : GoverningWindow) : ExhaustedScope :=
  ⟨gw.budget.scopeType, gw.budget.scopeRef, gw.budget.window⟩

namespace BudgetEngine

/-- The loop of the reservations, with the window that is refused. -/
def reserveNaming (estimateCents : Int) : List GoverningWindow → List Reservation →
    ChatProg (Except ExhaustedScope (List Reservation))
  | [], reservations => .done (.ok reservations)
  | gw :: windows, reservations => do
      let rid := reservations.length
      let ok ← askChat (.reserve gw.ledgerKey gw.budget.limitCents estimateCents rid)
      if ok then
        reserveNaming estimateCents windows (reservations ++ [⟨gw, rid, estimateCents⟩])
      else do
        releaseAll reservations
        pure (.error (exhaustedError gw))

/-- `preflight`, with the scope that `BudgetExhausted` names. -/
def preflightNaming (windows : List GoverningWindow) (estimateCents : Int) :
    ChatProg (Except ExhaustedScope Preflight) :=
  failClosed do
    let scanned ← scan windows none false
    match scanned.1 with
    | some gw => pure (.error (exhaustedError gw))
    | none => do
        let reserved ← reserveNaming estimateCents windows []
        pure (reserved.map fun reservations => ⟨reservations, scanned.2, estimateCents⟩)

end BudgetEngine

/-! ## The ledger -/

variable {ρ : Type} [DecidableEq ρ]

/-- A call of the Redis ledger, alone, nothing failing. -/
def Store.completed (ttl : Int) (c : Call Bytes ρ) (s : Store Bytes ρ) :
    Except Exn Reply × Store Bytes ρ :=
  let out := (RedisLedger.call ttl c).handle (fun _ => effect) 0 s
  (out.1, out.2.2)

/-- What comes of a call. -/
inductive Fate where
  | completes
  | raises
  /-- it takes effect, but the answer is lost -/
  | raisesAfter
  deriving DecidableEq

/-- What the operations of a preflight call; the ids it draws are numbered. -/
def ledgerCall (ids : Nat → ρ) : ChatCmd → Option (Call Bytes ρ)
  | .usage key => some (.usage key)
  | .reserve key limit amount n => some (.reserve key limit amount (ids n))
  | .release key n => some (.release key (ids n))
  | _ => none

def answer : (o : ChatCmd) → Reply → Except Exn o.Ans
  | .usage _, .usage spent reserved => .ok (spent, reserved)
  | .reserve _ _ _ _, .reserved ok => .ok ok
  | .release _ _, .released => .ok ()
  | _, _ => .error .exception

/-- The operations of a preflight, the `n`-th with the fate `fates n`. -/
def serve (ttl : Int) (ids : Nat → ρ) (fates : Nat → Fate) (n : Nat) (o : ChatCmd)
    (s : Store Bytes ρ) : Except Exn o.Ans × Store Bytes ρ :=
  match ledgerCall ids o with
  | none => (.error .exception, s)
  | some c =>
    match fates n with
    | .completes => ((s.completed ttl c).1.bind (answer o), (s.completed ttl c).2)
    | .raises => (.error .ledgerUnavailable, s)
    | .raisesAfter => (.error .ledgerUnavailable, (s.completed ttl c).2)

namespace Store

variable {ids : Nat → ρ} {s s' : Store Bytes ρ}

/-- The amounts of the request's reservations. -/
def mine (s : Store Bytes ρ) (ids : Nat → ρ) (key : Bytes) (n : Nat) : Option Int :=
  (s.redis.resv key).lookup (ids n)

/-- No deadline of the request's reservations has come. -/
def Current (s : Store Bytes ρ) (ids : Nat → ρ) : Prop :=
  ∀ key n d, (s.redis.resvz key).lookup (ids n) = some d → s.now < d

/-- Nothing but other reservations has changed. -/
structure Like (ids : Nat → ρ) (s s' : Store Bytes ρ) : Prop where
  mine : s'.mine ids = s.mine ids
  current : s'.Current ids
  spent : s'.redis.spent = s.redis.spent
  now : s'.now = s.now

theorem Like.refl (h : s.Current ids) : Like ids s s := ⟨rfl, h, rfl, rfl⟩

theorem Like.trans {t : Store Bytes ρ} (h : Like ids s s') (h' : Like ids s' t) : Like ids s t :=
  ⟨h'.mine.trans h.mine, h'.current, h'.spent.trans h.spent, h'.now.trans h.now⟩

end Store

namespace RedisLedger

variable {ids : Nat → ρ} {s : Store Bytes ρ}

theorem like_drop (h : s.Current ids) (key : Bytes) {rid : ρ} (hrid : ∀ n, rid ≠ ids n) :
    Store.Like ids s { s with redis := (s.redis.hdel key rid).zrem key rid } := by
  refine ⟨?_, ?_, rfl, rfl⟩
  · funext k n
    by_cases hk : k = key
    · subst hk
      simp [Store.mine, Redis.hdel, Redis.zrem, AList.lookup_erase_ne (hrid n).symm]
    · simp [Store.mine, Redis.hdel, Redis.zrem, hk]
  · intro k n d hd
    by_cases hk : k = key
    · subst hk
      simp only [Redis.hdel, Redis.zrem, Function.update_self,
        AList.lookup_erase_ne (hrid n).symm] at hd
      exact h k n d hd
    · simp only [Redis.hdel, Redis.zrem, Function.update_of_ne hk] at hd
      exact h k n d hd

theorem sweepKey_alone (h : s.Current ids) (key : Bytes) (n : Nat) :
    ∃ n' s', (sweepKey key : LedgerProg Bytes ρ Unit).handle (fun _ => effect) n s =
      (.ok (), n', s') ∧ Store.Like ids s s' := by
  have hloop : ∀ (expired : List ρ) (n : Nat) (s : Store Bytes ρ), s.Current ids →
      (∀ rid ∈ expired, ∀ i, rid ≠ ids i) →
      ∃ n' s', (expired.forM fun rid => do
          let _ : Unit ← exec (.hdel key rid)
          let _ : Unit ← exec (.zrem key rid)
          pure () : LedgerProg Bytes ρ Unit).handle (fun _ => effect) n s = (.ok (), n', s') ∧
        Store.Like ids s s' := by
    intro expired
    induction expired with
    | nil => exact fun n s h _ => ⟨n, s, rfl, .refl h⟩
    | cons rid expired ih =>
      intro n s h hother
      have hdrop := like_drop h key (hother rid List.mem_cons_self)
      obtain ⟨n', s', hrun, hlike⟩ := ih (n + 1 + 1) _ hdrop.current fun r hr =>
        hother r (List.mem_cons_of_mem rid hr)
      exact ⟨n', s', hrun, hdrop.trans hlike⟩
  refine hloop _ (n + 1 + 1) s h fun rid hrid i hi => ?_
  subst hi
  obtain ⟨e, he, hkey⟩ := List.mem_map.mp hrid
  obtain ⟨hmem, hdue⟩ := List.mem_filter.mp he
  have hlookup : (s.redis.resvz key).lookup (ids i) = some e.2 := by
    rw [← hkey]
    exact Dict.lookup_eq_some.mpr hmem
  exact absurd (of_decide_eq_true hdue) (Int.not_le.mpr (h key i e.2 hlookup))

theorem completed_of_handle {ttl : Int} {c : Call Bytes ρ} {body : LedgerProg Bytes ρ Reply}
    {reply : Reply} {s' : Store Bytes ρ} (hcall : call ttl c = orUnavailable body)
    (hbody : ∃ n, body.handle (fun _ => effect) 0 s = (.ok reply, n, s')) :
    s.completed ttl c = (.ok reply, s') := by
  obtain ⟨n, hbody⟩ := hbody
  rw [Store.completed, hcall, orUnavailable, Await.handle_tryCatch_ok _ hbody]

theorem usage_completed (h : s.Current ids) (ttl : Int) (key : Bytes) :
    ∃ s' reserved, s.completed ttl (.usage key) = (.ok (.usage (s.redis.spent key) reserved), s') ∧
      Store.Like ids s s' := by
  obtain ⟨n', s', hsweep, hlike⟩ := sweepKey_alone h key 0
  refine ⟨s', (s'.redis.resv key).values.sum, completed_of_handle rfl ⟨n' + 1 + 1, ?_⟩, hlike⟩
  rw [Await.handle_bind_ok _ hsweep, ← hlike.spent]
  rfl

theorem reserve_completed (hids : Function.Injective ids) (h : s.Current ids) {ttl : Int}
    (httl : 0 < ttl) (key : Bytes) (limit amount : Int) (n : Nat) :
    ∃ ok s', s.completed ttl (.reserve key limit amount (ids n)) = (.ok (.reserved ok), s') ∧
      s'.Current ids ∧ s'.redis.spent = s.redis.spent ∧
      ∀ k i, s'.mine ids k i =
        if ok = true ∧ k = key ∧ i = n then some amount else s.mine ids k i := by
  obtain ⟨n', t, hsweep, hlike⟩ := sweepKey_alone h key 0
  have hrun : s.completed ttl (.reserve key limit amount (ids n)) =
      (.ok (.reserved (t.redis.reserveLua key amount limit (ids n) (t.now + ttl)).1),
        { t with redis := (t.redis.reserveLua key amount limit (ids n) (t.now + ttl)).2 }) := by
    refine completed_of_handle rfl ⟨n' + 1 + 1, ?_⟩
    rw [Await.handle_bind_ok _ hsweep]
    rfl
  refine ⟨_, _, hrun, ?_⟩
  unfold Redis.reserveLua
  split
  · exact ⟨hlike.current, hlike.spent, fun k i => by
      rw [if_neg (fun hfalse => Bool.false_ne_true hfalse.1)]
      exact congrFun (congrFun hlike.mine k) i⟩
  · refine ⟨?_, hlike.spent, fun k i => ?_⟩
    · intro k i d hd
      dsimp only at hd
      by_cases hk : k = key
      · subst hk
        rw [Function.update_self] at hd
        by_cases hi : i = n
        · subst hi
          rw [AList.lookup_insert, Option.some.injEq] at hd
          exact hd ▸ Int.lt_add_of_pos_right t.now httl
        · rw [AList.lookup_insert_ne (hids.ne hi)] at hd
          exact hlike.current k i d hd
      · rw [Function.update_of_ne hk] at hd
        exact hlike.current k i d hd
    · rw [← hlike.mine]
      simp only [Store.mine, true_and]
      by_cases hk : k = key
      · subst hk
        rw [Function.update_self]
        by_cases hi : i = n
        · subst hi
          rw [AList.lookup_insert, if_pos ⟨rfl, rfl⟩]
        · rw [AList.lookup_insert_ne (hids.ne hi), if_neg fun hkey => hi hkey.2]
      · rw [Function.update_of_ne hk, if_neg fun hkey => hk hkey.1]

theorem release_completed (hids : Function.Injective ids) (h : s.Current ids) (ttl : Int)
    (key : Bytes) (n : Nat) :
    ∃ s', s.completed ttl (.release key (ids n)) = (.ok .released, s') ∧ s'.Current ids ∧
      ∀ k i, s'.mine ids k i = if k = key ∧ i = n then none else s.mine ids k i := by
  refine ⟨{ s with redis := (s.redis.hdel key (ids n)).zrem key (ids n) },
    completed_of_handle rfl ⟨2, rfl⟩, ?_, ?_⟩
  · intro k i d hd
    by_cases hk : k = key
    · subst hk
      simp only [Redis.zrem, Redis.hdel, Function.update_self] at hd
      exact h k i d (Dict.lookup_of_erase hd)
    · simp only [Redis.zrem, Redis.hdel, Function.update_of_ne hk] at hd
      exact h k i d hd
  · intro k i
    simp only [Store.mine, Redis.zrem, Redis.hdel]
    by_cases hk : k = key
    · subst hk
      rw [Function.update_self]
      by_cases hi : i = n
      · subst hi
        rw [AList.lookup_erase, if_pos ⟨rfl, rfl⟩]
      · rw [AList.lookup_erase_ne (hids.ne hi), if_neg fun hkey => hi hkey.2]
    · rw [Function.update_of_ne hk, if_neg fun hkey => hk hkey.1]

end RedisLedger

/-! ## The scan -/

namespace BudgetEngine

variable {ttl : Int} {ids : Nat → ρ} {fates : Nat → Fate} {s : Store Bytes ρ} {n : Nat}

/-- The window's spend has reached its limit. -/
def usedUp (s : Store Bytes ρ) (gw : GoverningWindow) : Bool :=
  gw.budget.limitCents ≤ s.redis.spent gw.ledgerKey

/-- The ledger behind the scan. -/
def scanned (ttl : Int) (s : Store Bytes ρ) (windows : List GoverningWindow) : Store Bytes ρ :=
  windows.foldl (fun s gw => (s.completed ttl (.usage gw.ledgerKey)).2) s

omit [DecidableEq ρ] in
theorem getLast_usedUp_cons (s : Store Bytes ρ) (gw : GoverningWindow)
    (windows : List GoverningWindow) (exhausted : Option GoverningWindow) :
    ((gw :: windows).filter (usedUp s)).getLast?.or exhausted =
      (windows.filter (usedUp s)).getLast?.or (if usedUp s gw then some gw else exhausted) := by
  rw [List.filter_cons]
  split
  · rw [List.getLast?_cons]
    cases (windows.filter (usedUp s)).getLast? with
    | none => rfl
    | some last => rfl
  · rfl

variable (ttl) in
theorem serve_usage (h : s.Current ids) (hfate : fates n = .completes) (key : Bytes) :
    ∃ reserved, serve ttl ids fates n (.usage key) s =
        (.ok (s.redis.spent key, reserved), (s.completed ttl (.usage key)).2) ∧
      Store.Like ids s (s.completed ttl (.usage key)).2 := by
  obtain ⟨s', reserved, hrun, hlike⟩ := RedisLedger.usage_completed h ttl key
  refine ⟨reserved, ?_, by rwa [hrun]⟩
  rw [serve]
  simp only [ledgerCall, hfate, hrun]
  rfl

variable (ttl) in
theorem scan_completes (windows : List GoverningWindow) (exhausted : Option GoverningWindow)
    (degrading : Bool) (h : s.Current ids)
    (hfates : ∀ i < windows.length, fates (n + i) = .completes) :
    ∃ degrading', (scan windows exhausted degrading).handle (serve ttl ids fates) n s =
        (.ok ((windows.filter (usedUp s)).getLast?.or exhausted, degrading'),
          n + windows.length, scanned ttl s windows) ∧
      Store.Like ids s (scanned ttl s windows) := by
  induction windows generalizing exhausted degrading n s with
  | nil => exact ⟨degrading, rfl, .refl h⟩
  | cons gw windows ih =>
    have hfirst : fates n = .completes := hfates 0 (Nat.succ_pos _)
    obtain ⟨reserved, hserve, hlike⟩ := serve_usage ttl h hfirst gw.ledgerKey
    have hrest : ∀ i < windows.length, fates (n + 1 + i) = .completes := fun i hi => by
      rw [Nat.add_assoc, Nat.add_comm 1 i]
      exact hfates (i + 1) (Nat.succ_lt_succ hi)
    have hused : usedUp (s.completed ttl (.usage gw.ledgerKey)).2 = usedUp s := by
      funext w
      rw [usedUp, usedUp, hlike.spent]
    rw [getLast_usedUp_cons, List.length_cons, Nat.add_comm windows.length 1, ← Nat.add_assoc,
      ← hused]
    rw [scan, askChat, Await.handle_ask_bind_ok _ hserve]
    by_cases hlimit : gw.budget.limitCents ≤ s.redis.spent gw.ledgerKey
    · obtain ⟨degrading', hrun, hlike'⟩ := ih (some gw) degrading hlike.current hrest
      refine ⟨degrading', ?_, hlike.trans hlike'⟩
      have hgw : usedUp (s.completed ttl (.usage gw.ledgerKey)).2 gw = true := by
        rw [hused]
        exact decide_eq_true hlimit
      rw [if_pos hlimit, if_pos hgw]
      exact hrun
    · have hgw : ¬usedUp (s.completed ttl (.usage gw.ledgerKey)).2 gw = true := by
        rw [hused]
        exact fun htrue => hlimit (of_decide_eq_true htrue)
      rw [if_neg hlimit, if_neg hgw]
      split
      · obtain ⟨degrading', hrun, hlike'⟩ := ih exhausted true hlike.current hrest
        exact ⟨degrading', hrun, hlike.trans hlike'⟩
      · obtain ⟨degrading', hrun, hlike'⟩ := ih exhausted degrading hlike.current hrest
        exact ⟨degrading', hrun, hlike.trans hlike'⟩

theorem serve_raises {o : ChatCmd} {c : Call Bytes ρ} (hcall : ledgerCall ids o = some c)
    (hfate : fates n = .raises) : serve ttl ids fates n o s = (.error .ledgerUnavailable, s) := by
  simp only [serve, hcall, hfate]

theorem serve_raisesAfter {o : ChatCmd} {c : Call Bytes ρ} (hcall : ledgerCall ids o = some c)
    (hfate : fates n = .raisesAfter) :
    serve ttl ids fates n o s = (.error .ledgerUnavailable, (s.completed ttl c).2) := by
  simp only [serve, hcall, hfate]

variable (ttl n) in
theorem scan_raises (windows : List GoverningWindow) (exhausted : Option GoverningWindow)
    (degrading : Bool) (h : s.Current ids)
    (hfates : ∃ i < windows.length, fates (n + i) ≠ .completes) :
    ∃ n' s', (scan windows exhausted degrading).handle (serve ttl ids fates) n s =
      (.error .ledgerUnavailable, n', s') ∧ Store.Like ids s s' := by
  induction windows generalizing exhausted degrading n s with
  | nil =>
    obtain ⟨i, hi, -⟩ := hfates
    exact absurd hi (Nat.not_lt_zero i)
  | cons gw windows ih =>
    rw [scan, askChat]
    cases hfate : fates n with
    | raises =>
      rw [Await.handle_ask_bind_error _ (serve_raises rfl hfate)]
      exact ⟨_, _, rfl, .refl h⟩
    | raisesAfter =>
      obtain ⟨s', reserved, hrun, hlike⟩ := RedisLedger.usage_completed h ttl gw.ledgerKey
      rw [Await.handle_ask_bind_error _ (serve_raisesAfter rfl hfate)]
      exact ⟨_, _, rfl, by rwa [hrun]⟩
    | completes =>
      obtain ⟨reserved, hserve, hlike⟩ := serve_usage ttl h hfate gw.ledgerKey
      have hrest : ∃ i < windows.length, fates (n + 1 + i) ≠ .completes := by
        obtain ⟨i, hi, hbad⟩ := hfates
        cases i with
        | zero => exact absurd hfate hbad
        | succ i =>
          refine ⟨i, Nat.lt_of_succ_lt_succ hi, ?_⟩
          rw [Nat.add_assoc, Nat.add_comm 1 i]
          exact hbad
      have hnext : ∀ exhausted degrading, ∃ n' s',
          (scan windows exhausted degrading).handle (serve ttl ids fates) (n + 1)
              (s.completed ttl (.usage gw.ledgerKey)).2 =
            (.error .ledgerUnavailable, n', s') ∧ Store.Like ids s s' := by
        intro exhausted degrading
        obtain ⟨n', s', hrun, hlike'⟩ := ih (n + 1) exhausted degrading hlike.current hrest
        exact ⟨n', s', hrun, hlike.trans hlike'⟩
      rw [Await.handle_ask_bind_ok _ hserve]
      split
      · exact hnext _ _
      · split
        · exact hnext _ _
        · exact hnext _ _

/-! ## Reservations and releases -/

/-- The reservations of the windows from position `j` on. -/
def heldFrom (estimateCents : Int) (j : Nat) (windows : List GoverningWindow) (key : Bytes)
    (n : Nat) : Option Int :=
  if j ≤ n ∧ (windows[n]?).map GoverningWindow.ledgerKey = some key then some estimateCents
  else none

/-- What `preflight` has appended behind the windows. -/
def reservationsOf (estimateCents : Int) (windows : List GoverningWindow) : List Reservation :=
  windows.mapIdx fun n gw => ⟨gw, n, estimateCents⟩

section Held

variable {est : Int} {windows : List GoverningWindow} {gw : GoverningWindow} {j : Nat}

theorem heldFrom_eq_none_iff : heldFrom est j windows = (fun _ _ => none) ↔ windows.length ≤ j := by
  constructor
  · intro h
    by_contra hlt
    have hgw : windows[j]? = some windows[j] := List.getElem?_eq_getElem (Nat.not_le.mp hlt)
    have hj := congrFun (congrFun h windows[j].ledgerKey) j
    rw [heldFrom, if_pos ⟨le_rfl, by rw [hgw]; rfl⟩] at hj
    cases hj
  · intro h
    funext key n
    refine if_neg fun hheld => ?_
    rw [List.getElem?_eq_none (h.trans hheld.1)] at hheld
    cases hheld.2

theorem heldFrom_release (hgw : windows[j]? = some gw) (key : Bytes) (n : Nat) :
    (if key = gw.ledgerKey ∧ n = j then none else heldFrom est j windows key n) =
      heldFrom est (j + 1) windows key n := by
  unfold heldFrom
  by_cases hn : n = j
  · subst hn
    rw [hgw, if_neg (c := n + 1 ≤ n ∧ _) fun h => absurd h.1 (Nat.not_succ_le_self n)]
    by_cases hkey : key = gw.ledgerKey
    · rw [if_pos ⟨hkey, rfl⟩]
    · rw [if_neg fun h => hkey h.1, if_neg fun h => hkey (Option.some.inj h.2).symm]
  · rw [if_neg fun h => hn h.2]
    have hle : j ≤ n ↔ j + 1 ≤ n := by omega
    simp only [hle]

theorem heldFrom_reserve (key : Bytes) (n : Nat) :
    (if key = gw.ledgerKey ∧ n = windows.length then some est else heldFrom est 0 windows key n) =
      heldFrom est 0 (windows ++ [gw]) key n := by
  unfold heldFrom
  by_cases hn : n = windows.length
  · subst hn
    rw [List.getElem?_concat_length, List.getElem?_eq_none le_rfl]
    by_cases hkey : key = gw.ledgerKey
    · rw [if_pos ⟨hkey, rfl⟩, if_pos ⟨Nat.zero_le _, congrArg some hkey.symm⟩]
    · rw [if_neg fun h => hkey h.1, if_neg fun h => (nomatch h.2),
        if_neg fun h => hkey (Option.some.inj h.2).symm]
  · rw [if_neg fun h => hn h.2]
    have hget : (windows ++ [gw])[n]? = windows[n]? := by
      rcases Nat.lt_or_gt_of_ne hn with hlt | hgt
      · exact List.getElem?_append_left hlt
      · rw [List.getElem?_eq_none (by rw [List.length_append]; exact hgt),
          List.getElem?_eq_none (Nat.le_of_lt hgt)]
    rw [hget]

end Held

/-- The releases of `held` reservations from call `n` on: none raises, unless it is the last
one and took effect. -/
def QuietReleases (fates : Nat → Fate) (held n : Nat) : Prop :=
  ∀ i < held, fates (n + i) = .completes ∨ i + 1 = held ∧ fates (n + i) = .raisesAfter

/-- The reservations from call `n` on, with `held` of them made: none raises while one is
made, or makes one, and the releases of a refusal are quiet. -/
def QuietReserves (ttl : Int) (ids : Nat → ρ) (fates : Nat → Fate) (estimateCents : Int) :
    Nat → Nat → Store Bytes ρ → List GoverningWindow → Prop
  | _, _, _, [] => True
  | held, n, s, gw :: windows =>
    let out := s.completed ttl
      (.reserve gw.ledgerKey gw.budget.limitCents estimateCents (ids held))
    match fates n with
    | .raises => held = 0
    | .raisesAfter => held = 0 ∧ out.1 ≠ .ok (.reserved true)
    | .completes =>
      match out.1 with
      | .ok (.reserved true) =>
        QuietReserves ttl ids fates estimateCents (held + 1) (n + 1) out.2 windows
      | _ => QuietReleases fates held (n + 1)

instance (fates : Nat → Fate) (held n : Nat) : Decidable (QuietReleases fates held n) :=
  inferInstanceAs (Decidable (∀ i < held, _))

instance QuietReserves.decidable (estimateCents : Int) : ∀ held n (s : Store Bytes ρ) windows,
    Decidable (QuietReserves ttl ids fates estimateCents held n s windows)
  | _, _, _, [] => .isTrue trivial
  | held, n, s, gw :: windows =>
    have : ∀ s', Decidable
        (QuietReserves ttl ids fates estimateCents (held + 1) (n + 1) s' windows) :=
      fun s' => QuietReserves.decidable estimateCents (held + 1) (n + 1) s' windows
    by
      unfold QuietReserves
      dsimp only
      split
      · infer_instance
      · infer_instance
      · split <;> infer_instance

/-- No reservation of the request is left. -/
def NothingHeld (ids : Nat → ρ) (s : Store Bytes ρ) : Prop := s.mine ids = fun _ _ => none

variable (ttl fates) in
theorem release_run {est : Int} (hids : Function.Injective ids) (rest : List GoverningWindow) :
    ∀ (done : List GoverningWindow) (n : Nat) (s : Store Bytes ρ), s.Current ids →
      s.mine ids = heldFrom est done.length (done ++ rest) →
      ∃ out n' s', (releaseAll (rest.mapIdx fun i gw => ⟨gw, done.length + i, est⟩)).handle
          (serve ttl ids fates) n s = (out, n', s') ∧
        (out = .ok () ∨ out = .error .ledgerUnavailable) ∧
        (NothingHeld ids s' ↔ QuietReleases fates rest.length n) := by
  induction rest with
  | nil =>
    intro done n s h hmine
    refine ⟨_, _, _, rfl, .inl rfl, ?_⟩
    rw [NothingHeld, hmine, heldFrom_eq_none_iff, List.append_nil]
    exact ⟨fun _ i hi => absurd hi (Nat.not_lt_zero i), fun _ => le_rfl⟩
  | cons gw rest ih =>
    intro done n s h hmine
    obtain ⟨t, hrun, hcurrent, hnext⟩ :=
      RedisLedger.release_completed hids h ttl gw.ledgerKey done.length
    have hgw : (done ++ gw :: rest)[done.length]? = some gw := by simp
    have hmine' : t.mine ids = heldFrom est (done.length + 1) (done ++ gw :: rest) := by
      funext key i
      rw [hnext, hmine]
      exact heldFrom_release hgw key i
    have hlast : NothingHeld ids t ↔ rest = [] := by
      rw [NothingHeld, hmine', heldFrom_eq_none_iff, List.length_append, List.length_cons]
      rw [← List.length_eq_zero_iff]
      omega
    rw [List.mapIdx_cons, releaseAll, askChat]
    dsimp only [Nat.add_zero]
    cases hfate : fates n with
    | raises =>
      rw [Await.handle_ask_bind_error _ (serve_raises rfl hfate)]
      refine ⟨_, _, _, rfl, .inr rfl, ?_⟩
      rw [NothingHeld, hmine, heldFrom_eq_none_iff, List.length_append, List.length_cons]
      constructor
      · intro hle
        omega
      · intro hquiet
        have hfirst := hquiet 0 (Nat.succ_pos _)
        rw [Nat.add_zero, hfate] at hfirst
        rcases hfirst with hfirst | ⟨-, hfirst⟩
        · cases hfirst
        · cases hfirst
    | raisesAfter =>
      rw [Await.handle_ask_bind_error _ (serve_raisesAfter rfl hfate)]
      refine ⟨_, _, _, rfl, .inr rfl, ?_⟩
      rw [hrun, hlast]
      constructor
      · rintro rfl i hi
        obtain rfl : i = 0 := Nat.lt_one_iff.mp hi
        exact .inr ⟨rfl, hfate⟩
      · intro hquiet
        have hfirst := hquiet 0 (Nat.succ_pos _)
        rw [Nat.add_zero, hfate] at hfirst
        rcases hfirst with hfirst | ⟨hone, -⟩
        · cases hfirst
        · exact List.length_eq_zero_iff.mp (Nat.succ.inj hone).symm
    | completes =>
      have hserve : serve ttl ids fates n (.release gw.ledgerKey done.length) s = (.ok (), t) := by
        simp only [serve, ledgerCall, hfate, hrun]
        rfl
      rw [Await.handle_ask_bind_ok _ hserve]
      obtain ⟨out, n', s', hrest, hout, hiff⟩ := ih (done ++ [gw]) (n + 1) t hcurrent
        (by rw [hmine', List.length_append, List.append_assoc]; rfl)
      refine ⟨out, n', s', ?_, hout, hiff.trans ?_⟩
      · rw [← hrest]
        congr 3
        funext i w
        rw [List.length_append, List.length_singleton, Nat.add_assoc, Nat.add_comm 1 i]
      · constructor
        · intro hquiet i hi
          cases i with
          | zero => exact .inl hfate
          | succ i =>
            have hnth := hquiet i (Nat.lt_of_succ_lt_succ hi)
            rw [Nat.add_assoc, Nat.add_comm 1 i] at hnth
            exact hnth.imp_right fun hlost => ⟨congrArg (· + 1) hlost.1, hlost.2⟩
        · intro hquiet i hi
          have hnth := hquiet (i + 1) (Nat.succ_lt_succ hi)
          rw [Nat.add_assoc, Nat.add_comm 1 i]
          exact hnth.imp_right fun hlost => ⟨Nat.succ.inj hlost.1, hlost.2⟩

/-- Reservations that are returned are the ones in the ledger, one for each window, and
otherwise none is left. -/
def AllReserved (ids : Nat → ρ) (estimateCents : Int) (windows : List GoverningWindow)
    (s : Store Bytes ρ) : Except Exn (Except ExhaustedScope (List Reservation)) → Prop
  | .ok (.ok reservations) =>
    reservations = reservationsOf estimateCents windows ∧
      s.mine ids = heldFrom estimateCents 0 windows
  | _ => NothingHeld ids s

variable (fates) in
theorem reserve_run {est : Int} (hids : Function.Injective ids) (httl : 0 < ttl)
    (rest : List GoverningWindow) :
    ∀ (done : List GoverningWindow) (n : Nat) (s : Store Bytes ρ), s.Current ids →
      s.mine ids = heldFrom est 0 done →
      ∃ out n' s', (reserveNaming est rest (reservationsOf est done)).handle
          (serve ttl ids fates) n s = (out, n', s') ∧
        (AllReserved ids est (done ++ rest) s' out ↔
          QuietReserves ttl ids fates est done.length n s rest) := by
  induction rest with
  | nil =>
    intro done n s h hmine
    refine ⟨_, _, _, rfl, ?_⟩
    rw [List.append_nil]
    exact ⟨fun _ => trivial, fun _ => ⟨rfl, hmine⟩⟩
  | cons gw rest ih =>
    intro done n s h hmine
    obtain ⟨ok, t, hrun, hcurrent, -, hnext⟩ := RedisLedger.reserve_completed hids h httl
      gw.ledgerKey gw.budget.limitCents est done.length
    have hnone : NothingHeld ids s ↔ done.length = 0 := by
      rw [NothingHeld, hmine, heldFrom_eq_none_iff, Nat.le_zero]
    have hconcat : reservationsOf est (done ++ [gw]) =
        reservationsOf est done ++ [⟨gw, done.length, est⟩] := by
      rw [reservationsOf, List.mapIdx_concat]
      rfl
    have hgranted : ok = true → t.mine ids = heldFrom est 0 (done ++ [gw]) := by
      intro hok
      funext key i
      rw [hnext, hmine, ← heldFrom_reserve]
      simp [hok]
    have hrefused : ok = false → t.mine ids = heldFrom est 0 done := by
      rintro rfl
      funext key i
      rw [hnext, if_neg fun hok => Bool.false_ne_true hok.1, hmine]
    rw [reserveNaming, askChat, QuietReserves]
    generalize hm : (reservationsOf est done).length = m
    obtain rfl : done.length = m := by rw [← hm, reservationsOf, List.length_mapIdx]
    simp only [hrun]
    cases hfate : fates n with
    | raises =>
      rw [Await.handle_ask_bind_error _ (serve_raises rfl hfate)]
      exact ⟨_, _, _, rfl, hnone⟩
    | raisesAfter =>
      rw [Await.handle_ask_bind_error _ (serve_raisesAfter rfl hfate)]
      refine ⟨_, _, _, rfl, ?_⟩
      rw [hrun]
      cases ok with
      | true =>
        have hsome : ¬NothingHeld ids t := by
          rw [NothingHeld, hgranted rfl, heldFrom_eq_none_iff, List.length_append]
          exact Nat.not_succ_le_zero _
        exact ⟨fun hnothing => absurd hnothing hsome, fun hquiet => absurd rfl hquiet.2⟩
      | false =>
        show NothingHeld ids t ↔ _
        rw [NothingHeld, hrefused rfl, ← hmine]
        exact ⟨fun hnothing => ⟨hnone.mp hnothing, by simp⟩, fun hquiet => hnone.mpr hquiet.1⟩
    | completes =>
      have hserve : serve ttl ids fates n
          (.reserve gw.ledgerKey gw.budget.limitCents est done.length) s = (.ok ok, t) := by
        simp only [serve, ledgerCall, hfate, hrun]
        rfl
      rw [Await.handle_ask_bind_ok _ hserve]
      cases ok with
      | true =>
        obtain ⟨out, n', s', hrest, hiff⟩ := ih (done ++ [gw]) (n + 1) t hcurrent (hgranted rfl)
        rw [hconcat] at hrest
        rw [List.length_append, List.append_assoc] at hiff
        exact ⟨out, n', s', hrest, hiff⟩
      | false =>
        obtain ⟨out, n', s', hrelease, hout, hiff⟩ := release_run ttl fates hids
          done [] (n + 1) t hcurrent (hrefused rfl)
        have hshift : (done.mapIdx fun i gw =>
            (⟨gw, ([] : List GoverningWindow).length + i, est⟩ : Reservation)) =
              reservationsOf est done := by
          simp [reservationsOf]
        rw [hshift] at hrelease
        rw [if_neg Bool.false_ne_true]
        rcases hout with rfl | rfl
        · rw [Await.handle_bind_ok _ hrelease]
          exact ⟨_, _, _, rfl, hiff⟩
        · rw [Await.handle_bind_error _ hrelease]
          exact ⟨_, _, _, rfl, hiff⟩

/-! ## The preflight -/

/-- What is promised of a preflight: it returns with one reservation of the estimate for each
window, or raises and leaves none; and when a window is used up, the scope it names is the
last such window's. -/
structure AllOrNothing (ids : Nat → ρ) (windows : List GoverningWindow) (estimateCents : Int)
    (s s' : Store Bytes ρ) (out : Except Exn (Except ExhaustedScope Preflight)) : Prop where
  returned : ∀ p, out = .ok (.ok p) →
    p.reservations = reservationsOf estimateCents windows ∧
      s'.mine ids = heldFrom estimateCents 0 windows
  raised : (∀ p, out ≠ .ok (.ok p)) → NothingHeld ids s'
  named : ∀ scope, out = .ok (.error scope) →
    ∀ gw ∈ (windows.filter (usedUp s)).getLast?, scope = exhaustedError gw

/-- A preflight over the ledger, its calls with the given fates. -/
def preflightOver (ttl : Int) (ids : Nat → ρ) (fates : Nat → Fate)
    (windows : List GoverningWindow) (estimateCents : Int) (s : Store Bytes ρ) :
    Except Exn (Except ExhaustedScope Preflight) × Store Bytes ρ :=
  let out := (preflightNaming windows estimateCents).handle (serve ttl ids fates) 0 s
  (out.1, out.2.2)

/-- A call of the scan raises, or a window is used up, or the reservations are quiet. -/
def Quiet (ttl : Int) (ids : Nat → ρ) (fates : Nat → Fate) (windows : List GoverningWindow)
    (estimateCents : Int) (s : Store Bytes ρ) : Prop :=
  (∃ i < windows.length, fates i ≠ .completes) ∨ (∃ gw ∈ windows, usedUp s gw = true) ∨
    QuietReserves ttl ids fates estimateCents 0 windows.length (scanned ttl s windows) windows

/-- The ids of a request are new to the ledger. -/
def NewIds (ids : Nat → ρ) (s : Store Bytes ρ) : Prop :=
  ∀ key n, (s.redis.resv key).lookup (ids n) = none ∧ (s.redis.resvz key).lookup (ids n) = none

section Outcome

variable {windows : List GoverningWindow} {est : Int} {s s' : Store Bytes ρ}

theorem allOrNothing_error (e : Exn) :
    AllOrNothing ids windows est s s' (.error e) ↔ NothingHeld ids s' :=
  ⟨fun h => h.raised nofun, fun h => ⟨nofun, fun _ => h, nofun⟩⟩

end Outcome

theorem failClosed_error {α : Type} {p : ChatProg α} {n' : Nat} {s' : Store Bytes ρ} {e : Exn}
    (hp : p.handle (serve ttl ids fates) n s = (.error e, n', s')) :
    ∃ e', (failClosed p).handle (serve ttl ids fates) n s = (.error e', n', s') :=
  ⟨_, Await.handle_tryCatch_error _ hp _⟩

/-- **A preflight is all or nothing** exactly when no call raises while it holds a
reservation. -/
theorem preflight_atomic_iff (hids : Function.Injective ids) (httl : 0 < ttl)
    (windows : List GoverningWindow) (estimateCents : Int) (s : Store Bytes ρ)
    (hnew : NewIds ids s) (fates : Nat → Fate) : AllOrNothing ids windows estimateCents s
        (preflightOver ttl ids fates windows estimateCents s).2
        (preflightOver ttl ids fates windows estimateCents s).1 ↔
      Quiet ttl ids fates windows estimateCents s := by
  have hcurrent : s.Current ids := fun key n d hd => by
    rw [(hnew key n).2] at hd
    cases hd
  have hnothing : NothingHeld ids s := funext fun key => funext fun n => (hnew key n).1
  by_cases hfates : ∃ i < windows.length, fates i ≠ .completes
  · obtain ⟨n', s', hscan, hlike⟩ := scan_raises ttl 0 windows none false hcurrent
      (by simpa using hfates)
    obtain ⟨e, hrun⟩ := failClosed_error (Await.handle_bind_error _ hscan _)
    rw [preflightOver, preflightNaming, hrun, allOrNothing_error, NothingHeld, hlike.mine]
    exact ⟨fun _ => .inl hfates, fun _ => hnothing⟩
  · have hcompletes : ∀ i < windows.length, fates (0 + i) = .completes := by
      intro i hi
      rw [Nat.zero_add]
      exact not_not.mp fun hbad => hfates ⟨i, hi, hbad⟩
    obtain ⟨degrading, hscan, hlike⟩ := scan_completes ttl windows none false hcurrent hcompletes
    have hbind := Await.handle_bind_ok _ hscan fun scanned =>
      match scanned.1 with
      | some gw => (pure (.error (exhaustedError gw)) : ChatProg (Except ExhaustedScope Preflight))
      | none => do
          let reserved ← reserveNaming estimateCents windows []
          pure (reserved.map fun reservations => ⟨reservations, scanned.2, estimateCents⟩)
    rw [Option.or_none] at hbind
    cases hlast : (windows.filter (usedUp s)).getLast? with
    | some gw =>
        rw [hlast] at hbind
        have hrun := Await.handle_tryCatch_ok _ (hbind.trans rfl) fun e =>
          .raise (if e = .ledgerUnavailable then .app .dependencyUnavailable else e)
        obtain ⟨hmem, hused⟩ := List.mem_filter.mp (List.mem_of_getLast? hlast)
        rw [preflightOver, preflightNaming, failClosed, hrun]
        refine ⟨fun _ => .inr (.inl ⟨gw, hmem, hused⟩), fun _ => ⟨?_, ?_, ?_⟩⟩
        · intro p hp
          cases hp
        · intro _
          rw [NothingHeld, hlike.mine]
          exact hnothing
        · intro scope hscope gw' hgw'
          rw [hlast] at hgw'
          cases hscope
          cases hgw'
          rfl
    | none =>
        rw [hlast] at hbind
        obtain ⟨out, n', s', hreserve, hiff⟩ := reserve_run fates hids httl
          windows [] (0 + windows.length) (scanned ttl s windows) hlike.current
          (hlike.mine.trans hnothing)
        rw [List.nil_append, Nat.zero_add] at hiff
        have hquiet : Quiet ttl ids fates windows estimateCents s ↔
            QuietReserves ttl ids fates estimateCents 0 windows.length (scanned ttl s windows)
              windows := by
          have hused : ¬∃ gw ∈ windows, usedUp s gw = true := by
            rintro ⟨gw, hgw, hused⟩
            rw [List.getLast?_eq_none_iff] at hlast
            exact List.not_mem_nil (hlast ▸ List.mem_filter.mpr ⟨hgw, hused⟩)
          simp only [Quiet, hfates, hused, false_or]
        rw [hquiet]
        refine Iff.trans ?_ hiff
        rw [preflightOver, preflightNaming]
        cases out with
        | error e =>
            obtain ⟨e', hrun⟩ := failClosed_error
              (hbind.trans (Await.handle_bind_error _ hreserve _))
            rw [hrun, allOrNothing_error]
            rfl
        | ok reserved =>
            have hrun := Await.handle_tryCatch_ok _
              (hbind.trans (Await.handle_bind_ok _ hreserve _)) fun e =>
                .raise (if e = .ledgerUnavailable then .app .dependencyUnavailable else e)
            rw [failClosed, hrun]
            cases reserved with
            | ok reservations =>
                constructor
                · intro h
                  exact h.returned _ rfl
                · intro h
                  refine ⟨?_, fun hraised => absurd rfl (hraised _), nofun⟩
                  rintro p ⟨⟩
                  exact h
            | error scope =>
                constructor
                · intro h
                  exact h.raised nofun
                · intro h
                  refine ⟨nofun, fun _ => h, fun _ _ gw hgw => ?_⟩
                  rw [hlast] at hgw
                  cases hgw

/-! ## Samples -/

/-- A daily budget of ten cents for a tenant, and one of five for a workspace. -/
def sampleWindows : List GoverningWindow :=
  [⟨⟨bytes "b-1", bytes "t-1", "tenant", "t-1", "daily", 10, 80⟩, bytes "2026-07-08",
      bytes "bud:b-1:2026-07-08"⟩,
    ⟨⟨bytes "b-2", bytes "t-1", "workspace", "w-1", "daily", 5, 80⟩, bytes "2026-07-08",
      bytes "bud:b-2:2026-07-08"⟩]

/-- An empty Redis ledger. -/
def emptyLedger : Store Bytes Nat := ⟨0, Redis.init, Pg.init⟩

/-- The first release after a refusal loses its answer. -/
theorem preflight_atomic_sample : AllOrNothing id sampleWindows 7 emptyLedger
      (preflightOver reservationTTLDefault id (fun n => if n = 4 then .raisesAfter else .completes)
        sampleWindows 7 emptyLedger).2
      (preflightOver reservationTTLDefault id (fun n => if n = 4 then .raisesAfter else .completes)
        sampleWindows 7 emptyLedger).1 :=
  (preflight_atomic_iff Function.injective_id (by decide) sampleWindows 7 emptyLedger
    (fun _ _ => ⟨rfl, rfl⟩) fun n => if n = 4 then .raisesAfter else .completes).mpr (by
      refine .inr (.inr ?_)
      decide)

/-- The ledger is unavailable for the second reservation: the first one stays. -/
theorem preflight_leaves_reservation : ¬ AllOrNothing id sampleWindows 3 emptyLedger
      (preflightOver reservationTTLDefault id (fun n => if n = 3 then .raises else .completes)
        sampleWindows 3 emptyLedger).2
      (preflightOver reservationTTLDefault id (fun n => if n = 3 then .raises else .completes)
        sampleWindows 3 emptyLedger).1 := by
  intro h
  have hout : (preflightOver reservationTTLDefault id (fun n => if n = 3 then .raises
      else .completes)
      sampleWindows 3 emptyLedger).1 = .error (.app .dependencyUnavailable) := by decide
  have hheld : (preflightOver reservationTTLDefault id
      (fun n => if n = 3 then .raises else .completes) sampleWindows 3 emptyLedger).2.mine id
        (bytes "bud:b-1:2026-07-08") 0 = some 3 := by decide
  have hnothing := h.raised fun p hp => by
    rw [hout] at hp
    cases hp
  rw [hnothing] at hheld
  cases hheld

end BudgetEngine

end Windrose.Gateway

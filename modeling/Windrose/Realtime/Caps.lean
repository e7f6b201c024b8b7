/-
  Realtime/Caps.lean --- the connection caps of a tenant.

  Source: services/realtime-hub/internal/fanout/caps.go (Reserve, Release),
  internal/fanout/hub.go (AddConn, remove, EvictOldestUser), internal/api/subscribe.go
  (reserveConn), internal/api/ws.go and sse.go.

  A call is what one goroutine has still to do; each Redis command and each section under
  a lock of the hub is one step of it, and time passes between the steps.  The pods share
  the counters of Redis.  A pod that is full refuses before it reserves, and no command
  fails.
-/
import Mathlib.Algebra.Order.BigOperators.Group.List
import Mathlib.Algebra.Order.Ring.Int
import Windrose.Foundation.Runs

set_option autoImplicit false

namespace Windrose.Realtime.Caps

open Windrose.Foundation

/-! ## Counters -/

variable {U : Type} [DecidableEq U]

/-- `tenantKey` and `userKey` of one tenant. -/
inductive Key (U : Type) where
  | tenant
  | user (u : U)
  deriving DecidableEq

/-- A counter with its expiry. -/
structure Counter where
  value : Int
  expireAt : Option Nat
  deriving DecidableEq

/-- The counters. -/
abbrev Redis (U : Type) : Type := Key U → Option Counter

namespace Redis

/-- A missing key counts 0. -/
def value (r : Redis U) (k : Key U) : Int := (r k).elim 0 (·.value)

/-- `INCR` and `DECR`; neither changes the expiry. -/
def add (r : Redis U) (k : Key U) (delta : Int) : Redis U :=
  Function.update r k (some ⟨r.value k + delta, (r k).bind (·.expireAt)⟩)

def expire (r : Redis U) (k : Key U) (time : Nat) : Redis U :=
  Function.update r k ((r k).map ({ · with expireAt := some time }))

/-- A key whose time has come. -/
def Due (r : Redis U) (k : Key U) (now : Nat) : Prop := ∃ c ∈ r k, ∃ t ∈ c.expireAt, t ≤ now

instance (r : Redis U) (k : Key U) (now : Nat) : Decidable (r.Due k now) :=
  inferInstanceAs (Decidable (∃ c ∈ r k, ∃ t ∈ c.expireAt, t ≤ now))

/-- The keys that are left at an instant. -/
def elapse (r : Redis U) (now : Nat) : Redis U := fun k => if r.Due k now then none else r k

end Redis

/-- The expiry of a counter, in seconds. -/
def ttl : Nat := 24 * 3600

/-! ## Calls -/

/-- What follows on a removed connection: the end, or the second `Reserve`. -/
inductive Next where
  | stop
  | retry
  deriving DecidableEq

/-- What a call does next. -/
inductive Pc (U : Type) where
  | incrTenant
  | expireTenant (tn : Int)
  | decrTenant
  | incrUser
  | expireUser (un : Int)
  | decrUser
  | decrUserTenant
  | findVictim
  | remove (conn : Nat) (next : Next)
  | unindex (conn : Nat) (u : U) (next : Next)
  | releaseUser (u : U) (next : Next)
  | releaseTenant (next : Next)
  | admitted
  | done
  deriving DecidableEq

/-- A request for a connection, or the teardown of one. -/
structure Call (U : Type) where
  user : U
  pod : Nat
  /-- `X-Replace-Oldest`, until it is used -/
  replace : Bool
  pc : Pc U
  deriving DecidableEq

/-- A connection that a hub was given, in the order they were. -/
structure Conn (U : Type) where
  user : U
  pod : Nat
  removed : Bool := false
  /-- in `userIdx` of its hub -/
  indexed : Bool := true
  deriving DecidableEq

/-- The hubs over one Redis. -/
structure World (U : Type) where
  now : Nat
  redis : Redis U
  calls : List (Call U)
  conns : List (Conn U)

/-- A step. -/
inductive Act (U : Type) where
  | tick (elapsed : Nat)
  | connect (user : U) (pod : Nat) (replace : Bool)
  | teardown (conn : Nat)
  | advance (call : Nat) (upgraded : Bool)
  deriving DecidableEq

/-- The caps of a cell. -/
structure Limits where
  perUser : Int
  perTenant : Int

def Limits.of (limits : Limits) : Key U → Int
  | .tenant => limits.perTenant
  | .user _ => limits.perUser

def Next.pc : Next → Pc U
  | .stop => .done
  | .retry => .incrTenant

namespace World

/-- A call goes on at another place. -/
def goto (w : World U) (i : Nat) (c : Call U) (pc : Pc U) : World U :=
  { w with calls := w.calls.set i { c with pc } }

def add (w : World U) (k : Key U) (delta : Int) : World U := { w with redis := w.redis.add k delta }

def expire (w : World U) (k : Key U) : World U := { w with redis := w.redis.expire k (w.now + ttl) }

variable (limits : Limits)

/-- One step of a call. -/
def advance (w : World U) (i : Nat) (c : Call U) (upgraded : Bool) : World U :=
  match c.pc with
  | .incrTenant => (w.add .tenant 1).goto i c (.expireTenant (w.redis.value .tenant + 1))
  | .expireTenant tn =>
    (w.expire .tenant).goto i c (if limits.perTenant < tn then .decrTenant else .incrUser)
  | .decrTenant => (w.add .tenant (-1)).goto i c .done
  | .incrUser => (w.add (.user c.user) 1).goto i c (.expireUser (w.redis.value (.user c.user) + 1))
  | .expireUser un =>
    (w.expire (.user c.user)).goto i c (if limits.perUser < un then .decrUser else .admitted)
  | .decrUser => (w.add (.user c.user) (-1)).goto i c .decrUserTenant
  | .decrUserTenant => (w.add .tenant (-1)).goto i c (if c.replace then .findVictim else .done)
  | .findVictim =>
    -- the second attempt does not evict again
    match w.conns.findIdx? fun x => x.indexed && x.pod == c.pod && x.user == c.user with
    | none => w.goto i c .done
    | some j => w.goto i { c with replace := false } (.remove j .retry)
  | .remove j next =>
    match w.conns[j]? with
    | none => w
    | some x =>
      if x.removed then w.goto i c next.pc
      else
        ({ w with conns := w.conns.set j { x with removed := true } }).goto i c
          (.unindex j x.user next)
  | .unindex j u next =>
    ({ w with conns := w.conns.modify j ({ · with indexed := false }) }).goto i c
      (.releaseUser u next)
  | .releaseUser u next => (w.add (.user u) (-1)).goto i c (.releaseTenant next)
  | .releaseTenant next => (w.add .tenant (-1)).goto i c next.pc
  | .admitted =>
    if upgraded then ({ w with conns := w.conns ++ [(⟨c.user, c.pod, false, true⟩ : Conn U)] }).goto
      i c .done
    else w.goto i c (.releaseUser c.user .stop)
  | .done => w

/-- One step. -/
def step (w : World U) : Act U → World U
  | .tick elapsed => { w with now := w.now + elapsed, redis := w.redis.elapse (w.now + elapsed) }
  | .connect user pod replace => { w with calls := w.calls ++ [⟨user, pod, replace, .incrTenant⟩] }
  | .teardown j =>
    match w.conns[j]? with
    | none => w
    | some x => { w with calls := w.calls ++ [⟨x.user, x.pod, false, .remove j .stop⟩] }
  | .advance i upgraded =>
    match w.calls[i]? with
    | none => w
    | some c => w.advance limits i c upgraded

/-! ## What the counters count -/

end World

/-- A connection that a counter is about. -/
def Key.covers : Key U → U → Bool
  | .tenant, _ => true
  | .user u, v => u = v

/-- The number of live connections that a counter is about. -/
def live (k : Key U) (conns : List (Conn U)) : Nat :=
  conns.countP fun x => !x.removed && k.covers x.user

/-- What a call has added to a counter and not yet taken back. -/
def Call.weight (c : Call U) : Key U → Int
  | .tenant =>
    match c.pc with
    | .incrTenant | .findVictim | .remove .. | .done => 0
    | _ => 1
  | .user u =>
    match c.pc with
    | .expireUser _ | .decrUser | .admitted => if u = c.user then 1 else 0
    | .unindex _ v _ | .releaseUser v _ => if u = v then 1 else 0
    | _ => 0

/-- What a call that stays within a cap has added to its counter. -/
def Call.claim (limits : Limits) (c : Call U) : Key U → Int
  | .tenant =>
    match c.pc with
    | .expireTenant tn => if limits.perTenant < tn then 0 else 1
    | .incrUser | .expireUser _ | .admitted => 1
    | _ => 0
  | .user u =>
    match c.pc with
    | .expireUser un => if u = c.user ∧ ¬ limits.perUser < un then 1 else 0
    | .admitted => if u = c.user then 1 else 0
    | _ => 0

namespace World

/-- What a counter counts: live connections and calls. -/
def counted (w : World U) (k : Key U) : Int := live k w.conns + (w.calls.map (·.weight k)).sum

/-- What of it stays within the cap. -/
def claimed (limits : Limits) (w : World U) (k : Key U) : Int :=
  live k w.conns + (w.calls.map (·.claim limits k)).sum

/-- The counters count what they should, and no cap is exceeded. -/
structure Exact (limits : Limits) (w : World U) : Prop where
  value : ∀ k, w.redis.value k = w.counted k
  within : ∀ k, w.claimed limits k ≤ limits.of k

/-- The caps hold, and a counter is the number of its connections when no call is in
flight. -/
def CapsHold (limits : Limits) (w : World U) : Prop :=
  (∀ k, (live k w.conns : Int) ≤ limits.of k) ∧
    ((∀ c ∈ w.calls, c.pc = .done) → ∀ k, w.redis.value k = live k w.conns)

/-- Time does not pass the expiry of a counter that counts something. -/
def Refreshed (w : World U) : Act U → Prop
  | .tick elapsed => ∀ k, w.redis.Due k (w.now + elapsed) → w.counted k = 0
  | _ => True

end World

/-! ## One step -/

section Sums

variable {α : Type} {f : α → Int} {p : α → Bool} {l : List α} {i : Nat} {a b : α}

theorem sum_map_set (h : l[i]? = some a) :
    ((l.set i b).map f).sum = (l.map f).sum + (f b - f a) := by
  have hset := ((perm_set h b).map f).sum_eq
  have herase := ((perm_eraseIdx h).map f).sum_eq
  rw [List.map_cons, List.sum_cons] at hset herase
  omega

theorem countP_set_false (h : l[i]? = some a) (hb : p b = false) :
    (((l.set i b).countP p : Nat) : Int) = l.countP p - (p a).toNat := by
  have hset := countP_set h b p
  rw [hb, Bool.toNat_false] at hset
  omega

theorem countP_modify {g : α → α} (hg : ∀ x, p (g x) = p x) (l : List α) (i : Nat) :
    (l.modify i g).countP p = l.countP p := by
  induction l generalizing i with
  | nil => rw [List.modify_nil]
  | cons x l ih =>
    cases i with
    | zero => rw [List.modify_zero_cons, List.countP_cons, List.countP_cons, hg]
    | succ i => rw [List.modify_succ_cons, List.countP_cons, List.countP_cons, ih]

end Sums

theorem value_add (r : Redis U) (k k' : Key U) (delta : Int) :
    (r.add k delta).value k' = r.value k' + if k' = k then delta else 0 := by
  rw [Redis.value, Redis.add, Function.update_apply]
  split
  · next h => rw [h]; rfl
  · rw [add_zero, Redis.value]

theorem value_expire (r : Redis U) (k k' : Key U) (time : Nat) :
    (r.expire k time).value k' = r.value k' := by
  rw [Redis.value, Redis.expire, Function.update_apply]
  split
  · next h =>
    rw [h, Redis.value]
    cases r k <;> rfl
  · rfl

theorem Call.claim_nonneg (limits : Limits) (c : Call U) (k : Key U) : 0 ≤ c.claim limits k := by
  cases k <;> rw [Call.claim] <;> split <;> try split
  all_goals decide

theorem Call.claim_le_weight (limits : Limits) (c : Call U) (k : Key U) :
    c.claim limits k ≤ c.weight k := by
  cases k with
  | tenant =>
    rw [Call.claim, Call.weight]
    cases c.pc <;> simp
    split <;> decide
  | user u =>
    rw [Call.claim, Call.weight]
    cases c.pc <;> simp
    all_goals split_ifs <;> simp_all

namespace World

variable {limits : Limits} {w : World U} {i : Nat} {c₀ : Call U}

theorem claimed_le_counted (k : Key U) : w.claimed limits k ≤ w.counted k :=
  Int.add_le_add_left (List.sum_le_sum fun c _ => c.claim_le_weight limits k) _

theorem live_le_claimed (k : Key U) : (live k w.conns : Int) ≤ w.claimed limits k := by
  refine le_add_of_nonneg_right (List.sum_nonneg fun x hx => ?_)
  obtain ⟨c, -, rfl⟩ := List.mem_map.mp hx
  exact c.claim_nonneg limits k

theorem exact_goto (h : w.Exact limits) (hc : w.calls[i]? = some c₀) (w' : World U)
    (hcalls : w'.calls = w.calls) (c : Call U) (pc : Pc U)
    (hvalue : ∀ k, w'.redis.value k - w.redis.value k =
      live k w'.conns - live k w.conns + (({ c with pc } : Call U).weight k - c₀.weight k))
    (hwithin : ∀ k, live k w'.conns - live k w.conns +
      (({ c with pc } : Call U).claim limits k - c₀.claim limits k) ≤ (0 : Int) ∨
        w.claimed limits k + (live k w'.conns - live k w.conns +
          (({ c with pc } : Call U).claim limits k - c₀.claim limits k)) ≤ limits.of k) :
    (w'.goto i c pc).Exact limits := by
  have hsum (f : Call U → Int) : ((w'.goto i c pc).calls.map f).sum =
      (w.calls.map f).sum + (f { c with pc } - f c₀) := by
    rw [goto, hcalls]
    exact sum_map_set hc
  constructor
  · intro k
    have hold := h.value k
    have hnew := hvalue k
    rw [counted] at hold ⊢
    rw [hsum]
    change w'.redis.value k = live k w'.conns + _
    omega
  · intro k
    have hold := h.within k
    have hnew := hwithin k
    rw [claimed] at hold hnew ⊢
    rw [hsum]
    change (live k w'.conns : Int) + _ ≤ _
    omega

/-- The value that `INCR` returned stays within the cap only if all that is claimed
does. -/
theorem claimed_succ_le (h : w.Exact limits) {k : Key U}
    (hv : ¬ limits.of k < w.redis.value k + 1) : w.claimed limits k + 1 ≤ limits.of k := by
  have hle : w.claimed limits k ≤ w.counted k := w.claimed_le_counted k
  have heq := h.value k
  omega

variable {c : Call U}

theorem exact_add (h : w.Exact limits) (hc : w.calls[i]? = some c) (k₀ : Key U)
    (delta : Int) {pc : Pc U}
    (hvalue : ∀ k, (if k = k₀ then delta else 0) = ({ c with pc } : Call U).weight k - c.weight k)
    (hwithin : ∀ k, ({ c with pc } : Call U).claim limits k ≤ c.claim limits k ∨
      w.claimed limits k + (({ c with pc } : Call U).claim limits k - c.claim limits k) ≤
        limits.of k) :
    ((w.add k₀ delta).goto i c pc).Exact limits := by
  refine exact_goto h hc (w.add k₀ delta) rfl c pc (fun k => ?_) fun k => ?_
  · change (w.redis.add k₀ delta).value k - _ = _
    rw [value_add, add_sub_cancel_left, hvalue]
    exact (add_eq_right.mpr (sub_self _)).symm
  · have hconns : (live k (w.add k₀ delta).conns : Int) - live k w.conns = 0 := sub_self _
    rw [hconns, zero_add]
    exact (hwithin k).imp sub_nonpos.mpr id

theorem exact_stay (h : w.Exact limits) (hc : w.calls[i]? = some c₀) (w' : World U)
    (hcalls : w'.calls = w.calls) (hredis : ∀ k, w'.redis.value k = w.redis.value k)
    (hconns : ∀ k, live k w'.conns = live k w.conns) (c : Call U) (pc : Pc U)
    (hvalue : ∀ k, ({ c with pc } : Call U).weight k = c₀.weight k)
    (hwithin : ∀ k, ({ c with pc } : Call U).claim limits k ≤ c₀.claim limits k) :
    (w'.goto i c pc).Exact limits := by
  refine exact_goto h hc w' hcalls c pc (fun k => ?_) fun k => .inl ?_
  · rw [hredis, hconns, hvalue, sub_self, sub_self, sub_self]
    rfl
  · rw [hconns, sub_self, zero_add]
    exact sub_nonpos.mpr (hwithin k)

theorem exact_expire (h : w.Exact limits) (hc : w.calls[i]? = some c) (k₀ : Key U) {pc : Pc U}
    (hvalue : ∀ k, ({ c with pc } : Call U).weight k = c.weight k)
    (hwithin : ∀ k, ({ c with pc } : Call U).claim limits k ≤ c.claim limits k) :
    ((w.expire k₀).goto i c pc).Exact limits :=
  exact_stay h hc (w.expire k₀) rfl (fun _ => value_expire _ _ _ _)
    (fun _ => rfl) c pc hvalue hwithin

section Operations

variable {user : U} {pod : Nat} {replace : Bool}

theorem exact_incrTenant (h : w.Exact limits)
    (hc : w.calls[i]? = some ⟨user, pod, replace, .incrTenant⟩) (upgraded : Bool) :
    (w.advance limits i ⟨user, pod, replace, .incrTenant⟩ upgraded).Exact limits := by
  refine exact_add h hc .tenant 1 (fun k => ?_) fun k => ?_
  · cases k <;> rfl
  · cases k with
    | user u => exact .inl le_rfl
    | tenant =>
      by_cases hv : limits.perTenant < w.redis.value .tenant + 1
      · exact .inl (if_pos hv).le
      · refine .inr ?_
        change w.claimed limits .tenant + ((if _ then 0 else 1) - 0) ≤ _
        rw [if_neg hv]
        exact claimed_succ_le h (k := .tenant) hv

theorem exact_incrUser (h : w.Exact limits)
    (hc : w.calls[i]? = some ⟨user, pod, replace, .incrUser⟩) (upgraded : Bool) :
    (w.advance limits i ⟨user, pod, replace, .incrUser⟩ upgraded).Exact limits := by
  refine exact_add h hc (.user user) 1 (fun k => ?_) fun k => ?_
  · cases k <;> simp [Call.weight]
  · cases k with
    | tenant => exact .inl le_rfl
    | user u =>
      by_cases hv : u = user ∧ ¬ limits.perUser < w.redis.value (.user user) + 1
      · refine .inr ?_
        change w.claimed limits (.user u) + ((if _ then 1 else 0) - 0) ≤ _
        rw [if_pos hv]
        obtain ⟨rfl, hv⟩ := hv
        exact claimed_succ_le h (k := .user u) hv
      · exact .inl (if_neg hv).le

theorem exact_remove {j : Nat} {next : Next} (h : w.Exact limits)
    (hc : w.calls[i]? = some ⟨user, pod, replace, .remove j next⟩) (upgraded : Bool) :
    (w.advance limits i ⟨user, pod, replace, .remove j next⟩ upgraded).Exact limits := by
  rw [advance]
  dsimp only
  split
  · exact h
  · next x hx =>
    split
    · exact exact_stay h hc w rfl (fun _ => rfl) (fun _ => rfl) _ _
        (fun k => by cases k <;> cases next <;> rfl)
        fun k => by cases k <;> cases next <;> exact le_rfl
    · next hlive =>
      have hset (k : Key U) : (live k (w.conns.set j { x with removed := true }) : Int) =
          live k w.conns - (k.covers x.user).toNat := by
        refine (countP_set_false hx rfl).trans ?_
        rw [Bool.eq_false_iff.mpr hlive]
        rfl
      refine exact_goto h hc { w with conns := w.conns.set j { x with removed := true } } rfl
        _ _ (fun k => ?_) fun k => .inl ?_
      · rw [hset]
        cases k <;> simp [Call.weight, Key.covers]
        split_ifs <;> simp_all
      · rw [hset]
        cases k <;> simp [Call.claim]

theorem exact_admitted (h : w.Exact limits)
    (hc : w.calls[i]? = some ⟨user, pod, replace, .admitted⟩) (upgraded : Bool) :
    (w.advance limits i ⟨user, pod, replace, .admitted⟩ upgraded).Exact limits := by
  rw [advance]
  dsimp only
  split
  · have happend (k : Key U) : (live k (w.conns ++ [(⟨user, pod, false, true⟩ : Conn U)]) : Int) =
        live k w.conns + (k.covers user).toNat := by
      rw [live, List.countP_append]
      cases hk : k.covers user <;> simp [live, hk]
    refine exact_goto h hc { w with conns := w.conns ++ [⟨user, pod, false, true⟩] } rfl
      _ _ (fun k => ?_) fun k => .inl ?_
    · rw [happend]
      cases k <;> simp [Call.weight, Key.covers]
      split_ifs <;> simp_all
    · rw [happend]
      cases k <;> simp [Call.claim, Key.covers]
      split_ifs <;> simp_all
  · refine exact_stay h hc w rfl (fun _ => rfl) (fun _ => rfl) _ _ (fun k => by cases k <;> rfl)
      fun k => ?_
    cases k <;> simp [Call.claim]
    split_ifs <;> decide

end Operations

theorem exact_advance (h : w.Exact limits) (hc : w.calls[i]? = some c) (upgraded : Bool) :
    (w.advance limits i c upgraded).Exact limits := by
  obtain ⟨user, pod, replace, pc⟩ := c
  cases pc with
  | incrTenant => exact exact_incrTenant h hc upgraded
  | expireTenant tn =>
    refine exact_expire h hc .tenant (fun k => ?_) fun k => ?_
    all_goals by_cases hv : limits.perTenant < tn
    all_goals cases k <;> simp [hv, Call.weight, Call.claim]
  | decrTenant =>
    exact exact_add h hc .tenant (-1) (fun k => by cases k <;> rfl) fun k =>
      .inl (by cases k <;> exact le_rfl)
  | incrUser => exact exact_incrUser h hc upgraded
  | expireUser un =>
    refine exact_expire h hc (.user user) (fun k => ?_) fun k => ?_
    all_goals by_cases hv : limits.perUser < un
    all_goals cases k <;> simp [hv, Call.weight, Call.claim]
  | decrUser =>
    refine exact_add h hc (.user user) (-1) (fun k => ?_) fun k => .inl ?_
    · cases k <;> simp [Call.weight]
      split_ifs <;> rfl
    · cases k <;> exact le_rfl
  | decrUserTenant =>
    refine exact_add h hc .tenant (-1) (fun k => ?_) fun k => .inl ?_
    all_goals cases k <;> cases replace <;> rfl
  | findVictim =>
    rw [advance]
    dsimp only
    split
    · exact exact_stay h hc w rfl (fun _ => rfl) (fun _ => rfl) _ _ (fun k => by cases k <;> rfl)
        fun k => by cases k <;> exact le_rfl
    · exact exact_stay h hc w rfl (fun _ => rfl) (fun _ => rfl) _ _ (fun k => by cases k <;> rfl)
        fun k => by cases k <;> exact le_rfl
  | remove j next => exact exact_remove h hc upgraded
  | unindex j u next =>
    exact exact_stay h hc { w with conns := w.conns.modify j ({ · with indexed := false }) } rfl
      (fun _ => rfl) (fun k => countP_modify (g := fun x : Conn U => { x with indexed := false })
        (fun _ => rfl) _ _) _ _
      (fun k => by cases k <;> rfl) fun k => by cases k <;> exact le_rfl
  | releaseUser u next =>
    refine exact_add h hc (.user u) (-1) (fun k => ?_) fun k => .inl ?_
    · cases k <;> simp [Call.weight]
      split_ifs <;> rfl
    · cases k <;> exact le_rfl
  | releaseTenant next =>
    refine exact_add h hc .tenant (-1) (fun k => ?_) fun k => .inl ?_
    all_goals cases k <;> cases next <;> rfl
  | admitted => exact exact_admitted h hc upgraded
  | done => exact h

theorem exact_call (h : w.Exact limits) (hweight : ∀ k, c.weight k = 0)
    (hclaim : ∀ k, c.claim limits k = 0) : Exact limits { w with calls := w.calls ++ [c] } := by
  constructor
  · intro k
    refine (h.value k).trans ?_
    rw [counted, counted, List.map_append, List.sum_append, List.map_singleton, List.sum_singleton,
      hweight, add_zero]
  · intro k
    refine le_trans (le_of_eq ?_) (h.within k)
    rw [claimed, claimed, List.map_append, List.sum_append, List.map_singleton, List.sum_singleton,
      hclaim, add_zero]

theorem exact_step (h : w.Exact limits) (a : Act U) (hfresh : w.Refreshed a) :
    (w.step limits a).Exact limits := by
  cases a with
  | tick elapsed =>
    refine ⟨fun k => ?_, h.within⟩
    change ((w.redis.elapse (w.now + elapsed)) k).elim 0 (·.value) = w.counted k
    rw [Redis.elapse]
    split
    · next hdue => exact (hfresh k hdue).symm
    · exact h.value k
  | connect user pod replace =>
    exact exact_call h (fun k => by cases k <;> rfl) fun k => by cases k <;> rfl
  | teardown j =>
    rw [step]
    split
    · exact h
    · exact exact_call h (fun k => by cases k <;> rfl) fun k => by cases k <;> rfl
  | advance i upgraded =>
    rw [step]
    split
    · exact h
    · next c hc => exact exact_advance h hc upgraded

theorem capsHold_of_exact (h : w.Exact limits) : w.CapsHold limits := by
  refine ⟨fun k => (live_le_claimed k).trans (h.within k), fun hdone k => ?_⟩
  rw [h.value, counted]
  have hzero : (w.calls.map (·.weight k)).sum = 0 := by
    refine List.sum_eq_zero fun x hx => ?_
    obtain ⟨c, hc, rfl⟩ := List.mem_map.mp hx
    cases k <;> rw [Call.weight, hdone c hc]
  rw [hzero, add_zero]

/-- No connection and no counter. -/
def empty : World U := ⟨0, fun _ => none, [], []⟩

theorem exact_empty (hlimits : ∀ k : Key U, 0 ≤ limits.of k) : (empty (U := U)).Exact limits :=
  ⟨fun _ => rfl, hlimits⟩

end World

/-- `NewCaps`. -/
def newCaps (perUser perTenant : Int) : Limits where
  perUser := if perUser ≤ 0 then 10 else perUser
  perTenant := if perTenant ≤ 0 then 2000 else perTenant

omit [DecidableEq U] in
theorem newCaps_nonneg (perUser perTenant : Int) (k : Key U) :
    0 ≤ (newCaps perUser perTenant).of k := by
  cases k <;> simp only [newCaps, Limits.of] <;> split <;> omega

/-- In every run in which no counter expires that counts something, the caps hold at every
moment, and a counter is the number of its connections when no call is in flight. -/
theorem caps_hold (perUser perTenant : Int) (acts : List (Act U))
    (h : Each (World.step (newCaps perUser perTenant)) World.Refreshed World.empty acts) :
    Always (World.step (newCaps perUser perTenant)) (World.CapsHold (newCaps perUser perTenant))
      World.empty acts := by
  have hexact : Always (World.step (newCaps perUser perTenant))
      (World.Exact (newCaps perUser perTenant))
      World.empty acts :=
    always_of_each (P := World.Exact (newCaps perUser perTenant))
      (fun _ a hw ha => World.exact_step hw a ha)
      (World.exact_empty (newCaps_nonneg perUser perTenant)) h
  exact fun done hdone => World.capsHold_of_exact (hexact done hdone)

/-! ## A minute and a day -/

section Day

/-- A request goes on for some steps. -/
def advances (call n : Nat) : List (Act Unit) := List.replicate n (.advance call true)

/-- A connection is reserved and added to its hub. -/
def connected (call : Nat) : List (Act Unit) := .connect () 0 false :: advances call 5

/-- A connection, a second one that is refused, and a third one that evicts the first; a
minute later the third one is torn down. -/
def minute : List (Act Unit) :=
  connected 0 ++ .connect () 0 false :: advances 1 6 ++ .connect () 0 true :: advances 2 16 ++
    .tick 60 :: .teardown 1 :: advances 3 4

theorem each_refreshed {limits : Limits} {w : World Unit} {acts rest : List (Act Unit)}
    (hacts : ∀ a ∈ acts, ∀ elapsed, a ≠ .tick elapsed)
    (hrest : Each (World.step limits) World.Refreshed (run (World.step limits) w acts) rest) :
    Each (World.step limits) World.Refreshed w (acts ++ rest) := by
  induction acts generalizing w with
  | nil => exact hrest
  | cons a acts ih =>
    refine each_cons.mpr ⟨?_, ih (fun b hb => hacts b (List.mem_cons_of_mem _ hb)) hrest⟩
    cases a with
    | tick elapsed => exact absurd rfl (hacts _ List.mem_cons_self elapsed)
    | connect | teardown | advance => trivial

theorem minute_refreshed : Each (World.step (newCaps 1 2)) World.Refreshed World.empty minute := by
  refine each_refreshed (by simp [connected, advances]) (each_cons.mpr ⟨fun k hdue => ?_, ?_⟩)
  · cases k with
    | tenant => exact absurd hdue (by decide)
    | user u =>
      cases u
      exact absurd hdue (by decide)
  · exact (List.append_nil (_ :: advances 3 4)) ▸
      each_refreshed (by simp [advances]) (each_nil _)

/-- The caps hold for connections that are gone before the counters expire, one refused and
one evicted. -/
theorem caps_hold_minute :
    Always (World.step (newCaps 1 2)) (World.CapsHold (newCaps 1 2)) World.empty minute ∧
      (run (World.step (newCaps 1 2)) World.empty minute).conns =
        [⟨(), 0, true, false⟩, ⟨(), 0, true, false⟩] :=
  ⟨caps_hold 1 2 minute minute_refreshed, by decide⟩

/-- After a day without another reservation the counter forgets the connection, and a second
one is admitted beside it. -/
theorem day_exceeds_cap : ¬ ∀ (perUser perTenant : Int) (acts : List (Act Unit)),
    Always (World.step (newCaps perUser perTenant)) (World.CapsHold (newCaps perUser perTenant))
      World.empty acts := by
  intro h
  have hcap := (h 1 1 (connected 0 ++ .tick ttl :: connected 1) _ List.prefix_rfl).1 (.user ())
  exact absurd hcap (by decide)

end Day

end Windrose.Realtime.Caps

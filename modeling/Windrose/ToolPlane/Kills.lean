/-
  ToolPlane/Kills.lean --- kill switches, their Redis set and the caches of the gateways.

  Source: services/tool-plane/internal/enforce/killswitch.go, store/tenant.go (CreateKill,
  DeactivateKill, ActiveKills), api/handlers_admin.go (the two calls, each followed by
  Announce) and the index kill_switches_uniq of migrations/000001_init.up.sql.

  A process boots (`SyncFromStore`) and, when it is a gateway, watches: it subscribes,
  reads the Redis set once, and then once more for each message.  A call of the registry
  commits its row, changes the set, refreshes the cache of its own process and publishes.
  Each of these is a step of its own; nothing fails, and a message waits until its gateway
  takes it.
-/
import Windrose.Foundation.Runs
import Windrose.Foundation.Uuid

set_option autoImplicit false

namespace Windrose.ToolPlane

open Windrose.Foundation

variable {π ι : Type}

/-! ## Kill switches -/

/-- `KillScopeTool`, `KillScopeToolVersion`, `KillScopeToolTenant`. -/
inductive KillScope where
  | tool
  | toolVersion
  | toolTenant
  deriving DecidableEq

/-- A row of `kill_switches`. -/
structure KillSwitch where
  id : Bytes
  scope : KillScope
  toolID : Bytes
  version : Bytes := []
  tenantID : Option Uuid := none
  active : Bool := true
  deriving DecidableEq

def toolKey (toolID : Bytes) : Bytes := bytes "tool|" ++ toolID

def versionKey (toolID version : Bytes) : Bytes := bytes "toolver|" ++ toolID ++ 124 :: version

def tenantKey (toolID : Bytes) (tenant : Uuid) : Bytes :=
  bytes "tooltenant|" ++ toolID ++ 124 :: tenant.text

/-- `killMembers`. -/
def killMembers (k : KillSwitch) : List Bytes :=
  match k.scope with
  | .tool => [toolKey k.toolID]
  | .toolVersion => [versionKey k.toolID k.version]
  | .toolTenant =>
    match k.tenantID with
    | some tenant => [tenantKey k.toolID tenant]
    | none => []

/-- `IsKilled`: the scope that kills, if one does. -/
def isKilled (set : List Bytes) (tenant : Uuid) (toolID version : Bytes) : Option KillScope :=
  if toolKey toolID ∈ set then some .tool
  else if versionKey toolID version ∈ set then some .toolVersion
  else if tenantKey toolID tenant ∈ set then some .toolTenant
  else none

/-- The calls that a kill switch is for. -/
def KillSwitch.Covers (k : KillSwitch) (tenant : Uuid) (toolID version : Bytes) : Prop :=
  k.toolID = toolID ∧
    match k.scope with
    | .tool => True
    | .toolVersion => k.version = version
    | .toolTenant => k.tenantID = some tenant

/-- The two parts of a version key can be told apart. -/
def KillSwitch.Separable (k : KillSwitch) : Prop :=
  k.scope = .toolVersion → (124 : UInt8) ∉ k.toolID ∧ (124 : UInt8) ∉ k.version

instance (k : KillSwitch) : Decidable k.Separable := inferInstanceAs (Decidable (_ → _))

theorem toolKey_ne_versionKey (a b c : Bytes) : toolKey a ≠ versionKey b c := by
  have htool : bytes "tool|" = [116, 111, 111, 108, 124] := rfl
  have hversion : bytes "toolver|" = [116, 111, 111, 108, 118, 101, 114, 124] := rfl
  simp [toolKey, versionKey, htool, hversion]

theorem toolKey_ne_tenantKey (a b : Bytes) (u : Uuid) : toolKey a ≠ tenantKey b u := by
  have htool : bytes "tool|" = [116, 111, 111, 108, 124] := rfl
  have htenant : bytes "tooltenant|" = [116, 111, 111, 108, 116, 101, 110, 97, 110, 116, 124] := rfl
  simp [toolKey, tenantKey, htool, htenant]

theorem versionKey_ne_tenantKey (a b c : Bytes) (u : Uuid) : versionKey a b ≠ tenantKey c u := by
  have hversion : bytes "toolver|" = [116, 111, 111, 108, 118, 101, 114, 124] := rfl
  have htenant : bytes "tooltenant|" = [116, 111, 111, 108, 116, 101, 110, 97, 110, 116, 124] := rfl
  simp [versionKey, tenantKey, hversion, htenant]

variable {toolID : Bytes}

theorem mem_killMembers_toolKey {k : KillSwitch} :
    toolKey toolID ∈ killMembers k ↔ k.scope = .tool ∧ k.toolID = toolID := by
  unfold killMembers
  cases hscope : k.scope with
  | tool => simp [toolKey, eq_comm]
  | toolVersion => simp [toolKey_ne_versionKey]
  | toolTenant =>
    cases k.tenantID with
    | none => simp
    | some tenant => simp [toolKey_ne_tenantKey]

theorem versionKey_inj {a b version : Bytes} (ha : (124 : UInt8) ∉ a)
    (hb : (124 : UInt8) ∉ b) (h : versionKey toolID version = versionKey a b) :
    a = toolID ∧ b = version := by
  have hrest : toolID ++ 124 :: version = a ++ 124 :: b := by
    simpa [versionKey, List.append_assoc] using h
  have hcount := congrArg (List.count 124) hrest
  simp only [List.count_append, List.count_cons_self, List.count_eq_zero_of_not_mem ha,
    List.count_eq_zero_of_not_mem hb] at hcount
  have htool : (124 : UInt8) ∉ toolID := List.count_eq_zero.mp (by omega)
  obtain ⟨h₁, h₂⟩ := append_sep_inj htool ha hrest
  exact ⟨h₁.symm, h₂.symm⟩

theorem mem_killMembers_versionKey {k : KillSwitch} (hk : k.Separable) {version : Bytes} :
    versionKey toolID version ∈ killMembers k ↔
      k.scope = .toolVersion ∧ k.toolID = toolID ∧ k.version = version := by
  unfold killMembers
  cases hscope : k.scope with
  | tool => simp [(toolKey_ne_versionKey _ _ _).symm]
  | toolVersion =>
    obtain ⟨htool, hversion⟩ := hk hscope
    constructor
    · intro h
      exact ⟨rfl, versionKey_inj htool hversion (List.mem_singleton.mp h)⟩
    · rintro ⟨-, rfl, rfl⟩
      exact List.mem_singleton_self _
  | toolTenant =>
    cases k.tenantID with
    | none => simp
    | some tenant => simp [versionKey_ne_tenantKey]

theorem mem_killMembers_tenantKey {k : KillSwitch} {tenant : Uuid} :
    tenantKey toolID tenant ∈ killMembers k ↔
      k.scope = .toolTenant ∧ k.toolID = toolID ∧ k.tenantID = some tenant := by
  have hbar : ∀ u : Uuid, (124 : UInt8) ∉ u.text := fun u => u.not_mem_text rfl (by decide)
  unfold killMembers
  cases hscope : k.scope with
  | tool => simp [(toolKey_ne_tenantKey _ _ _).symm]
  | toolVersion => simp [(versionKey_ne_tenantKey _ _ _ _).symm]
  | toolTenant =>
    cases hk : k.tenantID with
    | none => simp
    | some u =>
      constructor
      · intro h
        have hrest : toolID ++ 124 :: tenant.text = k.toolID ++ 124 :: u.text := by
          simpa [tenantKey, List.append_assoc] using h
        obtain ⟨htool, htenant⟩ := append_last_sep_inj (hbar _) (hbar _) hrest
        exact ⟨rfl, htool.symm, by rw [Uuid.text_injective htenant]⟩
      · rintro ⟨-, rfl, htenant⟩
        obtain rfl := Option.some.inj htenant
        exact List.mem_singleton_self _

/-! ## Processes and calls -/

/-- Where a process is. -/
inductive Phase where
  | down
  /-- `SyncFromStore` has read Postgres -/
  | loaded (members : List Bytes)
  /-- and rewritten the set -/
  | synced (members : List Bytes)
  /-- a process that does not watch -/
  | serving
  /-- `refresh` is about to read the set -/
  | subscribed
  /-- `refresh` has read it -/
  | refreshing (members : List Bytes)
  | watching
  deriving DecidableEq

/-- Messages reach the process. -/
def Phase.listens : Phase → Bool
  | subscribed | refreshing _ | watching => true
  | _ => false

/-- Where a call is after its commit. -/
inductive Stage where
  | announce
  | refresh
  | assign (members : List Bytes)
  | publish
  deriving DecidableEq

/-- A call of the registry, in a process. -/
structure Call (π : Type) where
  process : π
  kill : KillSwitch
  active : Bool
  stage : Stage
  deriving DecidableEq

/-- Postgres, Redis, the processes and the calls under way. -/
structure KillPlane (π ι : Type) where
  rows : List KillSwitch := []
  /-- `tp:kill:set` -/
  redis : List Bytes := []
  /-- `KillRegistry.set` -/
  cache : π → List Bytes := fun _ => []
  phase : π → Phase := fun _ => .down
  inbox : π → Nat := fun _ => 0
  calls : ι → Option (Call π) := fun _ => none

/-- One step. -/
inductive KillMove (π ι : Type) where
  | create (i : ι) (p : π) (k : KillSwitch)
  | deactivate (i : ι) (p : π) (id : Bytes)
  /-- the next step of a call -/
  | proceed (i : ι)
  | boot (p : π)
  /-- the next step of a process -/
  | advance (p : π)
  | stop (p : π)
  deriving DecidableEq

namespace KillPlane

/-- The members of the active rows: what `SyncFromStore` makes of `ActiveKills`. -/
def activeMembers (s : KillPlane π ι) : List Bytes := (s.rows.filter (·.active)).flatMap killMembers

/-- The primary key or `kill_switches_uniq` is violated. -/
def conflicts (s : KillPlane π ι) (k : KillSwitch) : Bool :=
  s.rows.any fun row =>
    row.id = k.id ||
      (row.active && row.scope = k.scope && row.toolID = k.toolID && row.version = k.version &&
        row.tenantID.getD (Uuid.ofByte 0) = k.tenantID.getD (Uuid.ofByte 0))

/-- `SADD` and `SREM` of a member. -/
def announce (set : List Bytes) (active : Bool) (member : Bytes) : List Bytes :=
  if active then if member ∈ set then set else set ++ [member] else set.filter (· ≠ member)

section Steps

variable [DecidableEq π] [DecidableEq ι] (watches : π → Bool) (s : KillPlane π ι)

/-- `CreateKill`, and `Announce` is to follow. -/
def create (i : ι) (p : π) (k : KillSwitch) : KillPlane π ι :=
  if s.conflicts k then s
  else
    { s with
      rows := s.rows ++ [{ k with active := true }]
      calls := Function.update s.calls i (some ⟨p, k, true, .announce⟩) }

/-- `DeactivateKill`. -/
def deactivate (i : ι) (p : π) (id : Bytes) : KillPlane π ι :=
  match s.rows.find? fun row => row.id = id && row.active with
  | none => s
  | some k =>
    { s with
      rows := s.rows.map fun row => if row.id = id && row.active then { row with active := false }
        else row
      calls := Function.update s.calls i (some ⟨p, k, false, .announce⟩) }

/-- `Announce`, one operation after the other. -/
def proceed (i : ι) (c : Call π) : KillPlane π ι :=
  match c.stage with
  | .announce =>
    { s with
      redis := (killMembers c.kill).foldl (fun set m => announce set c.active m) s.redis
      calls := Function.update s.calls i (some { c with stage := .refresh }) }
  | .refresh =>
    { s with calls := Function.update s.calls i (some { c with stage := .assign s.redis }) }
  | .assign members =>
    { s with
      cache := Function.update s.cache c.process members
      calls := Function.update s.calls i (some { c with stage := .publish }) }
  | .publish =>
    { s with
      inbox := fun p => if (s.phase p).listens then s.inbox p + 1 else s.inbox p
      calls := Function.update s.calls i none }

/-- `SyncFromStore` and `Watch`. -/
def advance (p : π) : KillPlane π ι :=
  match s.phase p with
  | .loaded members =>
    { s with redis := members, phase := Function.update s.phase p (.synced members) }
  | .synced members =>
    { s with
      cache := Function.update s.cache p members
      phase := Function.update s.phase p (if watches p then .subscribed else .serving) }
  | .subscribed => { s with phase := Function.update s.phase p (.refreshing s.redis) }
  | .refreshing members =>
    { s with
      cache := Function.update s.cache p members
      phase := Function.update s.phase p .watching }
  | .watching =>
    if 0 < s.inbox p then
      { s with
        inbox := Function.update s.inbox p (s.inbox p - 1)
        phase := Function.update s.phase p .subscribed }
    else s
  | .down | .serving => s

/-- One step; one that cannot be made changes nothing. -/
def step : KillMove π ι → KillPlane π ι
  | .create i p k => match s.calls i with
      | none => s.create i p k
      | some _ => s
  | .deactivate i p id => match s.calls i with
      | none => s.deactivate i p id
      | some _ => s
  | .proceed i => match s.calls i with
      | some c => s.proceed i c
      | none => s
  | .boot p =>
    if s.phase p = .down then
      { s with phase := Function.update s.phase p (.loaded s.activeMembers) }
    else s
  | .advance p => s.advance watches p
  | .stop p =>
    { s with
      cache := Function.update s.cache p []
      phase := Function.update s.phase p .down
      inbox := Function.update s.inbox p 0 }

end Steps

/-! ## Convergence -/

/-- No call is under way, every process has finished its boot, and every message is
handled. -/
def Quiet (s : KillPlane π ι) : Prop :=
  (∀ i, s.calls i = none) ∧
    ∀ p, (s.phase p = .down ∨ s.phase p = .serving ∨ s.phase p = .watching) ∧ s.inbox p = 0

/-- Every gateway answers by the active rows. -/
def Enforced (s : KillPlane π ι) : Prop :=
  ∀ p, s.phase p = .watching → ∀ tenant toolID version,
    (isKilled (s.cache p) tenant toolID version).isSome ↔
      ∃ k ∈ s.rows, k.active = true ∧ k.Covers tenant toolID version

/-- A quiet plane enforces its kills. -/
def Converges (s : KillPlane π ι) : Prop := s.Quiet → s.Enforced

/-- A call has still to announce the member. -/
def Pending (s : KillPlane π ι) (m : Bytes) : Prop :=
  ∃ i c, s.calls i = some c ∧ c.stage = .announce ∧ m ∈ killMembers c.kill

/-- Another call has. -/
def PendingBut (s : KillPlane π ι) (i : ι) (m : Bytes) : Prop :=
  ∃ j c, j ≠ i ∧ s.calls j = some c ∧ c.stage = .announce ∧ m ∈ killMembers c.kill

/-- What a step writes to the set agrees with the rows as they are then, but for members
that a call has still to announce; and the members of a new row can be told from others. -/
def Timely (s : KillPlane π ι) : KillMove π ι → Prop
  | .create _ _ k => k.Separable
  | .proceed i => ∀ c, s.calls i = some c → c.stage = .announce → ∀ m ∈ killMembers c.kill,
      (c.active = true ↔ m ∈ s.activeMembers) ∨ s.PendingBut i m
  | .advance p => ∀ members, s.phase p = .loaded members → ∀ m,
      (m ∈ members ↔ m ∈ s.activeMembers) ∨ s.Pending m
  | _ => True

end KillPlane

end Windrose.ToolPlane

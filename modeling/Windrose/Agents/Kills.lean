/-
  Agents/Kills.lean --- the kill switches of the agents.

  Source: services/agent-runtime/app/adapters/killswitch.py and app/api/routes/registry.py
  (create_kill, delete_kill).

  The registry is one Redis set.  A kill adds the members of `_members` with one SADD and
  takes them out again with one SREM; `is_killed` looks for three of them.  Next to the set
  stands the list of the kills that were set and not cleared.
-/
import Windrose.Foundation.NumberText
import Windrose.Foundation.Runs
import Windrose.Foundation.Uuid
import Mathlib.Data.Set.Finite.List

set_option autoImplicit false

namespace Windrose.Agents

open Windrose.Foundation

/-! ## Kill switches -/

/-- A tenant id.  Tenant ids are UUIDs; what counts here is that the text is not empty and
has no colon. -/
structure TenantID where
  text : Bytes
  text_ne_nil : text ≠ []
  colon_not_mem : (58 : UInt8) ∉ text

instance : DecidableEq TenantID := fun t u =>
  decidable_of_iff (t.text = u.text) ⟨fun h => by cases t; cases u; cases h; rfl, congrArg _⟩

/-- `scope` of a kill switch. -/
inductive KillScope where
  | agent
  | agentVersion
  | agentVersionTenant
  deriving DecidableEq

/-- `KillSwitch`, with what the registry reads. -/
structure KillSwitch where
  killID : Bytes
  scope : KillScope
  agentKey : Bytes
  version : Option Int
  tenantID : Option TenantID
  deriving DecidableEq

def agentMember (agentKey : Bytes) : Bytes := bytes "agent:" ++ agentKey

def versionMember (agentKey : Bytes) (version : Int) : Bytes :=
  bytes "agent_version:" ++ agentKey ++ 58 :: intText version

def tenantMember (agentKey : Bytes) (version : Int) (tenantID : TenantID) : Bytes :=
  bytes "avt:" ++ agentKey ++ 58 :: intText version ++ 58 :: tenantID.text

/-- `_members`. -/
def members (ks : KillSwitch) : List Bytes :=
  agentMember ks.agentKey ::
    match ks.version with
    | none => []
    | some version =>
      versionMember ks.agentKey version ::
        match ks.tenantID with
        | none => []
        | some tenantID => [tenantMember ks.agentKey version tenantID]

/-- `lookup_keys`. -/
def lookupKeys (agentKey : Bytes) (version : Int) (tenantID : TenantID) : List Bytes :=
  [agentMember agentKey, versionMember agentKey version, tenantMember agentKey version tenantID]

/-- `is_killed`. -/
def isKilled (set : List Bytes) (agentKey : Bytes) (version : Int) (tenantID : TenantID) : Bool :=
  (lookupKeys agentKey version tenantID).any (· ∈ set)

/-! ## What a kill is for -/

variable {v : Int} {t : TenantID} {ks : KillSwitch}

namespace KillSwitch

/-- The version that a kill is for, if it is for one only. -/
def onlyVersion (ks : KillSwitch) : Option Int := if ks.scope = .agent then none else ks.version

/-- The tenant that a kill is for, if it is for one only. -/
def onlyTenant (ks : KillSwitch) : Option TenantID :=
  if ks.scope = .agentVersionTenant then ks.tenantID else none

/-- The kill is for this agent, version and tenant. -/
def Covers (ks : KillSwitch) (agentKey : Bytes) (version : Int) (tenantID : TenantID) : Prop :=
  ks.agentKey = agentKey ∧ (∀ v ∈ ks.onlyVersion, v = version) ∧ ∀ t ∈ ks.onlyTenant, t = tenantID

/-- The kill is for the whole agent. -/
def Wide (ks : KillSwitch) : Prop := ks.onlyVersion = none ∧ ks.onlyTenant = none

instance (ks : KillSwitch) : Decidable ks.Wide := inferInstanceAs (Decidable (_ ∧ _))

theorem onlyVersion_eq_some (h : ks.onlyVersion = some v) : ks.version = some v := by
  unfold onlyVersion at h
  split at h
  · cases h
  · exact h

theorem onlyTenant_eq_some (h : ks.onlyTenant = some t) : ks.tenantID = some t := by
  unfold onlyTenant at h
  split at h
  · exact h
  · cases h

theorem covers_stored (hv : ks.version = some v)
    (ht : ks.tenantID = some t) : ks.Covers ks.agentKey v t := by
  refine ⟨rfl, fun w hw => ?_, fun u hu => ?_⟩
  · exact Option.some.inj ((onlyVersion_eq_some hw).symm.trans hv)
  · exact Option.some.inj ((onlyTenant_eq_some hu).symm.trans ht)

theorem Wide.covers (h : ks.Wide) (v : Int) (t : TenantID) : ks.Covers ks.agentKey v t := by
  refine ⟨rfl, fun w hw => ?_, fun u hu => ?_⟩
  · rw [h.1] at hw
    cases hw
  · rw [h.2] at hu
    cases hu

end KillSwitch

/-! ## Members -/

section Members

variable {a b : Bytes} {v w : Int} {t u : TenantID} {ks : KillSwitch}

theorem colon_not_mem_intText (v : Int) : (58 : UInt8) ∉ intText v := by
  intro h
  exact absurd (numberBytes_intText v 58 h) (by decide)

theorem agentMember_ne_versionMember : agentMember a ≠ versionMember b v := by
  have hagent : bytes "agent:" = [97, 103, 101, 110, 116, 58] := rfl
  have hversion : bytes "agent_version:" =
    [97, 103, 101, 110, 116, 95, 118, 101, 114, 115, 105, 111, 110, 58] := rfl
  simp [agentMember, versionMember, hagent, hversion]

theorem agentMember_ne_tenantMember : agentMember a ≠ tenantMember b v t := by
  have hagent : bytes "agent:" = [97, 103, 101, 110, 116, 58] := rfl
  have htenant : bytes "avt:" = [97, 118, 116, 58] := rfl
  simp [agentMember, tenantMember, hagent, htenant]

theorem versionMember_ne_tenantMember : versionMember a v ≠ tenantMember b w t := by
  have hversion : bytes "agent_version:" =
    [97, 103, 101, 110, 116, 95, 118, 101, 114, 115, 105, 111, 110, 58] := rfl
  have htenant : bytes "avt:" = [97, 118, 116, 58] := rfl
  simp [versionMember, tenantMember, hversion, htenant]

theorem agentMember_inj : agentMember a = agentMember b ↔ a = b := List.append_right_inj _

theorem versionMember_inj : versionMember a v = versionMember b w ↔ a = b ∧ v = w := by
  refine ⟨fun h => ?_, by rintro ⟨rfl, rfl⟩; rfl⟩
  have hrest : a ++ 58 :: intText v = b ++ 58 :: intText w := by
    simpa [versionMember, List.append_assoc] using h
  obtain ⟨hab, hvw⟩ := append_last_sep_inj (colon_not_mem_intText v) (colon_not_mem_intText w) hrest
  exact ⟨hab, intText_injective hvw⟩

theorem tenantMember_inj : tenantMember a v t = tenantMember b w u ↔ a = b ∧ v = w ∧ t = u := by
  refine ⟨fun h => ?_, by rintro ⟨rfl, rfl, rfl⟩; rfl⟩
  have hrest : (a ++ 58 :: intText v) ++ 58 :: t.text = (b ++ 58 :: intText w) ++ 58 :: u.text := by
    simpa [tenantMember, List.append_assoc] using h
  obtain ⟨hfront, htext⟩ := append_last_sep_inj t.colon_not_mem u.colon_not_mem hrest
  obtain ⟨hab, hvw⟩ :=
    append_last_sep_inj (colon_not_mem_intText v) (colon_not_mem_intText w) hfront
  refine ⟨hab, intText_injective hvw, ?_⟩
  cases t
  cases u
  congr

theorem agentMember_mem_members : agentMember a ∈ members ks ↔ ks.agentKey = a := by
  unfold members
  split
  · simp [agentMember_inj, @eq_comm _ a]
  · split <;>
      simp [agentMember_inj, agentMember_ne_versionMember, agentMember_ne_tenantMember,
        @eq_comm _ a]

theorem versionMember_mem_members :
    versionMember a v ∈ members ks ↔ ks.agentKey = a ∧ ks.version = some v := by
  unfold members
  split
  next h => simp [agentMember_ne_versionMember.symm, h]
  next w h =>
    split <;>
      simp [agentMember_ne_versionMember.symm, versionMember_inj, versionMember_ne_tenantMember, h,
        @eq_comm _ a, @eq_comm _ v]

theorem tenantMember_mem_members : tenantMember a v t ∈ members ks ↔
    ks.agentKey = a ∧ ks.version = some v ∧ ks.tenantID = some t := by
  unfold members
  split
  next h => simp [agentMember_ne_tenantMember.symm, h]
  next w h =>
    split
    next ht => simp [agentMember_ne_tenantMember.symm, versionMember_ne_tenantMember.symm, ht]
    next u ht =>
      simp [agentMember_ne_tenantMember.symm, versionMember_ne_tenantMember.symm, tenantMember_inj,
        h, ht, @eq_comm _ a, @eq_comm _ v, @eq_comm _ t]

end Members

/-! ## The registry -/

/-- The set, and the kills that were set and not cleared. -/
structure Registry where
  set : List Bytes := []
  active : List KillSwitch := []

/-- A call on the switches. -/
inductive Call where
  | setKill (ks : KillSwitch)
  | clearKill (ks : KillSwitch)

namespace Registry

/-- `set_kill` and `clear_kill`. -/
def step (s : Registry) : Call → Registry
  | .setKill ks => ⟨s.set ++ members ks, ks :: s.active⟩
  | .clearKill ks => ⟨s.set.filter (· ∉ members ks), s.active.filter (· ≠ ks)⟩

/-- The lookup agrees with the active kills. -/
def Exact (s : Registry) : Prop :=
  ∀ a v t, isKilled s.set a v t = true ↔ ∃ ks ∈ s.active, ks.Covers a v t

/-- The kill is for one version, and the set has the member of this version, or of its
version and tenant. -/
def Names (set : List Bytes) (ks : KillSwitch) : Prop :=
  ∃ v ∈ ks.onlyVersion, versionMember ks.agentKey v ∈ set ∨
    ∃ t ∈ ks.onlyTenant, tenantMember ks.agentKey v t ∈ set

/-- The calls that keep the lookup exact.  A kill of less than the agent is set only while
a kill of the whole agent is active.  A kill is cleared only if every other kill of its
agent is then still named in the set, and a whole version is named only for a kill of the
whole version. -/
def Clean (s : Registry) : Call → Prop
  | .setKill ks => ks.Wide ∨ ∃ w ∈ s.active, w.agentKey = ks.agentKey ∧ w.Wide
  | .clearKill ks =>
    (∀ r ∈ s.active, r ≠ ks → r.agentKey = ks.agentKey →
      Names (s.set.filter (· ∉ members ks)) r) ∧
    ∀ v, versionMember ks.agentKey v ∈ s.set → ks.version ≠ some v →
      ∃ r ∈ s.active, r ≠ ks ∧ r.agentKey = ks.agentKey ∧ r.onlyVersion = some v ∧
        r.onlyTenant = none

/-- Every member of the set belongs to an active kill. -/
def Traced (s : Registry) : Prop := ∀ m ∈ s.set, ∃ ks ∈ s.active, m ∈ members ks

theorem Traced.step {s : Registry} (h : s.Traced) (c : Call) : (s.step c).Traced := by
  intro m hm
  cases c with
  | setKill ks =>
    obtain hm | hm := List.mem_append.mp hm
    · obtain ⟨r, hr, hmr⟩ := h m hm
      exact ⟨r, List.mem_cons_of_mem _ hr, hmr⟩
    · exact ⟨ks, List.mem_cons_self, hm⟩
  | clearKill ks =>
    obtain ⟨hm, hnot⟩ := List.mem_filter.mp hm
    obtain ⟨r, hr, hmr⟩ := h m hm
    refine ⟨r, List.mem_filter.mpr ⟨hr, ?_⟩, hmr⟩
    simp only [decide_eq_true_eq] at hnot ⊢
    rintro rfl
    exact hnot hmr

/-! ### Lookups after a call -/

section Lookup

variable {s : Registry} {ks : KillSwitch} {a : Bytes} {v : Int} {t : TenantID}

theorem isKilled_iff {set : List Bytes} : isKilled set a v t = true ↔
    agentMember a ∈ set ∨ versionMember a v ∈ set ∨ tenantMember a v t ∈ set := by
  simp [isKilled, lookupKeys]

theorem isKilled_step_of_ne {c : Call} (hc : c = .setKill ks ∨ c = .clearKill ks)
    (ha : ks.agentKey ≠ a) : isKilled (s.step c).set a v t = isKilled s.set a v t := by
  have hagent : agentMember a ∉ members ks := fun h => ha (agentMember_mem_members.mp h)
  have hversion : versionMember a v ∉ members ks := fun h => ha (versionMember_mem_members.mp h).1
  have htenant : tenantMember a v t ∉ members ks := fun h => ha (tenantMember_mem_members.mp h).1
  obtain rfl | rfl := hc <;>
    simp [isKilled, lookupKeys, step, hagent, hversion, htenant]

theorem covers_step_of_ne {c : Call} (hc : c = .setKill ks ∨ c = .clearKill ks)
    (ha : ks.agentKey ≠ a) : (∃ r ∈ (s.step c).active, r.Covers a v t) ↔
      ∃ r ∈ s.active, r.Covers a v t := by
  have hks : ¬ ks.Covers a v t := fun h => ha h.1
  obtain rfl | rfl := hc
  · simp [step, hks]
  · constructor
    · rintro ⟨r, hr, hcovers⟩
      exact ⟨r, (List.mem_filter.mp hr).1, hcovers⟩
    · rintro ⟨r, hr, hcovers⟩
      refine ⟨r, List.mem_filter.mpr ⟨hr, ?_⟩, hcovers⟩
      simp only [decide_eq_true_eq]
      rintro rfl
      exact hks hcovers

theorem isKilled_setKill : isKilled (s.step (.setKill ks)).set ks.agentKey v t = true :=
  isKilled_iff.mpr (.inl (List.mem_append_right _ (agentMember_mem_members.mpr rfl)))

theorem isKilled_clearKill : isKilled (s.step (.clearKill ks)).set ks.agentKey v t = true ↔
    versionMember ks.agentKey v ∈ s.set.filter (· ∉ members ks) ∨
      tenantMember ks.agentKey v t ∈ s.set.filter (· ∉ members ks) := by
  have hgone : agentMember ks.agentKey ∉ s.set.filter (· ∉ members ks) := by
    simp [agentMember_mem_members.mpr rfl]
  rw [isKilled_iff]
  exact ⟨fun h => h.resolve_left hgone, .inr⟩

end Lookup

/-! ### Versions and tenants that no kill names -/

theorem exists_version (ks : List KillSwitch) : ∃ v : Int, ∀ r ∈ ks, r.version ≠ some v := by
  obtain ⟨v, hv⟩ := (ks.filterMap (·.version)).toFinset.exists_notMem
  refine ⟨v, fun r hr h => hv ?_⟩
  simpa using ⟨r, hr, h⟩

/-- A tenant id for every number. -/
def numbered (n : Nat) : TenantID where
  text := itoa n
  text_ne_nil := itoa_ne_nil n
  colon_not_mem := not_mem_itoa rfl n

instance : Infinite TenantID :=
  Infinite.of_injective numbered fun _ _ h => itoa_injective (congrArg TenantID.text h)

theorem exists_tenant (ks : List KillSwitch) : ∃ t : TenantID, ∀ r ∈ ks, r.tenantID ≠ some t := by
  obtain ⟨t, ht⟩ := (ks.filterMap (·.tenantID)).toFinset.exists_notMem
  refine ⟨t, fun r hr h => ht ?_⟩
  simpa using ⟨r, hr, h⟩

section Exactness

variable {s : Registry} {ks : KillSwitch}

/-- What covers a version that no kill names is not for one version, and the same for
tenants. -/
theorem onlyVersion_eq_none {r : KillSwitch} {a : Bytes}
    (h : r.Covers a v t) (hv : r.version ≠ some v) : r.onlyVersion = none := by
  cases hr : r.onlyVersion with
  | none => rfl
  | some w =>
    obtain rfl := h.2.1 w hr
    exact absurd (KillSwitch.onlyVersion_eq_some hr) hv

theorem onlyTenant_eq_none {r : KillSwitch} {a : Bytes}
    (h : r.Covers a v t) (ht : r.tenantID ≠ some t) : r.onlyTenant = none := by
  cases hr : r.onlyTenant with
  | none => rfl
  | some u =>
    obtain rfl := h.2.2 u hr
    exact absurd (KillSwitch.onlyTenant_eq_some hr) ht

theorem exact_step_iff (h : s.Exact) {c : Call} (hc : c = .setKill ks ∨ c = .clearKill ks) :
    (s.step c).Exact ↔ ∀ v t, isKilled (s.step c).set ks.agentKey v t = true ↔
      ∃ r ∈ (s.step c).active, r.Covers ks.agentKey v t := by
  refine ⟨fun hexact => hexact ks.agentKey, fun hexact a v t => ?_⟩
  by_cases ha : ks.agentKey = a
  · subst ha
    exact hexact v t
  · rw [isKilled_step_of_ne hc ha, covers_step_of_ne hc ha]
    exact h a v t

theorem exact_setKill_iff (h : s.Exact) : (s.step (.setKill ks)).Exact ↔ s.Clean (.setKill ks) := by
  rw [exact_step_iff h (.inl rfl)]
  simp only [isKilled_setKill, true_iff]
  constructor
  · intro hcovered
    obtain ⟨v, hv⟩ := exists_version (ks :: s.active)
    obtain ⟨t, ht⟩ := exists_tenant (ks :: s.active)
    obtain ⟨r, hr, hcovers⟩ := hcovered v t
    have hwide : r.Wide := ⟨onlyVersion_eq_none hcovers (hv r hr),
        onlyTenant_eq_none hcovers (ht r hr)⟩
    obtain rfl | hr := List.mem_cons.mp hr
    · exact .inl hwide
    · exact .inr ⟨r, hr, hcovers.1, hwide⟩
  · rintro (hwide | ⟨w, hw, ha, hwide⟩) v t
    · exact ⟨ks, List.mem_cons_self, hwide.covers v t⟩
    · exact ⟨w, List.mem_cons_of_mem _ hw, ha ▸ hwide.covers v t⟩

theorem mem_active_clearKill {r : KillSwitch} :
    r ∈ (s.step (.clearKill ks)).active ↔ r ∈ s.active ∧ r ≠ ks := by
  simp [step]

theorem mem_clearKill {m : Bytes} :
    m ∈ s.set.filter (· ∉ members ks) ↔ m ∈ s.set ∧ m ∉ members ks := by
  simp

theorem exact_clearKill_iff (htraced : s.Traced) (h : s.Exact) :
    (s.step (.clearKill ks)).Exact ↔ s.Clean (.clearKill ks) := by
  rw [exact_step_iff h (.inr rfl)]
  simp only [isKilled_clearKill]
  have htraced := htraced.step (.clearKill ks)
  set left := s.set.filter (· ∉ members ks) with hleft
  constructor
  · intro hexact
    -- a version and a tenant that no kill names
    obtain ⟨v₀, hv₀⟩ := exists_version s.active
    obtain ⟨t₀, ht₀⟩ := exists_tenant s.active
    have hnamed : ∀ r ∈ s.active, r ≠ ks → r.agentKey = ks.agentKey → ∃ v,
        r.onlyVersion = some v := by
      intro r hr hne ha
      cases hv : r.onlyVersion with
      | some v => exact ⟨v, rfl⟩
      | none =>
        -- no member is left of the version `v₀`
        have hcovers : r.Covers ks.agentKey v₀ (r.onlyTenant.getD t₀) := by
          refine ⟨ha, fun v h => ?_, fun t h => ?_⟩
          · rw [hv] at h
            cases h
          · rw [Option.mem_def.mp h, Option.getD_some]
        have hkilled := (hexact v₀ _).mpr ⟨r, mem_active_clearKill.mpr ⟨hr, hne⟩, hcovers⟩
        obtain hm | hm := hkilled
        · obtain ⟨q, hq, hmq⟩ := htraced _ hm
          exact absurd (versionMember_mem_members.mp hmq).2 (hv₀ q (mem_active_clearKill.mp hq).1)
        · obtain ⟨q, hq, hmq⟩ := htraced _ hm
          exact absurd (tenantMember_mem_members.mp hmq).2.1 (hv₀ q (mem_active_clearKill.mp hq).1)
    refine ⟨fun r hr hne ha => ?_, fun v hm hv => ?_⟩
    · obtain ⟨v, hv⟩ := hnamed r hr hne ha
      refine ⟨v, hv, ?_⟩
      rw [ha]
      have hcovers : ∀ t, (∀ u ∈ r.onlyTenant, u = t) → r.Covers ks.agentKey v t := fun t ht =>
        ⟨ha, fun w hw => Option.some.inj (hw.symm.trans hv), ht⟩
      cases ht : r.onlyTenant with
      | some t =>
        have hkilled := (hexact v t).mpr ⟨r, mem_active_clearKill.mpr ⟨hr, hne⟩,
          hcovers t fun u hu => Option.some.inj (hu.symm.trans ht)⟩
        exact hkilled.imp_right fun h => ⟨t, rfl, h⟩
      | none =>
        have hkilled := (hexact v t₀).mpr ⟨r, mem_active_clearKill.mpr ⟨hr, hne⟩,
          hcovers t₀ fun u hu => by rw [ht] at hu; cases hu⟩
        refine .inl (hkilled.resolve_right fun hm => ?_)
        obtain ⟨q, hq, hmq⟩ := htraced _ hm
        exact ht₀ q (mem_active_clearKill.mp hq).1 (tenantMember_mem_members.mp hmq).2.2
    · have hm : versionMember ks.agentKey v ∈ left :=
        mem_clearKill.mpr ⟨hm, fun h => hv (versionMember_mem_members.mp h).2⟩
      obtain ⟨r, hr, hcovers⟩ := (hexact v t₀).mp (.inl hm)
      obtain ⟨hr, hne⟩ := mem_active_clearKill.mp hr
      obtain ⟨w, hw⟩ := hnamed r hr hne hcovers.1
      obtain rfl := hcovers.2.1 w hw
      exact ⟨r, hr, hne, hcovers.1, hw, onlyTenant_eq_none hcovers (ht₀ r hr)⟩
  · rintro ⟨hnames, hwhole⟩ v t
    constructor
    · rintro (hm | hm)
      · obtain ⟨hm, hnot⟩ := mem_clearKill.mp hm
        obtain ⟨r, hr, hne, ha, hv, ht⟩ := hwhole v hm fun h =>
          hnot (versionMember_mem_members.mpr ⟨rfl, h⟩)
        refine ⟨r, mem_active_clearKill.mpr ⟨hr, hne⟩, ha, fun w hw => ?_, fun u hu => ?_⟩
        · exact Option.some.inj (hw.symm.trans hv)
        · rw [ht] at hu
          cases hu
      · obtain ⟨r, hr, hmr⟩ := htraced _ hm
        obtain ⟨ha, hv, ht⟩ := tenantMember_mem_members.mp hmr
        exact ⟨r, hr, ha ▸ KillSwitch.covers_stored hv ht⟩
    · rintro ⟨r, hr, hcovers⟩
      obtain ⟨hr, hne⟩ := mem_active_clearKill.mp hr
      obtain ⟨w, hw, hm⟩ := hnames r hr hne hcovers.1
      obtain rfl := hcovers.2.1 w hw
      rw [hcovers.1] at hm
      refine hm.imp_right ?_
      rintro ⟨u, hu, hm⟩
      obtain rfl := hcovers.2.2 u hu
      exact hm

end Exactness

end Registry

open Registry

/-- The lookup is exact in every state of a run exactly when every call is clean. -/
theorem kills_exact_iff (calls : List Call) :
    Always step Exact {} calls ↔ Each step Clean {} calls := by
  have hstep : ∀ (s : Registry) c, s.Traced ∧ s.Exact →
      ((s.step c).Traced ∧ (s.step c).Exact ↔ s.Clean c) := by
    rintro s c ⟨htraced, hexact⟩
    rw [and_iff_right (htraced.step c)]
    cases c with
    | setKill ks => exact exact_setKill_iff hexact
    | clearKill ks => exact exact_clearKill_iff htraced hexact
  have hinit : ({} : Registry).Traced ∧ ({} : Registry).Exact :=
    ⟨nofun, fun a v t => by simp [isKilled, lookupKeys]⟩
  rw [← always_iff_each hstep hinit calls]
  refine ⟨fun h done hdone => ⟨?_, h done hdone⟩, fun h done hdone => (h done hdone).2⟩
  exact run_invariant (P := Traced) (fun s c hs => hs.step c) hinit.1 done

/-! ## A kill of one tenant -/

/-- Version 3 of an agent is killed for the tenant 42. -/
def sampleKill : KillSwitch where
  killID := bytes "k1"
  scope := .agentVersionTenant
  agentKey := bytes "case-triage"
  version := some 3
  tenantID := some (numbered 42)

/-- The kill stops the agent for the tenant 43 as well. -/
theorem kill_stops_other_tenant : ¬ Always step Exact {} [.setKill sampleKill] := by
  intro h
  have hexact := h [.setKill sampleKill] List.prefix_rfl (bytes "case-triage") 3 (numbered 43)
  obtain ⟨ks, hks, hcovers⟩ := hexact.mp (by decide)
  obtain rfl := List.mem_singleton.mp hks
  exact absurd (hcovers.2.2 (numbered 42) rfl) (by decide)

end Windrose.Agents

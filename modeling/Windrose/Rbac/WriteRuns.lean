/-
  Rbac/WriteRuns.lean --- what interleaved writers leave in Redis.

  Source: services/rbac-service/internal/projection/redis.go (WriteUser) and
  reader.go (RedisReader).

  The phase of a call says which writes it has attempted.  `Settled` is the invariant of all
  interleavings: every key holds the attempt with the highest version.
-/
import Windrose.Rbac.WriteUser

set_option autoImplicit false

namespace Windrose.Rbac

open Windrose.Foundation

namespace Calls

/-! ## Attempts -/

section Attempts

variable {ι : Type} (calls : Calls ι)

/-- A call in this phase has attempted to write `val` to `key`. -/
def AttemptedIn (c : ι) (key : Bytes) (val : Value) : Phase → Prop
  | .writing auto old todo gc =>
    (((calls.flat c).pairs auto).lookup key = some val ∧ todo.lookup key = none) ∨
      (∃ buried, calls.stale c auto old = buried ++ gc ∧ key ∈ buried) ∧
        val = (calls.flat c).tomb
  | .finished auto old =>
    ((calls.flat c).pairs auto).lookup key = some val ∨
      key ∈ calls.stale c auto old ∧ val = (calls.flat c).tomb ∨
      key = keyIndex calls.tenantID.text calls.userID ∧ val = (calls.flat c).indexValue auto
  | _ => False

/-- What is still to write and to bury is what the call began with. -/
def PhaseOk (c : ι) : Phase → Prop
  | .writing auto old todo gc =>
    (∀ key val, todo.lookup key = some val →
      ((calls.flat c).pairs auto).lookup key = some val) ∧
    ∃ buried, calls.stale c auto old = buried ++ gc
  | _ => True

/-- The call `c` has attempted to write `val` to `key`. -/
def Attempted (w : World ι) (c : ι) (key : Bytes) (val : Value) : Prop :=
  calls.AttemptedIn c key val (w.phase c)

/-- The version of the call as the script reads it. -/
def number (c : ι) : Int := toDouble (calls.flat c).version

variable {calls} {c : ι} {key : Bytes} {val : Value}

theorem AttemptedIn.version {p : Phase} (h : calls.AttemptedIn c key val p) :
    val.version = some (calls.flat c).version := by
  have hpair : ∀ auto, ((calls.flat c).pairs auto).lookup key = some val →
      val.version = some (calls.flat c).version :=
    fun auto hp => Flat.version_of_mem_pairList (mem_of_lookup_mapOf hp)
  cases p with
  | idle => exact h.elim
  | begun auto => exact h.elim
  | writing auto old todo gc =>
    obtain ⟨hp, -⟩ | ⟨-, rfl⟩ := h
    · exact hpair auto hp
    · rfl
  | finished auto old =>
    obtain hp | ⟨-, rfl⟩ | ⟨-, rfl⟩ := h
    · exact hpair auto hp
    · rfl
    · rfl

theorem AttemptedIn.rank {p : Phase} (h : calls.AttemptedIn c key val p) :
    val.rank = (calls.number c : WithBot Int) := by
  unfold Value.rank number
  rw [h.version]
  rfl

/-! ## The phases -/

theorem not_attemptedIn_read (auto : Bool) (old : List Bytes) : ¬calls.AttemptedIn c key val
      (.writing auto old ((calls.flat c).pairs auto) (calls.stale c auto old)) := by
  rintro (⟨hsome, hnone⟩ | ⟨⟨buried, hsplit, hmem⟩, -⟩)
  · rw [hsome] at hnone
    cases hnone
  · have hnil : buried = [] := List.append_left_eq_self.mp hsplit.symm
    rw [hnil] at hmem
    cases hmem

variable {todo : GoMap Bytes Value}

theorem attemptedIn_write {auto : Bool} {old gc : List Bytes}
    {j : Bytes} {u : Value} (hok : calls.PhaseOk c (.writing auto old todo gc))
    (hkey : todo.lookup key = some val) :
    calls.AttemptedIn c j u (.writing auto old (todo.erase key) gc) ↔
      calls.AttemptedIn c j u (.writing auto old todo gc) ∨ j = key ∧ u = val := by
  have hpair := hok.1 key val hkey
  unfold AttemptedIn
  by_cases hj : j = key
  · subst hj
    simp only [hpair, hkey, AList.lookup_erase, Option.some.injEq, reduceCtorEq, and_false,
      false_or, and_true, true_and]
    rw [or_comm, @eq_comm _ val u, or_comm]
  · simp only [hj, false_and, or_false, AList.lookup_erase_ne hj]

theorem attemptedIn_bury {auto : Bool} {old gc : List Bytes}
    {j : Bytes} {u : Value} (hok : calls.PhaseOk c (.writing auto old todo (key :: gc))) :
    calls.AttemptedIn c j u (.writing auto old todo gc) ↔
      calls.AttemptedIn c j u (.writing auto old todo (key :: gc)) ∨
        j = key ∧ u = (calls.flat c).tomb := by
  obtain ⟨-, buried, hburied⟩ := hok
  have hbefore : (∃ b, calls.stale c auto old = b ++ key :: gc ∧ j ∈ b) ↔ j ∈ buried := by
    constructor
    · rintro ⟨b, hb, hj⟩
      rw [List.append_cancel_right (hburied.symm.trans hb)]
      exact hj
    · intro hj
      exact ⟨buried, hburied, hj⟩
  have hafter : (∃ b, calls.stale c auto old = b ++ gc ∧ j ∈ b) ↔ j ∈ buried ∨ j = key := by
    rw [← List.mem_singleton (b := key), ← List.mem_append]
    have hsplit : calls.stale c auto old = (buried ++ [key]) ++ gc := by
      rw [hburied, List.append_assoc]
      rfl
    constructor
    · rintro ⟨b, hb, hj⟩
      rw [List.append_cancel_right (hsplit.symm.trans hb)]
      exact hj
    · intro hj
      exact ⟨buried ++ [key], hsplit, hj⟩
  simp only [AttemptedIn]
  rw [hbefore, hafter, or_and_right, or_assoc]

theorem lookup_of_keys_nil {m : GoMap Bytes Value} (h : m.keys = []) (j : Bytes) :
    m.lookup j = none := by
  rw [AList.lookup_eq_none, AList.mem_keys, h]
  exact List.not_mem_nil

theorem attemptedIn_finish {auto : Bool} {old : List Bytes}
    {j : Bytes} {u : Value} (htodo : todo.keys = []) :
    calls.AttemptedIn c j u (.finished auto old) ↔
      calls.AttemptedIn c j u (.writing auto old todo []) ∨
        j = keyIndex calls.tenantID.text calls.userID ∧ u = (calls.flat c).indexValue auto := by
  have hburied : (∃ b, calls.stale c auto old = b ++ [] ∧ j ∈ b) ↔ j ∈ calls.stale c auto old := by
    simp
  unfold AttemptedIn
  simp only [lookup_of_keys_nil htodo, and_true, hburied, or_assoc]

end Attempts

/-! ## Effects -/

section Effects

variable {ι : Type} [DecidableEq ι] {calls : Calls ι} {w : World ι}

/-- What a command does: it writes nothing and makes no attempt, or it is one attempt. -/
inductive Effect (calls : Calls ι) (w w' : World ι) : Prop where
  | quiet (store : w'.store = w.store)
      (attempts : ∀ d j u, calls.Attempted w' d j u ↔ calls.Attempted w d j u)
  | attempt (c : ι) (key : Bytes) (val : Value)
      (version : val.version = some (calls.flat c).version)
      (store : w'.store = casSet w.store key val (calls.flat c).version)
      (attempts : ∀ d j u, calls.Attempted w' d j u ↔
        calls.Attempted w d j u ∨ d = c ∧ j = key ∧ u = val)

theorem effect_setPhase {c : ι} {p : Phase}
    (h : ∀ j u, calls.AttemptedIn c j u p ↔ calls.AttemptedIn c j u (w.phase c)) :
    Effect calls w (w.setPhase c p) := by
  refine .quiet rfl fun d j u => ?_
  unfold Attempted World.setPhase
  by_cases hd : d = c
  · subst hd
    simpa using h j u
  · simp [Function.update_of_ne hd]

theorem effect_write {c : ι} {key : Bytes} {val : Value} {p : Phase}
    (hversion : val.version = some (calls.flat c).version) (h : ∀ j u, calls.AttemptedIn c j u p ↔
      calls.AttemptedIn c j u (w.phase c) ∨ j = key ∧ u = val) :
    Effect calls w (w.write c key val (calls.flat c).version p) := by
  refine .attempt c key val hversion rfl fun d j u => ?_
  unfold Attempted World.write
  by_cases hd : d = c
  · subst hd
    simpa using h j u
  · simp [hd]

/-- What a command does, and what it keeps: the phases are well formed, and old keys are
found in the index. -/
structure Sound (calls : Calls ι) (w w' : World ι) : Prop where
  effect : Effect calls w w'
  phases : ∀ c, calls.PhaseOk c (w'.phase c)
  old : ∀ c, ∀ key ∈ (w'.phase c).oldKeys, key ∈ (w.phase c).oldKeys ∨
    key ∈ readIndex w.store calls.tenantID.text calls.userID

theorem sound_move (hok : ∀ c, calls.PhaseOk c (w.phase c)) {w' : World ι} {c : ι} {p : Phase}
    (hmove : w'.phase = Function.update w.phase c p) (heffect : Effect calls w w')
    (hp : calls.PhaseOk c p) (hold : ∀ key ∈ p.oldKeys, key ∈ (w.phase c).oldKeys ∨
      key ∈ readIndex w.store calls.tenantID.text calls.userID) : Sound calls w w' := by
  refine ⟨heffect, fun d => ?_, fun d => ?_⟩
  · rw [hmove]
    by_cases hd : d = c
    · subst hd
      rwa [Function.update_self]
    · rw [Function.update_of_ne hd]
      exact hok d
  · rw [hmove]
    by_cases hd : d = c
    · subst hd
      rwa [Function.update_self]
    · rw [Function.update_of_ne hd]
      exact fun _ => .inl

theorem step_sound (hok : ∀ c, calls.PhaseOk c (w.phase c)) (cmd : Command ι) :
    Sound calls w (calls.step w cmd) := by
  have hquiet : Sound calls w w := ⟨.quiet rfl fun _ _ _ => Iff.rfl, hok, fun _ _ => .inl⟩
  unfold step
  cases cmd with
  | start c =>
    simp only
    split
    · next hp =>
      refine sound_move hok rfl (effect_setPhase fun j u => ?_) trivial nofun
      rw [hp]
      exact Iff.rfl
    · exact hquiet
  | readIndex c =>
    simp only
    split
    · next auto hp =>
      refine sound_move hok rfl (effect_setPhase fun j u => ?_) ⟨fun _ _ h => h, [], rfl⟩
        fun _ => .inr
      rw [hp]
      exact iff_of_false (not_attemptedIn_read auto _) not_false
    · exact hquiet
  | write c key =>
    simp only
    split
    · next auto old todo gc hp =>
      have hc := hok c
      rw [hp] at hc
      split
      · next val hkey =>
        have hversion := Flat.version_of_mem_pairList (mem_of_lookup_mapOf (hc.1 key val hkey))
        refine sound_move hok rfl (effect_write hversion fun j u => ?_)
          ⟨fun j u hj => ?_, hc.2⟩ (hp ▸ fun _ => .inl)
        · rw [hp]
          exact attemptedIn_write hc hkey
        · by_cases hjk : j = key
          · subst hjk
            rw [AList.lookup_erase] at hj
            cases hj
          · rw [AList.lookup_erase_ne hjk] at hj
            exact hc.1 j u hj
      · exact hquiet
    · exact hquiet
  | bury c =>
    simp only
    split
    · next auto old todo key gc hp =>
      have hc := hok c
      rw [hp] at hc
      split
      · refine sound_move hok rfl (effect_write rfl fun j u => ?_) ⟨hc.1, ?_⟩
          (hp ▸ fun _ => .inl)
        · rw [hp]
          exact attemptedIn_bury hc
        · obtain ⟨buried, hburied⟩ := hc.2
          refine ⟨buried ++ [key], ?_⟩
          rw [hburied, List.append_assoc]
          rfl
      · exact hquiet
    · exact hquiet
  | finish c =>
    simp only
    split
    · next auto old todo hp =>
      split
      · next htodo =>
        refine sound_move hok rfl (effect_write rfl fun j u => ?_) trivial (hp ▸ fun _ => .inl)
        rw [hp]
        exact attemptedIn_finish htodo
      · exact hquiet
    · exact hquiet

end Effects

/-! ## The invariant of all interleavings -/

section Settled

variable {ι : Type} {calls : Calls ι} {w : World ι} {store0 : Store}

/-- Redis has no entry of the user yet. -/
def Fresh (calls : Calls ι) (store : Store) : Prop :=
  ∀ suffix, store (bytes "perm:" ++ calls.tenantID.text ++ bytes ":" ++ calls.userID ++
    58 :: suffix) = none

theorem Fresh.workspace (h : Fresh calls store0) (text : Bytes) :
    store0 (keyWorkspace calls.tenantID.text calls.userID text) = none := by
  unfold keyWorkspace
  rw [List.append_assoc]
  exact h (bytes "ws:" ++ text)

theorem Fresh.resource (h : Fresh calls store0) (hash : Bytes) :
    store0 (keyResource calls.tenantID.text calls.userID hash) = none := by
  unfold keyResource
  rw [List.append_assoc]
  exact h (bytes "res:" ++ hash)

/-- Every key holds the highest attempt, and the old keys of a call are keys of calls. -/
structure Settled (calls : Calls ι) (store0 : Store) (w : World ι) : Prop where
  phases : ∀ c, calls.PhaseOk c (w.phase c)
  cells : ∀ key, store0 key = none →
    Newest Value.rank {val | ∃ c, calls.Attempted w c key val} (w.store key)
  old : ∀ c, ∀ key ∈ (w.phase c).oldKeys, ∃ d auto, key ∈ (calls.flat d).subsidiary auto

theorem mem_oldKeys_of_stale {c : ι} {auto : Bool} {old : List Bytes} {key : Bytes}
    (h : key ∈ calls.stale c auto old) : key ∈ old ∧ key ∉ (calls.flat c).subsidiary auto := by
  simpa [stale] using h

theorem Settled.not_mem_oldKeys (h : Settled calls store0 w) {key : Bytes} {x : UInt8}
    (htag : keyTag calls.tenantID.text calls.userID key = (some 112, some x)) (hws : x ≠ 119)
    (hres : x ≠ 114) (c : ι) : key ∉ (w.phase c).oldKeys := by
  intro hmem
  obtain ⟨d, auto, hsub⟩ := h.old c key hmem
  have hkind := Flat.keyTag_of_mem_subsidiary hsub
  rw [calls.tenant_eq d, calls.user_eq d, htag] at hkind
  simp [hws, hres] at hkind

theorem Settled.index (h : Settled calls store0 w) (hfresh : Fresh calls store0) {key : Bytes}
    (hmem : key ∈ readIndex w.store calls.tenantID.text calls.userID) :
    ∃ d auto, key ∈ (calls.flat d).subsidiary auto := by
  unfold readIndex at hmem
  have hcell := h.cells (keyIndex calls.tenantID.text calls.userID) (hfresh (bytes "index"))
  cases hval : w.store (keyIndex calls.tenantID.text calls.userID) with
  | none =>
    rw [hval] at hmem
    cases hmem
  | some val =>
    rw [hval] at hmem hcell
    obtain ⟨⟨c, hattempt⟩, -⟩ := hcell
    have hnot := h.not_mem_oldKeys keyTag_index (by decide) (by decide) c
    have hpairs : ∀ auto, ((calls.flat c).pairs auto).lookup
        (keyIndex calls.tenantID.text calls.userID) ≠ some val := by
      intro auto hp
      rw [← calls.tenant_eq c, ← calls.user_eq c, Flat.lookup_pairs_index] at hp
      cases hp
    unfold Attempted at hattempt
    cases hphase : w.phase c with
    | idle =>
      rw [hphase] at hattempt
      exact hattempt.elim
    | begun auto =>
      rw [hphase] at hattempt
      exact hattempt.elim
    | writing auto old todo gc =>
      rw [hphase] at hattempt hnot
      obtain ⟨hp, -⟩ | ⟨⟨buried, hsplit, hb⟩, -⟩ := hattempt
      · exact absurd hp (hpairs auto)
      · have hstale : keyIndex calls.tenantID.text calls.userID ∈ calls.stale c auto old := by
          rw [hsplit]
          exact List.mem_append_left gc hb
        exact absurd (mem_oldKeys_of_stale hstale).1 hnot
    | finished auto old =>
      rw [hphase] at hattempt hnot
      obtain hp | ⟨hb, -⟩ | ⟨-, rfl⟩ := hattempt
      · exact absurd hp (hpairs auto)
      · exact absurd (mem_oldKeys_of_stale hb).1 hnot
      · exact ⟨c, auto, hmem⟩

theorem settled_init : Settled calls store0 (init store0) := by
  refine ⟨fun c => trivial, ?_, ?_⟩
  · intro key hnone
    change Newest Value.rank _ (store0 key)
    rw [hnone]
    exact Set.eq_empty_of_forall_notMem fun val ⟨c, h⟩ => h
  · intro c key hmem
    cases hmem

end Settled

section Runs

variable {ι : Type} [DecidableEq ι] {calls : Calls ι} {w : World ι} {store0 : Store}

theorem Settled.step (hfresh : Fresh calls store0) (h : Settled calls store0 w)
    (cmd : Command ι) : Settled calls store0 (calls.step w cmd) := by
  obtain ⟨heffect, hphases, hold⟩ := step_sound h.phases cmd
  refine ⟨hphases, ?_, ?_⟩
  · intro key hnone
    have hcell := h.cells key hnone
    cases heffect with
    | quiet store attempts =>
      simp only [attempts, store]
      exact hcell
    | attempt c j val version store attempts =>
      simp only [attempts]
      rw [store, casSet_eq version]
      by_cases hkey : key = j
      · subst hkey
        rw [Function.update_self]
        have hset : {u | ∃ d, calls.Attempted w d key u ∨ d = c ∧ key = key ∧ u = val} =
            insert val {u | ∃ d, calls.Attempted w d key u} := by
          ext u
          simp [exists_or, or_comm]
        rw [hset]
        exact hcell.insert val
      · rw [Function.update_of_ne hkey]
        simpa [hkey] using hcell
  · intro c key hmem
    obtain hmem | hmem := hold c key hmem
    · exact h.old c key hmem
    · exact h.index hfresh hmem

theorem settled_run (hfresh : Fresh calls store0) (cmds : List (Command ι)) :
    Settled calls store0 (run calls.step (init store0) cmds) :=
  run_invariant (fun _ cmd h => h.step hfresh cmd) settled_init cmds

end Runs

/-! ## When all calls have finished -/

section Finished

variable {ι : Type} {calls : Calls ι} {w : World ι} {store0 : Store}

variable {c : ι}

theorem exists_of_finished (calls : Calls ι) (h : (w.phase c).isFinished = true) :
    ∃ auto, ∀ key val, calls.Attempted w c key val ↔
      ((calls.flat c).pairs auto).lookup key = some val ∨
        (key ∈ (w.phase c).oldKeys ∧ key ∉ (calls.flat c).subsidiary auto ∧
          val = (calls.flat c).tomb) ∨
        key = keyIndex calls.tenantID.text calls.userID ∧ val = (calls.flat c).indexValue auto := by
  unfold Attempted
  cases hp : w.phase c with
  | idle =>
    rw [hp] at h
    cases h
  | begun auto =>
    rw [hp] at h
    cases h
  | writing auto old todo gc =>
    rw [hp] at h
    cases h
  | finished auto old =>
    refine ⟨auto, fun key val => ?_⟩
    simp only [AttemptedIn, stale, List.mem_filter, decide_eq_true_eq, Phase.oldKeys, and_assoc]

variable {key : Bytes} {val : Value}

theorem Settled.store_eq (h : Settled calls store0 w)
    (hdone : ∀ d, (w.phase d).isFinished = true)
    (hnewest : ∀ d, d ≠ c → calls.number d < calls.number c)
    (hnone : store0 key = none)
    (hpairs : ∀ auto, ((calls.flat c).pairs auto).lookup key = some val) :
    w.store key = some val := by
  obtain ⟨auto, hattempts⟩ := exists_of_finished calls (hdone c)
  have hmine : calls.Attempted w c key val := (hattempts key val).mpr (.inl (hpairs auto))
  refine (h.cells key hnone).eq_some ⟨c, hmine⟩ ?_
  rintro other ⟨d, hother⟩ hne
  have hd : d ≠ c := by
    rintro rfl
    obtain hp | ⟨hold, hsub, -⟩ | ⟨rfl, -⟩ := (hattempts key other).mp hother
    · rw [hpairs auto, Option.some.injEq] at hp
      exact hne hp.symm
    · -- A key of the actions or flags is in no index.
      have hkind := Flat.keyTag_of_lookup_pairs (hpairs auto)
      rw [calls.tenant_eq d, calls.user_eq d] at hkind
      obtain hmem | htag | htag := hkind
      · exact hsub hmem
      · exact h.not_mem_oldKeys htag (by decide) (by decide) d hold
      · exact h.not_mem_oldKeys htag (by decide) (by decide) d hold
    · have hindex := hpairs auto
      rw [← calls.tenant_eq d, ← calls.user_eq d, Flat.lookup_pairs_index] at hindex
      cases hindex
  rw [hother.rank, hmine.rank, WithBot.coe_lt_coe]
  exact hnewest d hd

/-- The keys of workspaces and of resources. -/
def GrantKey (calls : Calls ι) (key : Bytes) : Prop :=
  keyTag calls.tenantID.text calls.userID key = (some 112, some 119) ∨
    keyTag calls.tenantID.text calls.userID key = (some 112, some 114)

theorem grantKey_ne_index (h : GrantKey calls key) :
    key ≠ keyIndex calls.tenantID.text calls.userID := by
  rintro rfl
  obtain h | h := h <;> rw [keyTag_index] at h <;> cases h

theorem mem_subsidiary_iff_of_grantKey (h : GrantKey calls key) (c : ι)
    (auto : Bool) : key ∈ (calls.flat c).subsidiary auto ↔ key ∈ (calls.flat c).grantKeys := by
  constructor
  · intro hmem
    obtain ⟨-, hgrant⟩ | hhead := Flat.keyTag_of_mem_subsidiary hmem
    · exact hgrant
    · rw [calls.tenant_eq c, calls.user_eq c] at hhead
      obtain h | h := h <;> rw [h] at hhead <;> cases hhead
  · intro hmem
    exact List.mem_append_left _ hmem

theorem exists_lookup_of_grantKey (h : key ∈ (calls.flat c).grantKeys)
    (auto : Bool) :
    ∃ val, ((calls.flat c).pairs auto).lookup key = some val ∧ val.deleted = false := by
  unfold Flat.grantKeys at h
  obtain ⟨⟨key', val⟩, hpair, rfl⟩ := List.mem_map.mp h
  obtain hws | hres := List.mem_append.mp hpair
  · obtain ⟨u, e, he, rfl, -⟩ := Flat.mem_wsPairs.mp hws
    exact ⟨_, Flat.lookup_pairs_workspace.mpr ⟨u, e, rfl, he, rfl⟩, rfl⟩
  · obtain ⟨g, e, he, rfl, -⟩ := Flat.mem_resPairs.mp hres
    exact ⟨_, Flat.lookup_pairs_resource.mpr ⟨e, he, rfl⟩, rfl⟩

theorem of_lookup_grantKey (h : GrantKey calls key) {auto : Bool}
    (hval : ((calls.flat c).pairs auto).lookup key = some val) :
    val.deleted = false ∧ key ∈ (calls.flat c).grantKeys := by
  have hkind := Flat.keyTag_of_lookup_pairs hval
  rw [calls.tenant_eq c, calls.user_eq c, mem_subsidiary_iff_of_grantKey h] at hkind
  have hmem : key ∈ (calls.flat c).grantKeys := by
    obtain hmem | htag | htag := hkind
    · exact hmem
    · obtain h | h := h <;> rw [h] at htag <;> cases htag
    · obtain h | h := h <;> rw [h] at htag <;> cases htag
  obtain ⟨other, hother, hlive⟩ := exists_lookup_of_grantKey hmem auto
  rw [hval, Option.some.injEq] at hother
  subst hother
  exact ⟨hlive, hmem⟩

/-- A grant key is hidden exactly when every call that writes it is outranked by one
that found it in the index and does not have it. -/
theorem Settled.live_eq_none_iff (h : Settled calls store0 w)
    (hdone : ∀ d, (w.phase d).isFinished = true)
    (hnum : ∀ c d, calls.number c = calls.number d → c = d)
    (hkey : GrantKey calls key) (hnone : store0 key = none) :
    live (w.store key) = none ↔ ∀ c, key ∈ (calls.flat c).grantKeys →
      ∃ d, calls.number c < calls.number d ∧ key ∈ (w.phase d).oldKeys ∧
        key ∉ (calls.flat d).grantKeys := by
  have hcell := h.cells key hnone
  constructor
  · intro hlive c hmem
    obtain ⟨auto, hattempts⟩ := exists_of_finished calls (hdone c)
    obtain ⟨val, hval, -⟩ := exists_lookup_of_grantKey hmem auto
    have hmine : calls.Attempted w c key val := (hattempts key val).mpr (.inl hval)
    cases hstore : w.store key with
    | none =>
      rw [hstore] at hcell
      have hempty : {u | ∃ d, calls.Attempted w d key u} = ∅ := hcell
      exact absurd (hempty ▸ ⟨c, hmine⟩ : val ∈ (∅ : Set Value)) (Set.notMem_empty val)
    | some top =>
      rw [hstore] at hcell hlive
      obtain ⟨⟨d, htop⟩, hmax⟩ := hcell
      have hle : calls.number c ≤ calls.number d := by
        have hrank := hmax val ⟨c, hmine⟩
        rw [hmine.rank, htop.rank, WithBot.coe_le_coe] at hrank
        exact hrank
      obtain ⟨auto', hattempts'⟩ := exists_of_finished calls (hdone d)
      obtain hp | ⟨hold, hsub, -⟩ | ⟨hindex, -⟩ := (hattempts' key top).mp htop
      · have hshown : live (some top) = some top := by
          simp [live, (of_lookup_grantKey hkey hp).1]
        rw [hshown] at hlive
        cases hlive
      · rw [mem_subsidiary_iff_of_grantKey hkey] at hsub
        refine ⟨d, lt_of_le_of_ne hle ?_, hold, hsub⟩
        intro heq
        rw [hnum c d heq] at hmem
        exact hsub hmem
      · exact absurd hindex (grantKey_ne_index hkey)
  · intro hcover
    cases hstore : w.store key with
    | none => rfl
    | some top =>
      rw [hstore] at hcell
      obtain ⟨⟨e, htop⟩, hmax⟩ := hcell
      obtain ⟨auto, hattempts⟩ := exists_of_finished calls (hdone e)
      obtain hp | ⟨-, -, rfl⟩ | ⟨hindex, -⟩ := (hattempts key top).mp htop
      · -- The entry of `e` would be below the tombstone of `d`.
        obtain ⟨d, hlt, hold, hsub⟩ := hcover e (of_lookup_grantKey hkey hp).2
        obtain ⟨auto', hattempts'⟩ := exists_of_finished calls (hdone d)
        rw [← mem_subsidiary_iff_of_grantKey hkey d auto'] at hsub
        have htomb : calls.Attempted w d key (calls.flat d).tomb :=
          (hattempts' key _).mpr (.inr (.inl ⟨hold, hsub, rfl⟩))
        have hrank := hmax _ ⟨d, htomb⟩
        rw [htomb.rank, htop.rank, WithBot.coe_le_coe] at hrank
        exact absurd hrank (not_le.mpr hlt)
      · rfl
      · exact absurd hindex (grantKey_ne_index hkey)

/-! ## What the reader shows -/

/-- The entries visible through the reader are exactly those of the projection. -/
structure Shows (env : Ext) (calls : Calls ι) (store : Store) (f : Flat) : Prop where
  actions : ((redisReader env store).tenantActions calls.tenantID.text calls.userID).run =
    some f.tenantActions
  flags : ((redisReader env store).userFlags calls.tenantID.text calls.userID).run = some f.flags
  workspace : ∀ u : Uuid,
    ((redisReader env store).workspace calls.tenantID.text calls.userID u.text).run =
      f.workspaceActions.lookup u
  noWorkspace : ∀ text, (∀ u : Uuid, u.text ≠ text) →
    ((redisReader env store).workspace calls.tenantID.text calls.userID text).run = none
  resource : ∀ hash,
    ((redisReader env store).resource calls.tenantID.text calls.userID hash).run =
      f.resources.lookup hash

/-- Every grant key that the newest call lacks was found in the index by a call that
outranks the one that writes it. -/
def Collected (calls : Calls ι) (w : World ι) (c : ι) : Prop :=
  ∀ d, ∀ key ∈ (calls.flat d).grantKeys, key ∉ (calls.flat c).grantKeys →
    ∃ e, calls.number d < calls.number e ∧ key ∈ (w.phase e).oldKeys ∧
      key ∉ (calls.flat e).grantKeys

theorem lookup_workspace {auto : Bool} {text : Bytes} :
    ((calls.flat c).pairs auto).lookup (keyWorkspace calls.tenantID.text calls.userID text) =
      some val ↔
      ∃ u e, u.text = text ∧ (calls.flat c).workspaceActions.lookup u = some e ∧
        val = .ws (calls.flat c).version e := by
  rw [← calls.tenant_eq c, ← calls.user_eq c, Flat.lookup_pairs_workspace]

theorem lookup_resource {auto : Bool} {hash : Bytes} :
    ((calls.flat c).pairs auto).lookup (keyResource calls.tenantID.text calls.userID hash) =
      some val ↔
      ∃ e, (calls.flat c).resources.lookup hash = some e ∧ val = .res (calls.flat c).version e := by
  rw [← calls.tenant_eq c, ← calls.user_eq c, Flat.lookup_pairs_resource]

theorem mem_grantKeys_workspace {text : Bytes} :
    keyWorkspace calls.tenantID.text calls.userID text ∈ (calls.flat c).grantKeys ↔
      ∃ u e, u.text = text ∧ (calls.flat c).workspaceActions.lookup u = some e := by
  constructor
  · intro hmem
    obtain ⟨val, hval, -⟩ := exists_lookup_of_grantKey hmem false
    obtain ⟨u, e, htext, he, -⟩ := lookup_workspace.mp hval
    exact ⟨u, e, htext, he⟩
  · rintro ⟨u, e, htext, he⟩
    have hval := @lookup_workspace ι calls c _ false text |>.mpr ⟨u, e, htext, he, rfl⟩
    exact (of_lookup_grantKey (.inl (keyTag_workspace text)) hval).2

theorem mem_grantKeys_resource {hash : Bytes} :
    keyResource calls.tenantID.text calls.userID hash ∈ (calls.flat c).grantKeys ↔
      ∃ e, (calls.flat c).resources.lookup hash = some e := by
  constructor
  · intro hmem
    obtain ⟨val, hval, -⟩ := exists_lookup_of_grantKey hmem false
    obtain ⟨e, he, -⟩ := lookup_resource.mp hval
    exact ⟨e, he⟩
  · rintro ⟨e, he⟩
    have hval := @lookup_resource ι calls c _ false hash |>.mpr ⟨e, he, rfl⟩
    exact (of_lookup_grantKey (.inr (keyTag_resource hash)) hval).2

theorem Settled.kind_of_grantKey (h : Settled calls store0 w)
    (hdone : ∀ d, (w.phase d).isFinished = true) (hkey : GrantKey calls key)
    (hnone : store0 key = none) (hval : live (w.store key) = some val) :
    ∃ c auto, ((calls.flat c).pairs auto).lookup key = some val := by
  obtain ⟨hstore, hlive⟩ := Option.filter_eq_some_iff.mp hval
  have hcell := h.cells key hnone
  rw [hstore] at hcell
  obtain ⟨⟨c, hattempt⟩, -⟩ := hcell
  obtain ⟨auto, hattempts⟩ := exists_of_finished calls (hdone c)
  obtain hp | ⟨-, -, rfl⟩ | ⟨hindex, -⟩ := (hattempts key val).mp hattempt
  · exact ⟨c, auto, hp⟩
  · cases hlive
  · exact absurd hindex (grantKey_ne_index hkey)

theorem Settled.workspace_eq_none_iff (h : Settled calls store0 w) (hfresh : Fresh calls store0)
    (hdone : ∀ d, (w.phase d).isFinished = true) {env : Ext} {text : Bytes} :
    ((redisReader env w.store).workspace calls.tenantID.text calls.userID text).run = none ↔
      live (w.store (keyWorkspace calls.tenantID.text calls.userID text)) = none := by
  have hdef : ((redisReader env w.store).workspace calls.tenantID.text calls.userID text).run =
    (live (w.store (keyWorkspace calls.tenantID.text calls.userID text))).bind fun v =>
      v.actionList.map fun as => ⟨as, v.archived⟩ := rfl
  rw [hdef]
  cases hval : live (w.store (keyWorkspace calls.tenantID.text calls.userID text)) with
  | none => simp
  | some val =>
    obtain ⟨c, auto, hp⟩ := h.kind_of_grantKey hdone (.inl (keyTag_workspace text))
      (hfresh.workspace text) hval
    obtain ⟨u, e, -, -, rfl⟩ := lookup_workspace.mp hp
    simp [Value.actionList]

theorem resource_eq_none_iff {env : Ext} {store : Store} {hash : Bytes} :
    ((redisReader env store).resource calls.tenantID.text calls.userID hash).run = none ↔
      live (store (keyResource calls.tenantID.text calls.userID hash)) = none :=
  Option.map_eq_none_iff

theorem grantKeys_cases (h : key ∈ (calls.flat c).grantKeys) :
    (∃ u : Uuid, key = keyWorkspace calls.tenantID.text calls.userID u.text) ∨
      ∃ hash, key = keyResource calls.tenantID.text calls.userID hash := by
  unfold Flat.grantKeys at h
  obtain ⟨⟨key', val⟩, hpair, rfl⟩ := List.mem_map.mp h
  rw [← calls.tenant_eq c, ← calls.user_eq c]
  obtain hws | hres := List.mem_append.mp hpair
  · obtain ⟨u, e, -, hk, -⟩ := Flat.mem_wsPairs.mp hws
    exact .inl ⟨u, hk⟩
  · obtain ⟨g, e, -, hk, -⟩ := Flat.mem_resPairs.mp hres
    exact .inr ⟨g, hk⟩

/-- If the reader shows the newest projection, all it lacks was collected. -/
theorem Settled.collected_of_shows (h : Settled calls store0 w) (hfresh : Fresh calls store0)
    (hdone : ∀ d, (w.phase d).isFinished = true)
    (hnum : ∀ d e, calls.number d = calls.number e → d = e) {env : Ext}
    (hshows : Shows env calls w.store (calls.flat c)) : Collected calls w c := by
  intro d key hmem hlack
  obtain ⟨u, rfl⟩ | ⟨hash, rfl⟩ := grantKeys_cases hmem
  · refine (h.live_eq_none_iff hdone hnum (.inl (keyTag_workspace u.text))
      (hfresh.workspace u.text)).mp ?_ d hmem
    rw [← @Settled.workspace_eq_none_iff ι calls w store0 h hfresh hdone env, hshows.workspace u]
    cases hlookup : (calls.flat c).workspaceActions.lookup u with
    | none => rfl
    | some e => exact absurd (mem_grantKeys_workspace.mpr ⟨u, e, rfl, hlookup⟩) hlack
  · refine (h.live_eq_none_iff hdone hnum (.inr (keyTag_resource hash))
      (hfresh.resource hash)).mp ?_ d hmem
    rw [← @resource_eq_none_iff ι calls env, hshows.resource hash]
    cases hlookup : (calls.flat c).resources.lookup hash with
    | none => rfl
    | some e => exact absurd (mem_grantKeys_resource.mpr ⟨e, hlookup⟩) hlack

/-- If all the newest projection lacks was collected, the reader shows it. -/
theorem Settled.shows_of_collected (h : Settled calls store0 w) (hfresh : Fresh calls store0)
    (hdone : ∀ d, (w.phase d).isFinished = true)
    (hnum : ∀ d e, calls.number d = calls.number e → d = e)
    (hlt : ∀ d, d ≠ c → calls.number d < calls.number c) {env : Ext}
    (hcollected : Collected calls w c) : Shows env calls w.store (calls.flat c) := by
  have hhidden : ∀ {key : Bytes}, GrantKey calls key → store0 key = none →
      key ∉ (calls.flat c).grantKeys → live (w.store key) = none := by
    intro key hkey hnone hlack
    exact (h.live_eq_none_iff hdone hnum hkey hnone).mpr fun d hmem => hcollected d key hmem hlack
  have hactions : w.store (keyActions calls.tenantID.text calls.userID) =
      some (.actions (calls.flat c).version (calls.flat c).tenantActions) := by
    refine h.store_eq hdone hlt (hfresh (bytes "actions")) fun auto => ?_
    rw [← calls.tenant_eq c, ← calls.user_eq c]
    exact Flat.lookup_pairs_actions
  have hflags : w.store (keyFlags calls.tenantID.text calls.userID) =
      some (.flags (calls.flat c).version (calls.flat c).flags) := by
    refine h.store_eq hdone hlt (hfresh (bytes "flags")) fun auto => ?_
    rw [← calls.tenant_eq c, ← calls.user_eq c]
    exact Flat.lookup_pairs_flags
  refine ⟨?_, ?_, ?_, ?_, ?_⟩
  · change (w.store (keyActions calls.tenantID.text calls.userID)).bind _ = _
    rw [hactions]
    rfl
  · change (w.store (keyFlags calls.tenantID.text calls.userID)).map _ = _
    rw [hflags]
    simp [Value.userFlags, Value.admin, Value.wsAdmin, Value.roles, List.filterMap_map,
      env.parse_text]
  · intro u
    cases hlookup : (calls.flat c).workspaceActions.lookup u with
    | none =>
      rw [h.workspace_eq_none_iff hfresh hdone]
      refine hhidden (.inl (keyTag_workspace u.text)) (hfresh.workspace u.text) ?_
      intro hmem
      obtain ⟨v, e, htext, he⟩ := mem_grantKeys_workspace.mp hmem
      rw [Uuid.text_injective htext, hlookup] at he
      cases he
    | some e =>
      have hval : w.store (keyWorkspace calls.tenantID.text calls.userID u.text) =
          some (.ws (calls.flat c).version e) :=
        h.store_eq hdone hlt (hfresh.workspace u.text) fun auto =>
          lookup_workspace.mpr ⟨u, e, rfl, hlookup, rfl⟩
      change (live (w.store (keyWorkspace calls.tenantID.text calls.userID u.text))).bind _ = _
      rw [hval]
      rfl
  · intro text hother
    rw [h.workspace_eq_none_iff hfresh hdone]
    refine hhidden (.inl (keyTag_workspace text)) (hfresh.workspace text) ?_
    intro hmem
    obtain ⟨u, e, htext, -⟩ := mem_grantKeys_workspace.mp hmem
    exact hother u htext
  · intro hash
    cases hlookup : (calls.flat c).resources.lookup hash with
    | none =>
      rw [resource_eq_none_iff]
      refine hhidden (.inr (keyTag_resource hash)) (hfresh.resource hash) ?_
      intro hmem
      obtain ⟨e, he⟩ := mem_grantKeys_resource.mp hmem
      rw [hlookup] at he
      cases he
    | some e =>
      have hval : w.store (keyResource calls.tenantID.text calls.userID hash) =
          some (.res (calls.flat c).version e) :=
        h.store_eq hdone hlt (hfresh.resource hash) fun auto =>
          lookup_resource.mpr ⟨e, hlookup, rfl⟩
      change (live (w.store (keyResource calls.tenantID.text calls.userID hash))).map _ = _
      rw [hval]
      rfl

end Finished

/-- After any interleaving of calls that have all finished, the reader shows exactly
the entries of the newest snapshot if and only if every grant key the snapshot lacks
was found in the index by a call that outranks the one that wrote it. -/
theorem shows_newest_iff {ι : Type} [DecidableEq ι] (env : Ext) (calls : Calls ι)
    {store0 : Store} (hfresh : Fresh calls store0) (cmds : List (Command ι))
    (hdone : ∀ d, ((run calls.step (init store0) cmds).phase d).isFinished = true)
    (hnum : ∀ d e, calls.number d = calls.number e → d = e) {c : ι}
    (hnewest : ∀ d, (calls.flat d).version ≤ (calls.flat c).version) :
    Shows env calls (run calls.step (init store0) cmds).store (calls.flat c) ↔
      Collected calls (run calls.step (init store0) cmds) c := by
  have hsettled := settled_run hfresh cmds
  have hlt : ∀ d, d ≠ c → calls.number d < calls.number c := by
    intro d hd
    refine lt_of_le_of_ne (toDouble_mono (hnewest d)) ?_
    intro heq
    exact hd (hnum d c heq)
  constructor
  · exact hsettled.collected_of_shows hfresh hdone hnum
  · exact hsettled.shows_of_collected hfresh hdone hnum hlt

/-! ## Two calls -/

/-- The user of the small tenant, before (`false`) and after (`true`) losing a
workspace. -/
def sample : Calls Bool where
  tenantID := Uuid.ofByte 10
  userID := bytes "u-1"
  flat
    | false => flatten sampleExt
        { sampleSnapshot with assignedWorkspaces := [⟨Uuid.ofByte 1, false⟩] }
    | true => flatten sampleExt { sampleSnapshot with version := 2 }
  tenant_eq := by rintro (_ | _) <;> rfl
  user_eq := by rintro (_ | _) <;> rfl

/-- The commands of a call after its read of the index, when it buries nothing. -/
def sample.writes (c : Bool) : List (Command Bool) :=
  ((sample.flat c).pairs false).keys.map (Command.write c) ++ [.finish c]

/-- The newer call reads the index before the older one writes it: the workspace the
user lost stays readable. -/
theorem shows_newest_fails :
    let cmds := [.start true, .readIndex true, .start false, .readIndex false] ++
      sample.writes false ++ sample.writes true
    let w := run sample.step (init fun _ => none) cmds
    Fresh sample (fun _ => none) ∧ (∀ d, (w.phase d).isFinished = true) ∧
      (sample.flat false).version < (sample.flat true).version ∧
      ((redisReader sampleExt w.store).workspace sample.tenantID.text sample.userID
        (Uuid.ofByte 1).text).run ≠ none ∧
      ¬Shows sampleExt sample w.store (sample.flat true) := by
  intro cmds w
  have hread : ((redisReader sampleExt w.store).workspace sample.tenantID.text sample.userID
      (Uuid.ofByte 1).text).run ≠ none := by
    decide
  refine ⟨fun _ => rfl, by decide, by decide, hread, ?_⟩
  intro hshows
  exact hread (hshows.workspace (Uuid.ofByte 1))

/-- One call after the other: the newer one buries the workspace. -/
theorem shows_newest_sequential :
    let cmds := [.start false, .readIndex false] ++ sample.writes false ++
      [.start true, .readIndex true] ++
      ((sample.flat true).pairs false).keys.map (Command.write true) ++
      [.bury true, .bury true, .bury true, .finish true]
    let w := run sample.step (init fun _ => none) cmds
    Fresh sample (fun _ => none) ∧ (∀ d, (w.phase d).isFinished = true) ∧
      Shows sampleExt sample w.store (sample.flat true) := by
  intro cmds w
  have hdone : ∀ d, (w.phase d).isFinished = true := by decide
  have hnum : ∀ d e, sample.number d = sample.number e → d = e := by decide
  have hnewest : ∀ d, (sample.flat d).version ≤ (sample.flat true).version := by decide
  have hcollected : Collected sample w true := by
    unfold Collected
    decide
  have hfresh : Fresh sample (fun _ => none) := fun _ => rfl
  exact ⟨hfresh, hdone, (shows_newest_iff sampleExt sample hfresh cmds hdone hnum hnewest).mpr
    hcollected⟩

end Calls

end Windrose.Rbac

/-
  ToolPlane/KillRuns.lean --- the caches of the gateways come to agree with the table.

  One lemma for each kind of step says that it keeps `Aligned` when it is timely.  When
  nothing is under way no member is pending and no gateway is behind, so the caches, the
  set and the active rows have the same members.
-/
import Windrose.ToolPlane.Kills

set_option autoImplicit false

namespace Windrose.ToolPlane

open Windrose.Foundation

variable {π ι : Type}

namespace KillPlane

/-! ## What the steps keep -/

/-- A message is on its way to the process: in its inbox, or a call that has changed the
set has still to publish. -/
def Behind (s : KillPlane π ι) (p : π) : Prop :=
  0 < s.inbox p ∨ ∃ i c, s.calls i = some c ∧ c.stage ≠ .announce

/-- A copy of the set, but for members that a call has still to announce. -/
def Agrees (s : KillPlane π ι) (set : List Bytes) : Prop :=
  ∀ m, (m ∈ set ↔ m ∈ s.redis) ∨ s.Pending m

/-- The copy that a gateway has, or is about to have. -/
def view (s : KillPlane π ι) (p : π) : Option (List Bytes) :=
  match s.phase p with
  | .refreshing members => some members
  | .watching => some (s.cache p)
  | _ => none

/-- The invariant: rows, set and caches agree but for what is under way. -/
structure Aligned (s : KillPlane π ι) : Prop where
  separable : ∀ k ∈ s.rows, k.Separable
  /-- the primary key -/
  keys : ∀ k ∈ s.rows, ∀ row ∈ s.rows, k.id = row.id → k = row
  mirror : ∀ m, (m ∈ s.redis ↔ m ∈ s.activeMembers) ∨ s.Pending m
  views : ∀ p set, s.view p = some set → s.Behind p ∨ s.Agrees set

theorem aligned_init : Aligned ({} : KillPlane π ι) where
  separable := by simp
  keys := by simp
  mirror := fun m => .inl (by simp [activeMembers])
  views := by simp [view]

variable {s s' : KillPlane π ι}

variable {m : Bytes}

theorem mem_activeMembers :
    m ∈ s.activeMembers ↔ ∃ k ∈ s.rows, k.active = true ∧ m ∈ killMembers k := by
  simp only [activeMembers, List.mem_flatMap, List.mem_filter, and_assoc]

theorem mem_announce {set : List Bytes} {active : Bool} {member : Bytes} :
    m ∈ announce set active member ↔ if m = member then active = true else m ∈ set := by
  unfold announce
  by_cases hm : m = member
  · subst hm
    cases active with
    | false => simp
    | true =>
      by_cases hmem : m ∈ set
      · simp [hmem]
      · simp [hmem]
  · cases active with
    | false => simp [hm]
    | true =>
      by_cases hmem : member ∈ set
      · simp [hmem, hm]
      · simp [hmem, hm]

theorem mem_announceAll {active : Bool} (members set : List Bytes) :
    m ∈ members.foldl (fun set member => announce set active member) set ↔
      if m ∈ members then active = true else m ∈ set := by
  induction members generalizing set with
  | nil => simp
  | cons member members ih =>
    rw [List.foldl_cons, ih, mem_announce]
    by_cases hrest : m ∈ members
    · simp [hrest]
    · by_cases hm : m = member
      · simp [hm]
      · simp [hrest, hm]

section Steps

variable [DecidableEq ι]

variable {i : ι} {c : Call π}

theorem Pending.begin (hfree : s.calls i = none)
    (hcalls : s'.calls = Function.update s.calls i (some c)) (h : s.Pending m) : s'.Pending m := by
  obtain ⟨j, d, hj, hrest⟩ := h
  refine ⟨j, d, ?_, hrest⟩
  rw [hcalls, Function.update_of_ne (by rintro rfl; rw [hfree] at hj; cases hj), hj]

theorem Behind.begin {p : π} (hfree : s.calls i = none)
    (hcalls : s'.calls = Function.update s.calls i (some c)) (hinbox : s'.inbox = s.inbox)
    (h : s.Behind p) : s'.Behind p := by
  obtain h | ⟨j, d, hj, hrest⟩ := h
  · exact .inl (by rwa [hinbox])
  · refine .inr ⟨j, d, ?_, hrest⟩
    rw [hcalls, Function.update_of_ne (by rintro rfl; rw [hfree] at hj; cases hj), hj]

/-- A transaction of Postgres: the members of its row become pending, and no other member
changes. -/
theorem Aligned.begin (h : s.Aligned) (hfree : s.calls i = none)
    (hstage : c.stage = .announce) (hrows : ∀ k ∈ s'.rows, k.Separable)
    (hkeys : ∀ k ∈ s'.rows, ∀ row ∈ s'.rows, k.id = row.id → k = row)
    (hcalls : s'.calls = Function.update s.calls i (some c))
    (hactive : ∀ m ∉ killMembers c.kill, m ∈ s'.activeMembers ↔ m ∈ s.activeMembers)
    (hredis : s'.redis = s.redis) (hcache : s'.cache = s.cache) (hphase : s'.phase = s.phase)
    (hinbox : s'.inbox = s.inbox) : s'.Aligned where
  separable := hrows
  keys := hkeys
  mirror := fun m => by
    by_cases hm : m ∈ killMembers c.kill
    · exact .inr ⟨i, c, by rw [hcalls, Function.update_self], hstage, hm⟩
    · refine (h.mirror m).imp (fun hmirror => ?_) (Pending.begin hfree hcalls)
      rw [hredis, hmirror, hactive m hm]
  views := fun p set hview => by
    have hview' : s.view p = some set := by
      rw [← hview]
      simp only [view, hphase, hcache]
    refine (h.views p set hview').imp (Behind.begin hfree hcalls hinbox) fun hagrees m => ?_
    exact (hagrees m).imp (fun hm => by rw [hm, hredis]) (Pending.begin hfree hcalls)

theorem Aligned.create (h : s.Aligned) (hfree : s.calls i = none) (p : π)
    {k : KillSwitch} (hk : k.Separable) : (s.create i p k).Aligned := by
  unfold KillPlane.create
  split
  · exact h
  rename_i hconflicts
  have hnew : ∀ row ∈ s.rows, row.id ≠ k.id := by
    intro row hrow hid
    exact hconflicts (List.any_eq_true.mpr ⟨row, hrow, by simp [hid]⟩)
  refine h.begin hfree (c := ⟨p, k, true, .announce⟩) rfl ?_ ?_ rfl ?_ rfl rfl rfl rfl
  · intro row hrow
    obtain hrow | hrow := List.mem_append.mp hrow
    · exact h.separable row hrow
    · obtain rfl := List.mem_singleton.mp hrow
      exact hk
  · intro a ha b hb hid
    simp only [List.mem_append, List.mem_singleton] at ha hb
    obtain ha | rfl := ha
    · obtain hb | rfl := hb
      · exact h.keys a ha b hb hid
      · exact absurd hid (hnew a ha)
    · obtain hb | rfl := hb
      · exact absurd hid.symm (hnew b hb)
      · rfl
  · intro m hm
    have hnot : m ∉ killMembers { k with active := true } := hm
    simp only [mem_activeMembers, List.mem_append, List.mem_singleton]
    constructor
    · rintro ⟨row, hrow | rfl, hactive, hmem⟩
      · exact ⟨row, hrow, hactive, hmem⟩
      · exact absurd hmem hnot
    · rintro ⟨row, hrow, hactive, hmem⟩
      exact ⟨row, .inl hrow, hactive, hmem⟩

theorem Aligned.deactivate (h : s.Aligned) (hfree : s.calls i = none) (p : π)
    (id : Bytes) : (s.deactivate i p id).Aligned := by
  unfold KillPlane.deactivate
  cases hfind : s.rows.find? fun row => row.id = id && row.active with
  | none => exact h
  | some k =>
    have hk := List.mem_of_find?_eq_some hfind
    have hmatch : k.id = id ∧ k.active = true := by simpa using List.find?_some hfind
    refine h.begin hfree (c := ⟨p, k, false, .announce⟩) rfl ?_ ?_ rfl ?_ rfl rfl rfl rfl
    · intro row hrow
      obtain ⟨old, hold, rfl⟩ := List.mem_map.mp hrow
      split
      · exact h.separable old hold
      · exact h.separable old hold
    · intro a ha b hb hid
      obtain ⟨a', ha', rfl⟩ := List.mem_map.mp ha
      obtain ⟨b', hb', rfl⟩ := List.mem_map.mp hb
      have hold : a'.id = b'.id := by
        have hsame : ∀ row : KillSwitch,
            (if (row.id = id && row.active) = true then { row with active := false } else row).id =
              row.id := by
          intro row
          split <;> rfl
        rwa [hsame, hsame] at hid
      rw [h.keys a' ha' b' hb' hold]
    · intro m hm
      have hnot : m ∉ killMembers k := hm
      simp only [mem_activeMembers]
      constructor
      · rintro ⟨row, hrow, hactive, hmem⟩
        obtain ⟨old, hold, rfl⟩ := List.mem_map.mp hrow
        split at hactive
        · cases hactive
        · rename_i hother
          rw [if_neg hother] at hmem
          exact ⟨old, hold, hactive, hmem⟩
      · rintro ⟨row, hrow, hactive, hmem⟩
        have hother : ¬ (row.id = id && row.active) = true := by
          intro hsame
          have hid : row.id = k.id := by
            rw [hmatch.1]
            exact (by simpa using hsame : row.id = id ∧ row.active = true).1
          rw [h.keys row hrow k hk hid] at hmem
          exact hnot hmem
        exact ⟨row, List.mem_map.mpr ⟨row, hrow, if_neg hother⟩, hactive, hmem⟩

/-! ### The steps of a call -/

theorem PendingBut.proceed {c : Option (Call π)}
    (hcalls : s'.calls = Function.update s.calls i c) (h : s.PendingBut i m) : s'.Pending m := by
  obtain ⟨j, d, hji, hj, hrest⟩ := h
  exact ⟨j, d, by rw [hcalls, Function.update_of_ne hji, hj], hrest⟩

omit [DecidableEq ι] in
theorem Pending.but (hc : s.calls i = some c)
    (hnot : c.stage = .announce → m ∉ killMembers c.kill) (h : s.Pending m) : s.PendingBut i m := by
  obtain ⟨j, d, hj, hstage, hmem⟩ := h
  refine ⟨j, d, ?_, hj, hstage, hmem⟩
  rintro rfl
  obtain rfl := Option.some.inj (hc.symm.trans hj)
  exact hnot hstage hmem

theorem Aligned.announced [DecidableEq π] (h : s.Aligned) (hc : s.calls i = some c)
    (hstage : c.stage = .announce) (htimely : ∀ m ∈ killMembers c.kill,
      (c.active = true ↔ m ∈ s.activeMembers) ∨ s.PendingBut i m) : (s.proceed i c).Aligned := by
  have hcall : (s.proceed i c).calls = Function.update s.calls i
      (some { c with stage := .refresh }) := by
    simp only [KillPlane.proceed, hstage]
  have hredis : (s.proceed i c).redis =
      (killMembers c.kill).foldl (fun set m => announce set c.active m) s.redis := by
    simp only [KillPlane.proceed, hstage]
  have hrows : (s.proceed i c).rows = s.rows := by simp only [KillPlane.proceed, hstage]
  refine ⟨by rw [hrows]; exact h.separable, by rw [hrows]; exact h.keys, fun m => ?_,
    fun p set _ => .inl (.inr ⟨i, { c with stage := .refresh }, by rw [hcall, Function.update_self],
      by simp⟩)⟩
  have hactive : m ∈ (s.proceed i c).activeMembers ↔ m ∈ s.activeMembers := by
    simp only [mem_activeMembers, hrows]
  rw [hredis, mem_announceAll, hactive]
  by_cases hm : m ∈ killMembers c.kill
  · rw [if_pos hm]
    exact (htimely m hm).imp id (PendingBut.proceed hcall)
  · rw [if_neg hm]
    exact (h.mirror m).imp id fun hp => (hp.but hc fun _ => hm).proceed hcall

theorem Aligned.later (h : s.Aligned) {c' : Option (Call π)}
    (hc : s.calls i = some c) (hstage : c.stage ≠ .announce)
    (hcalls : s'.calls = Function.update s.calls i c') (hrows : s'.rows = s.rows)
    (hredis : s'.redis = s.redis)
    (hviews : ∀ p set, s'.view p = some set → s'.Behind p) : s'.Aligned where
  separable := by rw [hrows]; exact h.separable
  keys := by rw [hrows]; exact h.keys
  mirror := fun m => by
    have hactive : m ∈ s'.activeMembers ↔ m ∈ s.activeMembers := by
      simp only [mem_activeMembers, hrows]
    rw [hredis, hactive]
    exact (h.mirror m).imp id fun hp => (hp.but hc fun hs => absurd hs hstage).proceed hcalls
  views := fun p set hview => .inl (hviews p set hview)

theorem Aligned.proceed [DecidableEq π] (h : s.Aligned) (hc : s.calls i = some c)
    (htimely : c.stage = .announce → ∀ m ∈ killMembers c.kill,
      (c.active = true ↔ m ∈ s.activeMembers) ∨ s.PendingBut i m) : (s.proceed i c).Aligned := by
  cases hstage : c.stage with
  | announce => exact h.announced hc hstage (htimely hstage)
  | refresh =>
    unfold KillPlane.proceed
    simp only [hstage]
    exact h.later hc (by simp [hstage]) rfl rfl rfl fun p set _ =>
      .inr ⟨i, { c with stage := .assign s.redis }, Function.update_self .., by simp⟩
  | assign members =>
    unfold KillPlane.proceed
    simp only [hstage]
    exact h.later hc (by simp [hstage]) rfl rfl rfl fun p set _ =>
      .inr ⟨i, { c with stage := .publish }, Function.update_self .., by simp⟩
  | publish =>
    unfold KillPlane.proceed
    simp only [hstage]
    refine h.later hc (by simp [hstage]) rfl rfl rfl fun p set hview => .inl ?_
    have hlistens : (s.phase p).listens = true := by
      unfold view at hview
      split at hview
      · rename_i hphase
        simp only at hphase
        rw [hphase]
        rfl
      · rename_i hphase
        simp only at hphase
        rw [hphase]
        rfl
      · cases hview
    simp only [hlistens, if_true]
    exact Nat.succ_pos _

/-! ### The steps of a process -/

omit [DecidableEq ι] in
theorem Aligned.moves [DecidableEq π] (h : s.Aligned) (p : π) (hrows : s'.rows = s.rows)
    (hcalls : s'.calls = s.calls) (hredis : ∀ m, (m ∈ s'.redis ↔ m ∈ s.redis) ∨ s.Pending m)
    (hmirror : ∀ m, (m ∈ s'.redis ↔ m ∈ s.activeMembers) ∨ s.Pending m)
    (hothers : ∀ q ≠ p, s'.view q = s.view q ∧ s'.inbox q = s.inbox q)
    (hview : ∀ set, s'.view p = some set → s'.Behind p ∨ s'.Agrees set) : s'.Aligned := by
  have hpending : ∀ m, s'.Pending m ↔ s.Pending m := fun m => by unfold Pending; rw [hcalls]
  refine ⟨by rw [hrows]; exact h.separable, by rw [hrows]; exact h.keys, fun m => ?_,
    fun q set hq => ?_⟩
  · have hactive : m ∈ s'.activeMembers ↔ m ∈ s.activeMembers := by
      simp only [mem_activeMembers, hrows]
    rw [hactive, hpending]
    exact hmirror m
  · by_cases hpq : q = p
    · subst hpq
      exact hview set hq
    · obtain ⟨hsame, hinbox⟩ := hothers q hpq
      rw [hsame] at hq
      refine (h.views q set hq).imp (fun hbehind => ?_) fun hagrees m => ?_
      · unfold Behind
        rw [hinbox, hcalls]
        exact hbehind
      · rw [hpending]
        obtain hold | hp := hagrees m
        · exact (hredis m).imp (fun hm => by rw [hold, hm]) id
        · exact .inr hp

omit [DecidableEq ι] in
theorem Aligned.movesAlone [DecidableEq π] (h : s.Aligned) (p : π) (hrows : s'.rows = s.rows)
    (hcalls : s'.calls = s.calls) (hredis : s'.redis = s.redis)
    (hothers : ∀ q ≠ p, s'.view q = s.view q ∧ s'.inbox q = s.inbox q)
    (hview : ∀ set, s'.view p = some set → s'.Behind p ∨ s'.Agrees set) : s'.Aligned :=
  h.moves p hrows hcalls (fun m => .inl (by rw [hredis]))
    (fun m => by rw [hredis]; exact h.mirror m)
    hothers hview

omit [DecidableEq ι] in
theorem view_of_update [DecidableEq π] {p q : π} (hpq : q ≠ p) {ph : Phase}
    (hphase : s'.phase = Function.update s.phase p ph) (hcache : s'.cache q = s.cache q) :
    s'.view q = s.view q := by
  simp only [view, hphase, Function.update_of_ne hpq, hcache]

omit [DecidableEq ι] in
theorem Aligned.advance [DecidableEq π] (watches : π → Bool) (h : s.Aligned) (p : π)
    (htimely : ∀ members, s.phase p = .loaded members → ∀ m,
      (m ∈ members ↔ m ∈ s.activeMembers) ∨ s.Pending m) :
    (s.advance watches p).Aligned := by
  unfold KillPlane.advance
  cases hphase : s.phase p with
  | down => exact h
  | serving => exact h
  | loaded members =>
    have hmirror := htimely members hphase
    refine h.moves p rfl rfl (fun m => ?_) hmirror (fun q hq => ⟨view_of_update hq rfl rfl, rfl⟩)
      (by simp [view])
    obtain hm | hp := hmirror m
    · obtain hs | hp := h.mirror m
      · exact .inl (hm.trans hs.symm)
      · exact .inr hp
    · exact .inr hp
  | synced members =>
    refine h.movesAlone p rfl rfl rfl (fun q hq =>
      ⟨view_of_update hq rfl (Function.update_of_ne hq ..), rfl⟩) ?_
    intro set hset
    cases hw : watches p <;> simp [view, hw] at hset
  | subscribed =>
    refine h.movesAlone p rfl rfl rfl (fun q hq => ⟨view_of_update hq rfl rfl, rfl⟩) ?_
    intro set hset
    obtain rfl : s.redis = set := by simpa [view] using hset
    exact .inr fun m => .inl Iff.rfl
  | refreshing members =>
    refine h.movesAlone p rfl rfl rfl (fun q hq =>
      ⟨view_of_update hq rfl (Function.update_of_ne hq ..), rfl⟩) ?_
    intro set hset
    obtain rfl : members = set := by simpa [view] using hset
    exact h.views p members (by simp [view, hphase])
  | watching =>
    simp only
    split
    · refine h.movesAlone p rfl rfl rfl (fun q hq => ⟨view_of_update hq rfl rfl, ?_⟩)
        (by simp [view])
      exact Function.update_of_ne hq ..
    · exact h

theorem Aligned.step [DecidableEq π] (watches : π → Bool) (h : s.Aligned) (m : KillMove π ι)
    (htimely : s.Timely m) : (s.step watches m).Aligned := by
  cases m with
  | create i p k =>
    simp only [KillPlane.step]
    split
    · exact h.create ‹_› p htimely
    · exact h
  | deactivate i p id =>
    simp only [KillPlane.step]
    split
    · exact h.deactivate ‹_› p id
    · exact h
  | proceed i =>
    simp only [KillPlane.step]
    split
    · rename_i c hc
      exact h.proceed hc (htimely c hc)
    · exact h
  | boot p =>
    simp only [KillPlane.step]
    split
    · exact h.movesAlone p rfl rfl rfl (fun q hq => ⟨view_of_update hq rfl rfl, rfl⟩)
        (by simp [view])
    · exact h
  | advance p => exact h.advance watches p htimely
  | stop p =>
    refine h.movesAlone p rfl rfl rfl (fun q hq =>
      ⟨view_of_update hq rfl (Function.update_of_ne hq ..), ?_⟩)
      (by simp [view, KillPlane.step])
    exact Function.update_of_ne hq ..

end Steps

/-! ## When nothing is under way -/

theorem isKilled_isSome (hsep : ∀ k ∈ s.rows, k.Separable) {set : List Bytes}
    (hset : ∀ m, m ∈ set ↔ m ∈ s.activeMembers) (tenant : Uuid) (toolID version : Bytes) :
    (isKilled set tenant toolID version).isSome ↔
      ∃ k ∈ s.rows, k.active = true ∧ k.Covers tenant toolID version := by
  have hsome : (isKilled set tenant toolID version).isSome ↔
      toolKey toolID ∈ set ∨ versionKey toolID version ∈ set ∨ tenantKey toolID tenant ∈ set := by
    unfold isKilled
    by_cases h₁ : toolKey toolID ∈ set
    · simp [h₁]
    · by_cases h₂ : versionKey toolID version ∈ set
      · simp [h₁, h₂]
      · by_cases h₃ : tenantKey toolID tenant ∈ set <;> simp [h₁, h₂, h₃]
  rw [hsome]
  simp only [hset, mem_activeMembers]
  constructor
  · rintro (⟨k, hk, hactive, hmem⟩ | ⟨k, hk, hactive, hmem⟩ | ⟨k, hk, hactive, hmem⟩)
    · obtain ⟨hscope, htool⟩ := mem_killMembers_toolKey.mp hmem
      exact ⟨k, hk, hactive, htool, by rw [hscope]; trivial⟩
    · obtain ⟨hscope, htool, hversion⟩ := (mem_killMembers_versionKey (hsep k hk)).mp hmem
      exact ⟨k, hk, hactive, htool, by rw [hscope]; exact hversion⟩
    · obtain ⟨hscope, htool, htenant⟩ := mem_killMembers_tenantKey.mp hmem
      exact ⟨k, hk, hactive, htool, by rw [hscope]; exact htenant⟩
  · rintro ⟨k, hk, hactive, htool, hrest⟩
    cases hscope : k.scope with
    | tool => exact .inl ⟨k, hk, hactive, mem_killMembers_toolKey.mpr ⟨hscope, htool⟩⟩
    | toolVersion =>
      rw [hscope] at hrest
      exact .inr (.inl ⟨k, hk, hactive,
        (mem_killMembers_versionKey (hsep k hk)).mpr ⟨hscope, htool, hrest⟩⟩)
    | toolTenant =>
      rw [hscope] at hrest
      exact .inr (.inr ⟨k, hk, hactive, mem_killMembers_tenantKey.mpr ⟨hscope, htool, hrest⟩⟩)

theorem Aligned.converges (h : s.Aligned) : s.Converges := by
  rintro ⟨hcalls, hprocesses⟩ p hp tenant toolID version
  have hdone : ∀ m, ¬ s.Pending m := by
    rintro m ⟨i, c, hi, -⟩
    rw [hcalls i] at hi
    cases hi
  have hcurrent : ¬ s.Behind p := by
    rintro (hinbox | ⟨i, c, hi, -⟩)
    · rw [(hprocesses p).2] at hinbox
      exact absurd hinbox (lt_irrefl 0)
    · rw [hcalls i] at hi
      cases hi
  have hagrees := (h.views p (s.cache p) (by simp [view, hp])).resolve_left hcurrent
  refine isKilled_isSome h.separable (fun m => ?_) tenant toolID version
  exact ((hagrees m).resolve_right (hdone m)).trans ((h.mirror m).resolve_right (hdone m))

/-- If every step is timely, every gateway answers by the active rows whenever all calls
have finished. -/
theorem kills_converge [DecidableEq π] [DecidableEq ι] (watches : π → Bool)
    (ms : List (KillMove π ι)) (htimely : Each (step watches) Timely {} ms) :
    Always (step watches) Converges ({} : KillPlane π ι) ms := fun done hdone =>
  (always_of_each (P := Aligned) (fun _ m h ht => h.step watches m ht) aligned_init htimely
    done hdone).converges

/-! ## Two kills with one member -/

/-- The processes are the registry, `false`, and one gateway, `true`. -/
def bootMoves : List (KillMove Bool Bool) := .boot true :: List.replicate 4 (.advance true)

/-- The whole tool is killed. -/
def sampleKill (id version : Bytes) : KillSwitch :=
    { id, scope := .tool, toolID := bytes "case.assign", version }

/-- A call from its commit to its message, and the gateway's answer to it. -/
def callMoves (move : KillMove Bool Bool) : List (KillMove Bool Bool) :=
  [move] ++ List.replicate 4 (.proceed false) ++ List.replicate 3 (.advance true)

/-- A gateway boots, and a kill is created and announced to it. -/
def timelyMoves : List (KillMove Bool Bool) :=
  bootMoves ++ callMoves (.create false false (sampleKill (bytes "k1") (bytes "1.0.0")))

/-- The run ends quietly, with a gateway that refuses the tool. -/
theorem kills_converge_sample : Each (step id) Timely ({} : KillPlane Bool Bool) timelyMoves ∧
      Always (step id) Converges ({} : KillPlane Bool Bool) timelyMoves ∧
      (run (step id) ({} : KillPlane Bool Bool) timelyMoves).Quiet ∧
      (run (step id) ({} : KillPlane Bool Bool) timelyMoves).phase true = .watching := by
  have htimely : Each (step id) Timely ({} : KillPlane Bool Bool) timelyMoves := by
    simp only [timelyMoves, bootMoves, callMoves, List.replicate, List.cons_append, List.nil_append,
      each_cons]
    refine ⟨trivial, ?_, ?_, ?_, ?_, ?_, ?_, ?_, ?_, ?_, ?_, ?_, ?_, each_nil _⟩
    · intro members hphase m
      obtain rfl : ([] : List Bytes) = members := by simpa [step, activeMembers] using hphase
      exact .inl (by simp [step, activeMembers])
    case refine_5 => exact fun hscope => absurd hscope (by decide)
    case refine_6 =>
      intro c hc _ m hm
      obtain rfl : Call.mk false (sampleKill (bytes "k1") (bytes "1.0.0")) true .announce = c :=
        Option.some.inj hc
      obtain rfl := List.mem_singleton.mp hm
      exact .inl (by decide)
    case refine_7 | refine_8 | refine_9 =>
      intro c hc hstage
      cases hc
      cases hstage
    all_goals
      intro members hphase
      cases hphase
  refine ⟨htimely, kills_converge id _ htimely, ?_, by decide⟩
  unfold Quiet
  decide

/-- The tool is killed twice, and the first kill is taken back. -/
def sharedMoves : List (KillMove Bool Bool) :=
  bootMoves ++ callMoves (.create false false (sampleKill (bytes "k1") (bytes "1.0.0"))) ++
    callMoves (.create false false (sampleKill (bytes "k2") (bytes "2.0.0"))) ++
    callMoves (.deactivate false false (bytes "k1"))

theorem kills_diverge : ¬ Always (step id) Converges ({} : KillPlane Bool Bool) sharedMoves := by
  intro h
  have hquiet : (run (step id) ({} : KillPlane Bool Bool) sharedMoves).Quiet := by
    unfold Quiet
    decide
  have hactive : sampleKill (bytes "k2") (bytes "2.0.0") ∈
      (run (step id) ({} : KillPlane Bool Bool) sharedMoves).rows := by decide
  have hkilled := (h sharedMoves List.prefix_rfl hquiet true (by decide) (Uuid.ofByte 0)
    (bytes "case.assign") []).mpr ⟨_, hactive, rfl, rfl, trivial⟩
  exact absurd hkilled (by decide)

end KillPlane

end Windrose.ToolPlane

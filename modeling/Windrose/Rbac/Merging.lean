/-
  Rbac/Merging.lean --- one entry for all grants of a resource.

  Source: services/rbac-service/internal/projection/flatten.go (the merge of
  ResourceGrants), services/rbac-service/internal/authz/decide.go (grantOverlay)
  and services/rbac-service/internal/domain/levels.go.

  `flatten` keeps for a URN the highest level of its grants and whether one of them is live,
  and these two may come from different grants.
-/
import Windrose.Rbac.Additive

set_option autoImplicit false

namespace Windrose.Rbac

open Windrose.Foundation

/-! ## Verbs that tell the levels apart -/

variable {l : GrantLevel}

theorem editor_le_of_writes {verb : Bytes} (hl : levelAllowsVerb l verb = true)
    (hw : archivedReadVerbs verb = false) : 2 ≤ levelRank l := by
  have hmem : verb ∈ levelVerbs l := of_decide_eq_true hl
  have hread : verb ∉ levelVerbs .viewer := of_decide_eq_false hw
  cases l with
  | viewer => exact absurd hmem hread
  | editor => exact le_refl 2
  | owner => exact Nat.le_succ 2
  | other text => cases hmem

theorem exists_write_verb (hl : 2 ≤ levelRank l) :
    ∃ verb, archivedReadVerbs verb = false ∧ levelAllowsVerb l verb = true ∧
      ∀ l', levelAllowsVerb l' verb = true → levelRank l ≤ levelRank l' := by
  cases l with
  | viewer => exact absurd hl (by decide)
  | editor =>
    refine ⟨verbUpdate, by decide, by decide, fun l' hl' => ?_⟩
    exact editor_le_of_writes hl' (by decide)
  | owner =>
    refine ⟨verbDelete, by decide, by decide, fun l' hl' => ?_⟩
    cases l' with
    | owner => exact le_refl 3
    | viewer => exact absurd hl' (by decide)
    | editor => exact absurd hl' (by decide)
    | other text => cases (of_decide_eq_true hl' : verbDelete ∈ [])
  | other text => exact absurd hl (by simp [levelRank])

theorem allows_read_iff : levelAllowsVerb l verbRead = true ↔ l.valid = true := by
  cases l <;> simp [levelAllowsVerb, levelVerbs, GrantLevel.valid]

theorem level_eq_of_rank {l' : GrantLevel} (h : levelRank l = levelRank l')
    (hpos : 0 < levelRank l) : l = l' := by
  cases l <;> cases l' <;> simp [levelRank] at h hpos ⊢

/-! ## The overlay of a URN -/

namespace Snapshot

/-- The user of the snapshot asks for a URN. -/
def asks (s : Snapshot) (urn : Bytes) : Input where
  subject := ⟨s.userID, .user, [], []⟩
  action := []
  resourceURN := urn
  workspaceID := []
  tenant := s.tenantID.text

/-- What `grantOverlay` says of a verb on a URN over the projection of the snapshot. -/
def overlay (env : Ext) (s : Snapshot) (urn verb : Bytes) : Option Decision :=
  ((s.reader env false).grantOverlay env (s.asks urn) verb : Id _).run

/-- The overlay permits the verb. -/
def Permits (env : Ext) (s : Snapshot) (urn verb : Bytes) : Prop :=
  ∃ d ∈ s.overlay env urn verb, d.allowed = true

/-- A grant of the URN permits the verb by itself. -/
def GrantPermits (s : Snapshot) (urn verb : Bytes) : Prop :=
  ∃ g ∈ s.resourceGrants, g.urn = urn ∧ levelAllowsVerb g.level verb = true ∧
    (g.archived = false ∨ archivedReadVerbs verb = true)

/-- The merge is exact for a URN: the overlay permits what a grant permits, and the
grants may come in any order. -/
structure MergesExactly (env : Ext) (s : Snapshot) (urn : Bytes) : Prop where
  permits_iff : ∀ verb, s.Permits env urn verb ↔ s.GrantPermits urn verb
  overlay_perm : ∀ gs, gs.Perm s.resourceGrants → ∀ verb,
    ({ s with resourceGrants := gs } : Snapshot).overlay env urn verb = s.overlay env urn verb

/-- Next to a live grant of the URN, a grant through an archived workspace that allows
writes has a live one of at least its level; the empty text, which is never looked up,
has no grants with a level. -/
def Covered (s : Snapshot) (urn : Bytes) : Prop :=
  if urn = [] then ∀ g ∈ s.resourceGrants, g.urn = urn → g.level.valid = false
  else ∀ g ∈ s.resourceGrants, g.urn = urn → g.archived = true → 2 ≤ levelRank g.level →
    (∃ l ∈ s.resourceGrants, l.urn = urn ∧ l.archived = false) →
      ∃ l ∈ s.resourceGrants, l.urn = urn ∧ l.archived = false ∧
        levelRank g.level ≤ levelRank l.level

section Exact

variable {env : Ext} {s : Snapshot} {urn verb : Bytes}

theorem overlay_nil : s.overlay env [] verb = none := rfl

theorem overlay_eq (hurn : urn ≠ []) : s.overlay env urn verb =
      ((flatten env s).resources.lookup (urnHash env urn)).bind fun e =>
        if levelAllowsVerb e.level verb = false then none
        else if e.archived = true ∧ archivedReadVerbs verb = false
          then some (deny .workspaceArchived)
        else some (allow (.resourceGrant e.level)) := by
  have hentry : (s.reader env false).resource (s.asks urn).tenant (s.asks urn).effectiveUser
      (urnHash env urn) = (flatten env s).resources.lookup (urnHash env urn) := by
    have hnames : s.Names (s.asks urn) := ⟨rfl, .inr rfl⟩
    have hdef : (s.reader env false).resource (s.asks urn).tenant (s.asks urn).effectiveUser
        (urnHash env urn) = ((s.flatReader env).flat (s.asks urn).tenant
          (s.asks urn).effectiveUser).bind (·.resources.lookup (urnHash env urn)) := rfl
    rw [hdef, flat_of_names hnames, Option.bind_some]
  unfold overlay Reader.grantOverlay
  rw [if_neg (show ¬ (s.asks urn).resourceURN = [] from hurn), Id.run_bind]
  show Id.run (match (s.reader env false).resource (s.asks urn).tenant (s.asks urn).effectiveUser
    (urnHash env urn) with | none => _ | some e => _) = _
  rw [hentry]
  cases (flatten env s).resources.lookup (urnHash env urn) with
  | none => rfl
  | some e =>
    obtain ⟨_, level, _, archived⟩ := e
    simp only [Option.bind_some]
    cases levelAllowsVerb level verb <;> cases archived <;> cases archivedReadVerbs verb <;> rfl

theorem merges_of_lookup (hinj : ∀ g ∈ s.resourceGrants, urnHash env g.urn = urnHash env urn →
    g.urn = urn) :
    match (flatten env s).resources.lookup (urnHash env urn) with
    | some e => Merges (s.resourceGrants.filter (·.urn = urn)) e
    | none => s.resourceGrants.filter (·.urn = urn) = [] := by
  have hgrants : grantsAt env s.resourceGrants (urnHash env urn) =
      s.resourceGrants.filter (·.urn = urn) := by
    refine List.filter_congr fun g hg => ?_
    rw [decide_eq_decide]
    exact ⟨hinj g hg, fun h => h ▸ rfl⟩
  have h := lookup_addGrants env s.resourceGrants (urnHash env urn)
  rwa [hgrants] at h

theorem permits_iff (hurn : urn ≠ [])
    (hinj : ∀ g ∈ s.resourceGrants, urnHash env g.urn = urnHash env urn → g.urn = urn) :
    s.Permits env urn verb ↔
      (∃ g ∈ s.resourceGrants, g.urn = urn ∧ levelAllowsVerb g.level verb = true) ∧
        (archivedReadVerbs verb = false →
          ∃ g ∈ s.resourceGrants, g.urn = urn ∧ g.archived = false) := by
  have hmerge := merges_of_lookup hinj
  rw [Permits, overlay_eq hurn]
  cases hentry : (flatten env s).resources.lookup (urnHash env urn) with
  | none =>
    rw [hentry] at hmerge
    simp only [List.filter_eq_nil_iff, decide_eq_true_eq] at hmerge
    constructor
    · rintro ⟨d, hd, -⟩
      cases hd
    · rintro ⟨⟨g, hg, hgurn, -⟩, -⟩
      exact absurd hgurn (hmerge g hg)
  | some e =>
    rw [hentry] at hmerge
    simp only at hmerge
    have hlevel : levelAllowsVerb e.level verb = true ↔
        ∃ g ∈ s.resourceGrants, g.urn = urn ∧ levelAllowsVerb g.level verb = true := by
      constructor
      · intro h
        obtain ⟨g, hg, hgl⟩ := hmerge.level_mem
        obtain ⟨hg, hgurn⟩ := List.mem_filter.mp hg
        exact ⟨g, hg, of_decide_eq_true hgurn, hgl ▸ h⟩
      · rintro ⟨g, hg, hgurn, h⟩
        exact levelAllowsVerb_mono
          (hmerge.rank_le g (List.mem_filter.mpr ⟨hg, decide_eq_true hgurn⟩)) h
    have hlive : e.archived = false ↔ ∃ g ∈ s.resourceGrants, g.urn = urn ∧ g.archived = false := by
      rw [← Bool.not_eq_true, hmerge.archived_iff]
      simp only [List.mem_filter, decide_eq_true_eq, and_imp, not_forall, Bool.not_eq_true]
      exact ⟨fun ⟨g, hg, hgurn, h⟩ => ⟨g, hg, hgurn, h⟩, fun ⟨g, hg, hgurn, h⟩ => ⟨g, hg, hgurn, h⟩⟩
    rw [← hlevel, ← hlive, Option.bind_some]
    cases levelAllowsVerb e.level verb <;> cases e.archived <;> cases archivedReadVerbs verb <;>
      simp [allow, deny]

theorem permits_of_grantPermits (hurn : urn ≠ [])
    (hinj : ∀ g ∈ s.resourceGrants, urnHash env g.urn = urnHash env urn → g.urn = urn)
    (h : s.GrantPermits urn verb) : s.Permits env urn verb := by
  obtain ⟨g, hg, hgurn, hlevel, hopen⟩ := h
  refine (permits_iff hurn hinj).mpr ⟨⟨g, hg, hgurn, hlevel⟩, fun hw => ⟨g, hg, hgurn, ?_⟩⟩
  rcases hopen with hlive | hread
  · exact hlive
  · exact absurd hread (by rw [hw]; exact Bool.false_ne_true)

/-- What the merged pair permits is what some grant permits. -/
theorem forall_permits_iff_covered (hurn : urn ≠ [])
    (hinj : ∀ g ∈ s.resourceGrants, urnHash env g.urn = urnHash env urn → g.urn = urn) :
    (∀ verb, s.Permits env urn verb ↔ s.GrantPermits urn verb) ↔ s.Covered urn := by
  rw [Covered, if_neg hurn]
  constructor
  · intro hexact g hg hgurn _ hrank hlive
    obtain ⟨verb, hw, hgl, hleast⟩ := exists_write_verb hrank
    have hpermits := (permits_iff hurn hinj).mpr ⟨⟨g, hg, hgurn, hgl⟩, fun _ => hlive⟩
    obtain ⟨l, hl, hlurn, hll, hopen⟩ := (hexact verb).mp hpermits
    rw [hw, or_iff_left Bool.false_ne_true] at hopen
    exact ⟨l, hl, hlurn, hopen, hleast l.level hll⟩
  · intro hcovered verb
    refine ⟨fun h => ?_, permits_of_grantPermits hurn hinj⟩
    obtain ⟨⟨g, hg, hgurn, hgl⟩, hlive⟩ := (permits_iff hurn hinj).mp h
    cases hw : archivedReadVerbs verb with
    | true => exact ⟨g, hg, hgurn, hgl, .inr hw⟩
    | false =>
      cases harch : g.archived with
      | false => exact ⟨g, hg, hgurn, hgl, .inl harch⟩
      | true =>
        obtain ⟨l, hl, hlurn, hllive, hrank⟩ :=
          hcovered g hg hgurn harch (editor_le_of_writes hgl hw) (hlive hw)
        exact ⟨l, hl, hlurn, levelAllowsVerb_mono hrank hgl, .inl hllive⟩

theorem forall_permits_nil_iff :
    (∀ verb, s.Permits env [] verb ↔ s.GrantPermits [] verb) ↔ s.Covered [] := by
  have hnone : ∀ verb, ¬ s.Permits env [] verb := by
    rintro verb ⟨d, hd, -⟩
    rw [overlay_nil] at hd
    cases hd
  rw [Covered, if_pos rfl]
  constructor
  · intro hexact g hg hgurn
    by_contra hvalid
    refine hnone verbRead ((hexact verbRead).mpr ⟨g, hg, hgurn, allows_read_iff.mpr ?_, .inr ?_⟩)
    · exact Bool.eq_true_of_not_eq_false hvalid
    · decide
  · intro hcovered verb
    refine ⟨fun h => absurd h (hnone verb), ?_⟩
    rintro ⟨g, hg, hgurn, hgl, -⟩
    have hinvalid := hcovered g hg hgurn
    cases hlevel : g.level with
    | other text =>
      rw [hlevel] at hgl
      cases (of_decide_eq_true hgl : verb ∈ [])
    | viewer | editor | owner =>
      rw [hlevel] at hinvalid
      cases hinvalid

theorem decision_of_merges {gs gs' : List ResourceGrant} {e e' : ResourceEntry}
    (hperm : gs'.Perm gs) (h : Merges gs e) (h' : Merges gs' e') : e'.archived = e.archived ∧
      (e'.level = e.level ∨ ∀ verb, levelAllowsVerb e'.level verb = false ∧
        levelAllowsVerb e.level verb = false) := by
  have hrank : levelRank e'.level = levelRank e.level := by
    refine le_antisymm ?_ ?_
    · obtain ⟨g, hg, hl⟩ := h'.level_mem
      exact hl ▸ h.rank_le g (hperm.mem_iff.mp hg)
    · obtain ⟨g, hg, hl⟩ := h.level_mem
      exact hl ▸ h'.rank_le g (hperm.mem_iff.mpr hg)
  constructor
  · rw [Bool.eq_iff_iff, h.archived_iff, h'.archived_iff]
    simp only [hperm.mem_iff]
  · rcases Nat.eq_zero_or_pos (levelRank e'.level) with hzero | hpos
    · have hnone : ∀ {l : GrantLevel}, levelRank l = 0 →
          ∀ verb, levelAllowsVerb l verb = false := by
        intro l hl verb
        cases l with
        | other text => exact decide_eq_false List.not_mem_nil
        | viewer | editor | owner => cases hl
      exact .inr fun verb => ⟨hnone hzero verb, hnone (hrank ▸ hzero) verb⟩
    · exact .inl (level_eq_of_rank hrank hpos)

theorem overlay_perm
    (hinj : ∀ g ∈ s.resourceGrants, urnHash env g.urn = urnHash env urn → g.urn = urn)
    {gs : List ResourceGrant} (hperm : gs.Perm s.resourceGrants) (verb : Bytes) :
    ({ s with resourceGrants := gs } : Snapshot).overlay env urn verb = s.overlay env urn verb := by
  rcases eq_or_ne urn [] with rfl | hurn
  · rw [overlay_nil, overlay_nil]
  have h := merges_of_lookup hinj
  have h' := merges_of_lookup (s := { s with resourceGrants := gs })
    fun g hg => hinj g (hperm.mem_iff.mp hg)
  have hfilter := hperm.filter (·.urn = urn)
  rw [overlay_eq hurn, overlay_eq hurn]
  cases he : (flatten env s).resources.lookup (urnHash env urn) with
  | none =>
    cases he' : (flatten env { s with resourceGrants := gs }).resources.lookup
      (urnHash env urn) with
    | none => rfl
    | some e' =>
      rw [he] at h
      rw [he'] at h'
      obtain ⟨g, hg, -⟩ := h'.level_mem
      rw [hfilter.mem_iff, (h : _ = [])] at hg
      cases hg
  | some e =>
    cases he' : (flatten env { s with resourceGrants := gs }).resources.lookup
      (urnHash env urn) with
    | none =>
      rw [he] at h
      rw [he'] at h'
      obtain ⟨g, hg, -⟩ := h.level_mem
      rw [← hfilter.mem_iff, (h' : _ = [])] at hg
      cases hg
    | some e' =>
      rw [he] at h
      rw [he'] at h'
      obtain ⟨harch, hlevel | hlevel⟩ := decision_of_merges hfilter h h'
      · rw [Option.bind_some, Option.bind_some, harch, hlevel]
      · rw [Option.bind_some, Option.bind_some, if_pos (hlevel verb).1, if_pos (hlevel verb).2]

/-- Where no other URN of the snapshot has the hash of this one, the merge is exact when
the writes of its archived grants are covered by live ones. -/
theorem mergesExactly_iff
    (hinj : ∀ g ∈ s.resourceGrants, urnHash env g.urn = urnHash env urn → g.urn = urn) :
    s.MergesExactly env urn ↔ s.Covered urn := by
  have hcovered : (∀ verb, s.Permits env urn verb ↔ s.GrantPermits urn verb) ↔ s.Covered urn := by
    rcases eq_or_ne urn [] with rfl | hurn
    · exact forall_permits_nil_iff
    · exact forall_permits_iff_covered hurn hinj
  exact ⟨fun h => hcovered.mp h.permits_iff,
    fun h => ⟨hcovered.mpr h, fun gs hperm => overlay_perm hinj hperm⟩⟩

end Exact

end Snapshot

/-! ## A dashboard shared through two workspaces -/

/-- An owner through the archived workspace `...03` who is a viewer through `...01`. -/
def twiceShared (level : GrantLevel) : Snapshot where
  __ := sampleSnapshot
  resourceGrants :=
    [⟨bytes "wr:t-a:chart:dashboard/d-9", .owner, Uuid.ofByte 3, true⟩,
      ⟨bytes "wr:t-a:chart:dashboard/d-9", level, Uuid.ofByte 1, false⟩]

theorem twiceShared_urn {level : GrantLevel} :
    ∀ g ∈ (twiceShared level).resourceGrants, g.urn = bytes "wr:t-a:chart:dashboard/d-9" := by
  intro g hg
  rcases List.mem_cons.mp hg with rfl | hg
  · rfl
  · rw [List.mem_singleton.mp hg]

/-- An owner through both workspaces may do what an owner may do. -/
theorem mergesExactly_twice_owner :
    (twiceShared .owner).MergesExactly sampleExt (bytes "wr:t-a:chart:dashboard/d-9") := by
  refine (Snapshot.mergesExactly_iff fun g hg _ => twiceShared_urn g hg).mpr ?_
  rw [Snapshot.Covered, if_neg (by decide)]
  intro g _ _ _ _ _
  refine ⟨⟨bytes "wr:t-a:chart:dashboard/d-9", .owner, Uuid.ofByte 1, false⟩,
    List.mem_cons_of_mem _ List.mem_cons_self, rfl, rfl, ?_⟩
  cases g.level <;> simp [levelRank]

/-- A viewer deletes: the level comes from the archived workspace and the rest from the
live one. -/
theorem viewer_deletes : ¬ (∀ (env : Ext) (s : Snapshot) (urn : Bytes),
        (∀ g ∈ s.resourceGrants, urnHash env g.urn = urnHash env urn → g.urn = urn) →
          s.MergesExactly env urn) := by
  intro h
  have hexact := h sampleExt (twiceShared .viewer) (bytes "wr:t-a:chart:dashboard/d-9")
    fun g hg _ => twiceShared_urn g hg
  have hpermits : (twiceShared .viewer).Permits sampleExt (bytes "wr:t-a:chart:dashboard/d-9")
      verbDelete := ⟨allow (.resourceGrant .owner), by decide, rfl⟩
  obtain ⟨g, hg, -, hlevel, hopen⟩ := (hexact.permits_iff verbDelete).mp hpermits
  rcases List.mem_cons.mp hg with rfl | hg
  · exact absurd hopen (by decide)
  · rw [List.mem_singleton.mp hg] at hlevel
    exact absurd hlevel (by decide)

end Windrose.Rbac

/-
  Packs/InstallerRuns.lean --- when pack operations touch only what the pack created.

  Source: services/pack-service/app/domain/installer.py,
  services/pack-service/app/api/routes/installs.py.

  `run_uninstall` asks a row whether it is reversible for roles only, so what an install
  found is deleted like what it made.  `World.Fits` says of an install that it finds nothing
  that another made.  A live row holds all that it would delete (`Good.rows`).
-/
import Windrose.Packs.Materialize

set_option autoImplicit false

namespace Windrose.Packs

open Windrose.Foundation

/-! ## A whole install -/

/-- The entries that an install materializes. -/
def Manifest.phase1 (m : Manifest) : List (Kind × Entry) := m.entries.filter (·.1 ≠ .dashboards)

/-- The entries that wait for the semantic models. -/
def Manifest.phase2 (m : Manifest) : List (Kind × Entry) := m.entries.filter (·.1 = .dashboards)

variable {m : Manifest} {e : Entry} {kind : Kind}

theorem mem_numberedOf (h : e ∈ m.entriesOf kind) : ∃ x ∈ m.numberedOf kind, x.2 = e := by
  obtain ⟨c, hc, he⟩ := List.mem_flatMap.mp h
  obtain ⟨i, hi⟩ := List.mem_iff_getElem?.mp he
  exact ⟨(s!"{c.identity}_{i}", e), List.mem_flatMap.mpr ⟨c, hc, List.mem_map.mpr
    ⟨(e, i), List.mem_zipIdx_iff_getElem?.mpr hi, rfl⟩⟩, rfl⟩

theorem mem_entriesOf : e ∈ m.entriesOf kind ↔ (kind, e) ∈ m.entries := by
  rw [Manifest.entriesOf, Manifest.componentsOf, Manifest.entries, List.mem_flatMap,
    List.mem_flatMap]
  constructor
  · rintro ⟨c, hc, he⟩
    obtain ⟨hc, hkind⟩ := List.mem_filter.mp hc
    refine ⟨c, hc, List.mem_map.mpr ⟨e, he, ?_⟩⟩
    rw [of_decide_eq_true hkind]
  · rintro ⟨c, hc, he⟩
    obtain ⟨e', he', heq⟩ := List.mem_map.mp he
    obtain ⟨rfl, rfl⟩ := Prod.mk.inj heq
    exact ⟨c, List.mem_filter.mpr ⟨hc, decide_eq_true rfl⟩, he'⟩

theorem mem_phase1 (he : e ∈ m.entriesOf kind)
    (hkind : kind ≠ .dashboards) : (kind, e) ∈ m.phase1 :=
  List.mem_filter.mpr ⟨mem_entriesOf.mp he, decide_eq_true hkind⟩

theorem mem_phase2 (he : e ∈ m.entriesOf .dashboards) : (.dashboards, e) ∈ m.phase2 :=
  List.mem_filter.mpr ⟨mem_entriesOf.mp he, decide_eq_true rfl⟩

/-- Every dataset that the manifest declares is there or is shipped, and the cases and the
pipelines refer to declared ones. -/
structure Resolved (bindings : List (String × Id)) (t : Tenant) (m : Manifest) : Prop where
  datasets : ∀ e ∈ m.entriesOf .datasets, Resolves bindings t e
  cases : ∀ c ∈ m.componentsOf .cases, ∃ d ∈ m.entriesOf .datasets, d.identity = c.dataset
  pipelines : ∀ e ∈ m.entriesOf .pipelines, ∃ d ∈ m.entriesOf .datasets, d.identity = e.dataset

/-- What the install of a manifest makes under a key. -/
def Manifest.Makes (m : Manifest) (k : Kind) (s : String) : Prop :=
  ∃ x ∈ m.phase1, Packs.Makes x.1 x.2 k s

variable {p : String}

section Install

variable {m : Manifest} {prior : List Row} {bindings : List (String × Id)} {t : Tenant}

theorem stage {N : Kind → String → Prop} {α : Type} {f : Progress → α → Progress}
    {Q : α → Progress → Prop} {x : Progress} (x₀ : Progress) (l : List α)
    (hkeep : ∀ a x y, Continues p N prior x y → Q a x → Q a y)
    (hstep : ∀ a ∈ l, ∀ x, Continues p N prior x₀ x → Continues p N prior x (f x a) ∧ Q a (f x a))
    (hx : Continues p N prior x₀ x) :
    Continues p N prior x (l.foldl f x) ∧ ∀ a ∈ l, Q a (l.foldl f x) :=
  foldl_along (fun x => .refl x) (fun _ _ _ h h' => h.trans h') hkeep l hstep hx

theorem runInc1_spec (bindings : List (String × Id))
    (hclear : ∀ x ∈ m.phase1, Clear m.name prior t x.1 x.2) :
    Continues m.name m.Makes prior { tenant := t } (runInc1 m.name m { tenant := t }) ∧
      ∀ kind ∈ inc1Kinds, ∀ e ∈ m.entriesOf kind,
        present m.name bindings kind e (runInc1 m.name m { tenant := t }).tenant = true := by
  refine stage (Q := fun kind x => ∀ e ∈ m.entriesOf kind,
    present m.name bindings kind e x.tenant = true) { tenant := t } inc1Kinds
    (fun _ _ _ h hq e he => h.grows.present (hq e he)) (fun kind hkind x hx => ?_) (.refl _)
  refine stage (Q := fun e x => present m.name bindings kind e x.tenant = true)
    { tenant := t } (m.entriesOf kind) (fun _ _ _ h hq => h.grows.present hq)
    (fun e he y hy => ?_) hx
  have hkinds : ∀ kind ∈ inc1Kinds,
      kind ≠ .dashboards ∧ kind ≠ .memories ∧ kind ≠ .datasets := by decide
  have hnot := hkinds kind hkind
  have hmem := mem_phase1 he hnot.1
  have hdoes := ensureInc1_does hkind hy.grows
    (fun k s h => (⟨(kind, e), hmem, h⟩ : m.Makes k s)) (hclear _ hmem)
  exact ⟨.call hdoes, present_of_there hnot.2 hdoes.there⟩

theorem runInstall_spec (bindings : List (String × Id))
    (hclear : ∀ x ∈ m.phase1, Clear m.name prior t x.1 x.2) :
    Continues m.name m.Makes prior { tenant := t } (runInstall m bindings t) ∧
      (Resolved bindings t m → ∀ x ∈ m.phase1,
        present m.name bindings x.1 x.2 (runInstall m bindings t).tenant = true) := by
  have hkeep : ∀ (kind : Kind) (e : Entry) (x y : Progress),
      Continues m.name m.Makes prior x y → present m.name bindings kind e x.tenant = true →
      present m.name bindings kind e y.tenant = true := fun _ _ _ _ h hq => h.grows.present hq
  obtain ⟨h₁, inc1⟩ := runInc1_spec bindings hclear
  rw [runInstall, runDataChain]
  generalize runInc1 m.name m { tenant := t } = x₁ at h₁ inc1 ⊢
  obtain ⟨h₂, datasets⟩ := stage (f := installDataset m.name bindings)
    (Q := fun e x => Resolves bindings t e → (x.datasetUrns.lookup e.identity).isSome ∧
      present m.name bindings .datasets e x.tenant = true) { tenant := t } (m.entriesOf .datasets)
    (fun e x y h hq hres => ⟨h.urns _ (hq hres).1, h.grows.present (hq hres).2⟩)
    (fun e _ x hx => continues_installDataset hx.grows) h₁
  generalize (m.entriesOf .datasets).foldl (installDataset m.name bindings) x₁ = x₂ at h₂ datasets ⊢
  obtain ⟨h₃, models⟩ := stage
    (f := fun x e => x.call (semanticDraft m.name e) .semanticModels e.name)
    { tenant := t } (m.entriesOf .semanticModels) (hkeep .semanticModels)
    (fun e _ x _ => continues_draft (.inl rfl) (semanticDraft_tenant x.tenant)) (h₁.trans h₂)
  generalize (m.entriesOf .semanticModels).foldl
    (fun x e => x.call (semanticDraft m.name e) .semanticModels e.name) x₂ = x₃ at h₃ models ⊢
  have t₃ := (h₁.trans h₂).trans h₃
  obtain ⟨h₄, verified⟩ := stage
    (f := fun x e => x.call (verifiedQuery m.name e.2) .verifiedQueries e.1)
    (Q := fun e x => present m.name bindings .verifiedQueries e.2 x.tenant = true)
    { tenant := t } (m.numberedOf .verifiedQueries) (fun e => hkeep .verifiedQueries e.2)
    (fun e _ x _ => continues_draft (.inr rfl) (verifiedQuery_tenant x.tenant)) t₃
  generalize (m.numberedOf .verifiedQueries).foldl
    (fun x e => x.call (verifiedQuery m.name e.2) .verifiedQueries e.1) x₃ = x₄ at h₄ verified ⊢
  have t₄ := t₃.trans h₄
  obtain ⟨h₅, saved⟩ := stage
    (f := fun x e => x.call (ensureSavedQuery m.name e) .savedQueries e.name)
    { tenant := t } (m.entriesOf .savedQueries) (hkeep .savedQueries)
    (fun e he x hx => by
      have hdoes := does_named (e := e) hx.grows (.inl rfl)
        (hclear _ (mem_phase1 he (by decide)))
      exact ⟨.call hdoes, present_of_there (by decide) hdoes.there⟩) t₄
  generalize (m.entriesOf .savedQueries).foldl
    (fun x e => x.call (ensureSavedQuery m.name e) .savedQueries e.name) x₄ = x₅ at h₅ saved ⊢
  have t₅ := t₄.trans h₅
  -- the datasets stay resolved up to the cases and the pipelines
  have resolved : Resolved bindings t m → ∀ ref, (∃ d ∈ m.entriesOf .datasets, d.identity = ref) →
      (x₅.datasetUrns.lookup ref).isSome := by
    rintro hres _ ⟨d, hd, rfl⟩
    exact ((h₃.trans h₄).trans h₅).urns _ (datasets d hd (hres.datasets d hd)).1
  obtain ⟨h₆, cases⟩ := stage (f := installCases m.name)
    (Q := fun c x => Resolved bindings t m → ∀ e ∈ c.entries,
      present m.name bindings .cases e x.tenant = true) x₅ (m.componentsOf .cases)
    (fun c x y h hq hres e he => h.grows.present (hq hres e he))
    (fun c hc x hx => by
      obtain ⟨hcont, hpresent⟩ := continues_installCases bindings c
      exact ⟨hcont, fun hres => hpresent (hx.urns _ (resolved hres _ (hres.cases c hc)))⟩)
    (Continues.refl x₅ : Continues m.name m.Makes prior x₅ x₅)
  generalize (m.componentsOf .cases).foldl (installCases m.name) x₅ = x₆ at h₆ cases ⊢
  obtain ⟨h₇, pipelines⟩ := stage (f := installPipeline m.name)
    (Q := fun e x => Resolved bindings t m → present m.name bindings .pipelines e x.tenant = true)
    x₅ (m.entriesOf .pipelines) (fun e x y h hq hres => h.grows.present (hq hres))
    (fun e he x hx => by
      obtain ⟨hcont, hpresent⟩ := continues_installPipeline bindings
        (t₅.trans hx).grows (hclear _ (mem_phase1 he (by decide)))
      exact ⟨hcont, fun hres => hpresent (hx.urns _ (resolved hres _ (hres.pipelines e he)))⟩) h₆
  generalize (m.entriesOf .pipelines).foldl (installPipeline m.name) x₆ = x₇ at h₇ pipelines ⊢
  obtain ⟨h₈, memories⟩ := stage (f := installMemories m.name)
    (Q := fun c x => ∀ e ∈ c.entries, present m.name bindings .memories e x.tenant = true)
    x₅ (m.componentsOf .memories) (fun c x y h hq e he => h.grows.present (hq e he))
    (fun c _ x _ => continues_installMemories c) (h₆.trans h₇)
  generalize (m.componentsOf .memories).foldl (installMemories m.name) x₇ = x₈ at h₈ memories ⊢
  have r₇ := h₇.trans h₈
  have r₆ := h₆.trans r₇
  have r₅ := h₅.trans r₆
  have r₄ := h₄.trans r₅
  have r₃ := h₃.trans r₄
  refine ⟨t₅.trans r₆, ?_⟩
  rintro hres ⟨kind, e⟩ hx
  obtain ⟨hmem, hdash⟩ := List.mem_filter.mp hx
  have he := mem_entriesOf.mpr hmem
  obtain ⟨c, hc, hec⟩ := List.mem_flatMap.mp he
  show present m.name bindings kind e x₈.tenant = true
  cases kind
  case dashboards => exact absurd rfl (of_decide_eq_true hdash)
  case permissionGroups => exact absurd (of_decide_eq_true (List.mem_filter.mp hc).2) c.supported
  case datasets => exact hkeep _ _ _ _ r₃ (datasets e he (hres.datasets e he)).2
  case semanticModels => exact hkeep _ _ _ _ r₄ (models e he)
  case verifiedQueries =>
    obtain ⟨numbered, hnumbered, rfl⟩ := mem_numberedOf he
    exact hkeep _ _ _ _ r₅ (verified numbered hnumbered)
  case savedQueries => exact hkeep _ _ _ _ r₆ (saved e he)
  case cases => exact hkeep _ _ _ _ r₇ (cases c hc hres e hec)
  case pipelines => exact hkeep _ _ _ _ h₈ (pipelines e he hres)
  case memories => exact memories c hc e hec
  all_goals exact hkeep _ _ _ _ (h₂.trans r₃) (inc1 _ (by decide) e he)

theorem runInstall_rows (hclear : ∀ x ∈ m.phase1, Clear m.name prior t x.1 x.2) :
    ∀ r ∈ (runInstall m bindings t).records,
      RowHeld m.name (runInstall m bindings t).tenant (carryOver prior r) := by
  intro r hr
  rcases (runInstall_spec _ hclear).1.rows r hr with hr | ⟨-, hheld⟩
  · exact nomatch hr
  · exact hheld

theorem runComplete_spec {x : Progress} (h : runComplete m t = some x)
    (hclear : modelsPublished m t = true → ∀ x ∈ m.phase2, Clear m.name [] t x.1 x.2) :
    Continues m.name (fun _ _ => False) [] { tenant := t } x := by
  rw [runComplete] at h
  split at h
  · next hpub =>
    cases h
    refine (stage (Q := fun _ _ => True) { tenant := t } (m.entriesOf .dashboards)
      (fun _ _ _ _ _ => trivial) (fun e he x hx => ⟨?_, trivial⟩) (.refl _)).1
    have hclear' := hclear hpub _ (mem_phase2 he)
    have hdoes : Does m.name (fun _ _ => False) [] .dashboards e x.tenant
        (ensureDashboard m.name e x.tenant) := does_named hx.grows (.inr (.inr rfl)) hclear'
    refine .of_row hdoes.grows rfl (rowHeld_of_held (fun h => nomatch h) fun id hid => ?_)
    obtain ⟨o, hfind, hoid⟩ := ensureNamed_find m.name .dashboards e.name .plain x.tenant
    obtain rfl : o.id = id := Option.some.inj (hoid.symm.trans hid)
    refine held_of_find hfind ((hx.grows.trans hdoes.grows).owned fun o ho hkind hkey => ?_)
    exact hclear' o ho ⟨hkey, hkind, rfl⟩
  · cases h

end Install

/-! ## Deleting -/

section Delete

variable {t : Tenant} {xs : List (Kind × Id)} {o : Obj}

theorem deleteAll_spec (s : Tenant × List Obj) (xs : List (Kind × Id)) :
    let s' := xs.foldl
      (fun s x => (s.1.delete x, s.2 ++ s.1.objects.filter fun o => (o.kind, o.id) = x)) s
    s'.1.next = s.1.next ∧
      (∀ o, o ∈ s'.1.objects ↔ o ∈ s.1.objects ∧ (o.kind, o.id) ∉ xs) ∧
      ∀ o ∈ s'.2, o ∈ s.2 ∨ o ∈ s.1.objects ∧ (o.kind, o.id) ∈ xs := by
  induction xs generalizing s with
  | nil =>
    refine ⟨rfl, fun o => ?_, fun o ho => .inl ho⟩
    exact (and_iff_left List.not_mem_nil).symm
  | cons x xs ih =>
    obtain ⟨hnext, hleft, hdeleted⟩ :=
      ih (s.1.delete x, s.2 ++ s.1.objects.filter fun o => (o.kind, o.id) = x)
    have hmem : ∀ o, o ∈ (s.1.delete x).objects ↔ o ∈ s.1.objects ∧ ¬ (o.kind, o.id) = x := by
      intro o
      rw [Tenant.delete, List.mem_filter, decide_eq_true_eq]
    refine ⟨hnext, fun o => ?_, fun o ho => ?_⟩
    · rw [List.foldl_cons, hleft o, hmem o, List.mem_cons, not_or, and_assoc]
    · rcases hdeleted o ho with ho | ⟨ho, hx⟩
      · refine (List.mem_append.mp ho).imp_right fun ho => ?_
        obtain ⟨ho, hx⟩ := List.mem_filter.mp ho
        exact ⟨ho, List.mem_cons.mpr (.inl (of_decide_eq_true hx))⟩
      · exact .inr ⟨((hmem o).mp ho).1, List.mem_cons_of_mem _ hx⟩

theorem mem_deleteAll : o ∈ (deleteAll t xs).1.objects ↔ o ∈ t.objects ∧ (o.kind, o.id) ∉ xs :=
  (deleteAll_spec (t, []) xs).2.1 o

theorem mem_deleted (h : o ∈ (deleteAll t xs).2) : o ∈ t.objects ∧ (o.kind, o.id) ∈ xs :=
  ((deleteAll_spec (t, []) xs).2.2 o h).resolve_left List.not_mem_nil

theorem RowHeld.deleteAll {r : Row} (h : RowHeld p t r) (xs : List (Kind × Id)) :
    RowHeld p (deleteAll t xs).1 r := by
  intro x hx
  refine (h x hx).mono (deleteAll_spec (t, []) xs).1.ge fun o ho => ?_
  exact ⟨o, (mem_deleteAll.mp ho).1, rfl, rfl, rfl, rfl⟩

theorem owned_runUninstall {ledger : List Row}
    (hheld : ∀ r ∈ ledger, r.tombstoned = false → RowHeld p t r)
    (ho : o ∈ (runUninstall ledger t).2) : p ∈ o.creators := by
  obtain ⟨hmem, hx⟩ := mem_deleted ho
  obtain ⟨r, hr, hx⟩ := List.mem_flatMap.mp hx
  obtain ⟨hr, hlive⟩ := List.mem_filter.mp hr
  rw [Bool.not_eq_true'] at hlive
  exact ((hheld r hr hlive _ hx).owned o hmem rfl).1

end Delete

namespace World

/-! ## What is promised -/

/-- Every deleted object was created by the pack whose ledger it was deleted for, and every
upgrade and rollback left its whole target. -/
def Sound (w : World) : Prop := (∀ x ∈ w.deleted, x.1 ∈ x.2.creators) ∧ w.lacking = []

/-- Nothing that is made is gone from Core while the row of another pack names its key. -/
def Undisturbed (w : World) (p : String) (N : Kind → String → Prop) : Prop :=
  ∀ inst ∈ w.installs, inst.pack ≠ p → ∀ r ∈ inst.ledger, r.tombstoned = false →
    ∀ x ∈ r.targets, x.1.keyed = true → N x.1 r.identity → (w.tenant.find x.1 r.identity).isSome

/-- The object is what an entry of a pack names. -/
def Names (p : String) (x : Kind × Entry) (o : Obj) : Prop :=
  if x.1 = .memories then isMemory (sourceTag p) x.2.name o = true else
    o.kind = x.1 ∧ o.key = x.2.name

/-- A version can take the place of an install. -/
structure FitsTransition (w : World) (prior : Install) (target : Manifest)
    (bindings : List (String × Id)) : Prop where
  /-- What the target finds is its pack's. -/
  clear : ∀ x ∈ target.phase1, Clear target.name prior.ledger w.tenant x.1 x.2
  undisturbed : w.Undisturbed target.name target.Makes
  resolved : Resolved bindings w.tenant target
  /-- The dashboards, which an upgrade does not materialize, are there. -/
  dashboards : ∀ x ∈ target.phase2, (w.tenant.find x.1 x.2.name).isSome
  /-- The memories and dashboards of the prior rows that the target does not name are not the
  target's under another name. -/
  renamed : ∀ r ∈ removedRows prior.ledger target, r.kind = .memories ∨ r.kind = .dashboards →
    ∀ o ∈ w.tenant.objects, (o.kind, o.id) ∈ r.targets → ∀ x ∈ target.entries,
      ¬ Names target.name x o

/-- The operation finds nothing that another pack or the tenant made. -/
def Fits (w : World) : Op → Prop
  | .install m _ =>
    (∀ x ∈ m.phase1, Clear m.name [] w.tenant x.1 x.2) ∧ w.Undisturbed m.name m.Makes
  | .complete i m =>
    ∀ inst, w.installs[i]? = some inst → inst.pack = m.name →
      modelsPublished m w.tenant = true → ∀ x ∈ m.phase2, Clear m.name [] w.tenant x.1 x.2
  | .upgrade i m bindings =>
    ∀ prior, w.installs[i]? = some prior → prior.pack = m.name ∧ prior.supersededBy = none →
      w.FitsTransition prior m bindings
  | .rollback i version bindings =>
    ∀ prior, w.installs[i]? = some prior → prior.supersededBy = none →
      ∀ target, w.rollbackTarget prior version = some target →
        w.FitsTransition prior target.manifest bindings
  | .uninstall _ | .publish _ => True

/-! ## The invariant -/

/-- The invariant: what a ledger row may delete is the pack's. -/
structure Good (w : World) : Prop where
  rows : ∀ inst ∈ w.installs, ∀ r ∈ inst.ledger, r.tombstoned = false →
    RowHeld inst.pack w.tenant r
  sound : w.Sound

variable {w : World}

theorem rows_grow {q : String} {N : Kind → String → Prop} {t' : Tenant} (hw : Good w)
    (hg : Grows q N w.tenant t') (hfree : w.Undisturbed q N) :
    ∀ inst ∈ w.installs, ∀ r ∈ inst.ledger, r.tombstoned = false → RowHeld inst.pack t' r := by
  intro inst hinst r hr hlive x hx
  refine (hw.rows inst hinst r hr hlive x hx).grows hg ?_
  by_cases hpack : q = inst.pack
  · exact .inl hpack
  · exact .inr (hfree inst hinst (Ne.symm hpack) r hr hlive x hx)

theorem rows_set {t : Tenant} {i : Nat} {inst' : Install}
    (hrows : ∀ inst ∈ w.installs, ∀ r ∈ inst.ledger, r.tombstoned = false → RowHeld inst.pack t r)
    (hnew : ∀ r ∈ inst'.ledger, r.tombstoned = false → RowHeld inst'.pack t r) :
    ∀ inst ∈ w.installs.set i inst', ∀ r ∈ inst.ledger, r.tombstoned = false →
      RowHeld inst.pack t r := by
  intro inst hinst
  rcases List.mem_or_eq_of_mem_set hinst with hinst | rfl
  · exact hrows inst hinst
  · exact hnew

variable {inst : Install}

theorem tombstoneAll_dead : ∀ r ∈ inst.tombstoneAll.ledger, r.tombstoned = false → False := by
  intro r hr hlive
  obtain ⟨r, -, rfl⟩ := List.mem_map.mp hr
  cases hlive

theorem good_runInstall {bindings : List (String × Id)} (hw : Good w)
    (hfits : w.Fits (.install m bindings)) : Good (w.runInstall m bindings) := by
  obtain ⟨hclear, hfree⟩ := hfits
  refine ⟨fun inst hinst => ?_, hw.sound⟩
  rcases List.mem_append.mp hinst with hinst | hinst
  · exact rows_grow hw (runInstall_spec _ hclear).1.grows hfree inst hinst
  · cases List.mem_singleton.mp hinst
    exact fun r hr _ => runInstall_rows hclear r hr

theorem good_complete {i : Nat} (hw : Good w)
    (hinst : w.installs[i]? = some inst) (hpack : inst.pack = m.name)
    (hclear : modelsPublished m w.tenant = true →
      ∀ x ∈ m.phase2, Clear m.name [] w.tenant x.1 x.2) : Good (w.complete i inst m) := by
  rw [complete]
  split
  · exact hw
  · next x hx =>
    have hcont := runComplete_spec hx hclear
    have hrows := rows_grow hw hcont.grows fun _ _ _ _ _ _ _ _ _ h => h.elim
    refine ⟨rows_set hrows fun r hr hlive => ?_, hw.sound⟩
    rcases List.mem_append.mp hr with hr | hr
    · exact hrows inst (List.mem_of_getElem? hinst) r hr hlive
    · rcases hcont.rows r hr with hr | ⟨-, hheld⟩
      · cases hr
      · show RowHeld inst.pack x.tenant r
        rw [hpack]
        exact hheld

theorem good_uninstall {i : Nat} (hw : Good w)
    (hinst : w.installs[i]? = some inst) : Good (w.uninstall i inst) := by
  refine ⟨rows_set (fun inst' hinst' r hr hlive => ?_) fun r hr hlive => ?_, fun x hx => ?_,
    hw.sound.2⟩
  · exact (hw.rows inst' hinst' r hr hlive).deleteAll _
  · exact (tombstoneAll_dead r hr hlive).elim
  · rcases List.mem_append.mp hx with hx | hx
    · exact hw.sound.1 x hx
    · obtain ⟨o, ho, rfl⟩ := List.mem_map.mp hx
      exact owned_runUninstall (hw.rows inst (List.mem_of_getElem? hinst)) ho

theorem good_publish (hw : Good w) (name : String) :
    Good { w with tenant := w.tenant.publish name } := by
  refine ⟨fun inst hinst r hr hlive x hx => ?_, hw.sound⟩
  refine (hw.rows inst hinst r hr hlive x hx).mono (Nat.le_refl _) fun o' ho' => ?_
  obtain ⟨o, ho, rfl⟩ := List.mem_map.mp ho'
  refine ⟨o, ho, ?_⟩
  split <;> exact ⟨rfl, rfl, rfl, rfl⟩

/-! ## Upgrades and rollbacks -/

section Transition

variable {i : Nat} {prior : Install} {target : Manifest} {bindings : List (String × Id)}

variable {x : Kind × Entry}

theorem names_kind {o : Obj} (h : Names p x o) : o.kind = x.1 := by
  rw [Names] at h
  split at h
  · next hkind =>
    rw [isMemory, Bool.and_eq_true, Bool.and_eq_true, decide_eq_true_eq] at h
    exact h.1.1.trans hkind.symm
  · exact h.1

theorem names_extends {o o' : Obj} (hext : o'.Extends o)
    (hkind : x.1.isSetting = false) (h : Names p x o') : Names p x o := by
  have hkey := (names_kind h).symm.trans hext.kind
  by_cases hm : x.1 = .memories
  · rw [Names, if_pos hm, isMemory] at h ⊢
    rwa [hext.kind, hext.key, hext.details (hkey ▸ hkind)] at h
  · rw [Names, if_neg hm] at h ⊢
    rwa [hext.kind, hext.key] at h

theorem mem_targetObjectNames (he : (kind, e) ∈ target.entries)
    (hrev : kind.isReversible = true) (hkind : ¬ (kind = .memories ∨ kind = .dashboards)) :
    (kind, e.name) ∈ targetObjectNames target := by
  obtain ⟨c, hc, he⟩ := List.mem_flatMap.mp he
  obtain ⟨e', he', heq⟩ := List.mem_map.mp he
  obtain ⟨rfl, rfl⟩ := Prod.mk.inj heq
  refine List.mem_flatMap.mpr ⟨c, hc, List.mem_map.mpr ⟨e'.name, ?_, rfl⟩⟩
  rw [componentNames]
  split
  · next h => exact absurd (.inl h) hkind
  · next h => exact absurd (.inr h) hkind
  · next h =>
    rw [h] at hrev
    cases hrev
  · exact List.mem_map.mpr ⟨e', he', rfl⟩

theorem not_removed (hw : Good w) (hprior : prior ∈ w.installs)
    (hfits : w.FitsTransition prior target bindings) (hx : x ∈ target.entries)
    {o : Obj} (ho : o ∈ (Packs.runInstall target bindings w.tenant).tenant.objects)
    (hkind : o.kind = x.1) (hnames : x.1.isReversible = true → Names target.name x o) :
    (o.kind, o.id) ∉
      ((removedRows prior.ledger target).filter (!·.tombstoned)).flatMap Row.targets := by
  intro hmem
  obtain ⟨r, hr, hx'⟩ := List.mem_flatMap.mp hmem
  have hremoved := (List.mem_filter.mp hr).1
  obtain ⟨hr, hgone⟩ := List.mem_filter.mp hremoved
  obtain ⟨hr, hlive⟩ := List.mem_filter.mp hr
  rw [Bool.not_eq_true'] at hlive
  rw [decide_eq_true_eq] at hgone
  have hcont := (runInstall_spec bindings hfits.clear).1
  have hbefore := hw.rows prior hprior r hr hlive
  have hafter := rows_grow hw hcont.grows hfits.undisturbed prior hprior r hr hlive
  obtain ⟨id, -, hrev, -, heq | ⟨-, heq⟩⟩ := mem_targets hx'
  · obtain ⟨hrkind, hid⟩ := Prod.mk.inj heq
    have hsame : r.kind = x.1 := hrkind.symm.trans hkind
    have hxrev : x.1.isReversible = true := hsame ▸ hrev
    by_cases hcase : x.1 = .memories ∨ x.1 = .dashboards
    · have hplain : x.1.isSetting = false ∧ x.1.keyed = false := by
        rcases hcase with h | h <;> rw [h] <;> exact ⟨rfl, rfl⟩
      -- what the row is about was there before the install
      have hold : ∃ o₀ ∈ w.tenant.objects, o.Extends o₀ := by
        rcases hcont.grows.origin o ho with ho | ⟨-, hext | ⟨hnext, -⟩⟩
        · exact ⟨o, ho, .refl o⟩
        · exact hext
        · have huuid : o.id = .uuid o.uuid := by rw [Obj.id, hkind, hplain.2]; rfl
          exact absurd ((hbefore _ hx').issued _ huuid) (Nat.not_lt.mpr hnext)
      obtain ⟨o₀, ho₀, hext⟩ := hold
      refine hfits.renamed r hremoved (hsame ▸ hcase) o₀ ho₀ ?_ x hx
        (names_extends hext hplain.1 (hnames hxrev))
      rwa [← hext.kind, ← hext.id]
    · have hnot : x.1 ≠ .memories := fun h => hcase (.inl h)
      have hkey : o.key = r.identity := ((hafter _ hx').owned o ho rfl).2 (hkind ▸ hnot)
      have hname := hnames hxrev
      rw [Names, if_neg hnot] at hname
      refine hgone ?_
      rw [hsame, ← hkey, hname.2]
      exact mem_targetObjectNames hx hxrev hcase
  · obtain ⟨hgroup, -⟩ := Prod.mk.inj heq
    obtain ⟨c, -, he⟩ := List.mem_flatMap.mp hx
    obtain ⟨e, -, rfl⟩ := List.mem_map.mp he
    exact c.supported (hkind.symm.trans hgroup)

/-- Every entry of the target is there after the prior rows were reversed. -/
theorem present_runUpgrade (hw : Good w) (hprior : prior ∈ w.installs)
    (hfits : w.FitsTransition prior target bindings) (hx : x ∈ target.entries) :
    present target.name bindings x.1 x.2
      (runUpgrade target prior.ledger bindings w.tenant).tenant = true := by
  obtain ⟨hcont, hpresent⟩ := runInstall_spec bindings hfits.clear
  have hstays := fun {o : Obj} (ho : o ∈ (Packs.runInstall target bindings w.tenant).tenant.objects)
    hkind hnames => mem_deleteAll.mpr ⟨ho, not_removed hw hprior hfits hx ho hkind hnames⟩
  have hthere : present target.name bindings x.1 x.2
      (Packs.runInstall target bindings w.tenant).tenant = true := by
    by_cases hdash : x.1 = .dashboards
    · refine hcont.grows.present (present_of_there ?_ (.inl (hfits.dashboards x ?_)))
      · rw [hdash]
        decide
      · exact List.mem_filter.mpr ⟨hx, decide_eq_true hdash⟩
    · exact hpresent hfits.resolved x (List.mem_filter.mpr ⟨hx, decide_eq_true hdash⟩)
  -- what is found under the name of an entry is found afterwards
  have hfind : x.1 ≠ .memories →
      ((Packs.runInstall target bindings w.tenant).tenant.find x.1 x.2.name).isSome →
      ((runUpgrade target prior.ledger bindings w.tenant).tenant.find x.1 x.2.name).isSome := by
    intro hnot h
    obtain ⟨o, ho, hkind, hkey⟩ := Tenant.find_isSome.mp h
    refine Tenant.find_isSome.mpr ⟨o, hstays ho hkind fun _ => ?_, hkind, hkey⟩
    rw [Names, if_neg hnot]
    exact ⟨hkind, hkey⟩
  obtain ⟨kind, e⟩ := x
  cases kind
  case memories =>
    obtain ⟨o, ho, hm⟩ := List.any_eq_true.mp hthere
    have hnames : Names target.name (.memories, e) o := by
      rw [Names, if_pos rfl]
      exact hm
    exact List.any_eq_true.mpr ⟨o, hstays ho (names_kind hnames) fun _ => hnames, hm⟩
  case datasets =>
    rw [present] at hthere ⊢
    split at hthere
    · obtain ⟨o, ho, hp⟩ := List.any_eq_true.mp hthere
      exact List.any_eq_true.mpr
        ⟨o, hstays ho (of_decide_eq_true hp).1 (fun h => by cases h), hp⟩
    · exact hfind (fun h => by cases h) hthere
  case displayLabels | guardrails | agentConfigs =>
    rw [present, Bool.or_eq_true] at hthere ⊢
    exact hthere.imp_left (hfind fun h => by cases h)
  all_goals exact hfind (fun h => by cases h) hthere

theorem good_transition (hw : Good w) (hprior : w.installs[i]? = some prior)
    (hfits : w.FitsTransition prior target bindings) :
    Good (w.transition i prior target bindings) := by
  have hmem := List.mem_of_getElem? hprior
  have hgrows := (runInstall_spec bindings hfits.clear).1.grows
  have hrows := rows_grow hw hgrows hfits.undisturbed
  refine ⟨fun inst hinst => ?_, fun x hx => ?_, ?_⟩
  · rcases List.mem_append.mp hinst with hinst | hinst
    · refine rows_set (fun inst hinst r hr hlive => ?_) (fun r hr hlive => ?_) inst hinst
      · exact (hrows inst hinst r hr hlive).deleteAll _
      · exact (tombstoneAll_dead r hr hlive).elim
    · cases List.mem_singleton.mp hinst
      intro r hr _
      obtain ⟨r', hr', rfl⟩ := List.mem_map.mp hr
      exact (runInstall_rows hfits.clear r' hr').deleteAll _
  · rcases List.mem_append.mp hx with hx | hx
    · exact hw.sound.1 x hx
    · obtain ⟨o, ho, rfl⟩ := List.mem_map.mp hx
      refine owned_runUninstall (fun r hr hlive => hrows prior hmem r ?_ hlive) ho
      exact (List.mem_filter.mp (List.mem_filter.mp hr).1).1
  · have hnone : missing target bindings
        (runUpgrade target prior.ledger bindings w.tenant).tenant = [] := by
      refine List.filter_eq_nil_iff.mpr fun x hx => ?_
      rw [present_runUpgrade hw hmem hfits hx]
      exact Bool.false_ne_true
    show w.lacking ++ missing target bindings _ = []
    rw [hw.sound.2, hnone]
    rfl

end Transition

/-! ## Runs -/

theorem good_step (op : Op) (hw : Good w) (hfits : w.Fits op) : Good (w.step op) := by
  cases op with
  | install m bindings => exact good_runInstall hw hfits
  | complete i m =>
    rw [step]
    split
    · next inst hinst =>
      split
      · next hpack => exact good_complete hw hinst hpack (hfits inst hinst hpack)
      · exact hw
    · exact hw
  | upgrade i m bindings =>
    rw [step]
    split
    · next prior hprior =>
      split
      · next hmay => exact good_transition hw hprior (hfits prior hprior hmay)
      · exact hw
    · exact hw
  | rollback i version bindings =>
    rw [step]
    split
    · next prior hprior =>
      split
      · next hmay =>
        split
        · next target htarget =>
          exact good_transition hw hprior (hfits prior hprior hmay target htarget)
        · exact hw
      · exact hw
    · exact hw
  | uninstall i =>
    rw [step]
    split
    · next inst hinst => exact good_uninstall hw hinst
    · exact hw
  | publish name => exact good_publish hw name

/-- From any tenant, pack operations delete only what the pack created, and upgrades leave
their whole target, as long as they find nothing that another made. -/
theorem packs_exact (t : Tenant) (ops : List Op) (h : Each step Fits { tenant := t } ops) :
    Always step Sound { tenant := t } ops := by
  have hinit : Good { tenant := t } :=
    ⟨fun _ hinst => (nomatch hinst), fun _ hx => (nomatch hx), rfl⟩
  have hgood := always_of_each (P := Good) (C := Fits) (fun w op hw hfits => good_step op hw hfits)
    hinit h
  exact fun done hdone => (hgood done hdone).sound

/-- A pack with one saved query. -/
def openInvoices : Manifest :=
  ⟨"ap-audit", [{ kind := .savedQueries, identity := "queries", entries := [{ name := "open" }] }]⟩

/-- A workspace whose analyst has saved a query of that name. -/
def analyst : Tenant where
  objects := [⟨.savedQueries, "open", 0, .plain, []⟩]
  next := 1
  issued := by decide
  distinct := by decide

/-- The query of a workspace that has none is made and deleted. -/
theorem packs_exact_alone :
    let t : Tenant := ⟨[], 0, by decide, by decide⟩
    let ops : List Op := [.install openInvoices [], .uninstall 0]
    Always step Sound { tenant := t } ops ∧
      (run step { tenant := t } ops).deleted.length = 1 := by
  refine ⟨packs_exact _ _ (each_cons.mpr ⟨⟨?_, ?_⟩, each_cons.mpr ⟨trivial, each_nil _⟩⟩),
    by decide⟩
  · exact fun x _ o ho => (nomatch ho)
  · exact fun inst hinst => (nomatch hinst)

/-- The install finds the analyst's query and makes nothing.  The uninstall deletes it. -/
theorem adopted_query_deleted :
    ¬ ∀ (t : Tenant) (ops : List Op), Always step Sound { tenant := t } ops := by
  intro h
  have hsound := (h analyst [.install openInvoices [], .uninstall 0] _ List.prefix_rfl).1
  have hdeleted : (run step { tenant := analyst }
      [.install openInvoices [], .uninstall 0]).deleted =
      [("ap-audit", ⟨.savedQueries, "open", 0, .plain, []⟩)] := by decide
  rw [hdeleted] at hsound
  exact nomatch hsound _ List.mem_cons_self

end World

end Windrose.Packs

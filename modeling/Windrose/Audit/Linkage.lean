/-
  Audit/Linkage.lean --- the chain of a tenant's sealed manifests.

  Source: services/audit-service/internal/export/export.go (ExportDay, priorDate) and
  pgstore/pgstore.go (LatestManifest, InsertManifest).

  `ExportDay` takes the predecessor of a manifest from the calendar: the latest manifest
  of the day before, else the latest one of the same day.  So the manifests of a tenant are
  one chain along a run whose exports all find the tenant's newest manifest there
  (`manifests_linked`).

  An export is alone, and any of its round trips may fail; a failed lookup of the
  predecessor counts as none.  Between exports the rows, the checkpoints and the time
  change in any way.
-/
import Windrose.Foundation.Runs
import Windrose.Audit.Sealing

set_option autoImplicit false

namespace Windrose.Audit.Export

open Windrose.Foundation

/-! ## The chain -/

/-- Every manifest but the first names one before it, and every one but the newest is named
by one after it. -/
def Linked (manifests : List ManifestRow) : Prop :=
  ∀ before m after, manifests = before ++ m :: after →
    (before ≠ [] → ∃ e ∈ before, m.prevManifestSHA = e.manifestSHA256) ∧
      (after ≠ [] → ∃ l ∈ after, l.prevManifestSHA = m.manifestSHA256)

/-- The second manifest names the first. -/
def Names (m m' : ManifestRow) : Prop := m'.prevManifestSHA = m.manifestSHA256

theorem linked_of_isChain {manifests : List ManifestRow} (h : manifests.IsChain Names) :
    Linked manifests := by
  rintro before m after rfl
  obtain ⟨-, hafter, hlink⟩ := List.isChain_append.mp h
  constructor
  · intro hne
    refine ⟨before.getLast hne, List.getLast_mem hne, ?_⟩
    exact hlink _ (List.getLast_mem_getLast? hne) m rfl
  · intro hne
    obtain ⟨l, rest, rfl⟩ := List.exists_cons_of_ne_nil hne
    exact ⟨l, List.mem_cons_self, (List.isChain_cons_cons.mp hafter).1⟩

namespace Stores

variable {s s' : Stores} {tenant : Uuid} {m : ManifestRow}

/-- The manifests of a tenant, in the order they were sealed. -/
def manifestsOf (s : Stores) (tenant : Uuid) : List ManifestRow :=
  s.manifests.filter fun m => m.tenantID = tenant

theorem latestManifest_congr (h : s'.manifests = s.manifests) (day : Day) :
    s'.latestManifest day = s.latestManifest day := by
  rw [latestManifest, latestManifest, h]

/-- Each manifest of a tenant names the one before, and the newest one is the latest of its
day. -/
structure Chained (s : Stores) : Prop where
  links : ∀ tenant, (s.manifestsOf tenant).IsChain Names
  newest : ∀ tenant, ∀ m ∈ (s.manifestsOf tenant).getLast?, s.latestManifest m.day = some m
  sealed : ∀ m ∈ s.manifests, m.manifestSHA256 ≠ [] ∧ 0 < m.revision

theorem Chained.congr (h : s.Chained) (hsame : s'.manifests = s.manifests) : s'.Chained := by
  constructor
  · intro tenant
    rw [manifestsOf, hsame]
    exact h.links tenant
  · intro tenant m hm
    rw [manifestsOf, hsame] at hm
    rw [latestManifest_congr hsame]
    exact h.newest tenant m hm
  · rw [hsame]
    exact h.sealed

theorem manifestsOf_addManifest_self (s : Stores) (m : ManifestRow) :
    (s.addManifest m).manifestsOf m.tenantID = s.manifestsOf m.tenantID ++ [m] := by
  simp [manifestsOf, addManifest, List.filter_append]

theorem manifestsOf_addManifest_of_ne (s : Stores) (h : m.tenantID ≠ tenant) :
    (s.addManifest m).manifestsOf tenant = s.manifestsOf tenant := by
  simp [manifestsOf, addManifest, List.filter_append, h]

theorem tenantID_of_mem_manifestsOf (h : m ∈ s.manifestsOf tenant) : m.tenantID = tenant :=
  of_decide_eq_true (List.mem_filter.mp h).2

theorem Chained.add (h : s.Chained) (hadd : s'.manifests = s.manifests ++ [m])
    (hrev : m.revision = nextRevision (s.latestManifest m.day)) (hsha : m.manifestSHA256 ≠ [])
    (hprev : ∀ newest ∈ (s.manifestsOf m.tenantID).getLast?, Names newest m) : s'.Chained := by
  refine Chained.congr (s := s.addManifest m) ?_ hadd
  constructor
  · intro tenant
    by_cases htenant : m.tenantID = tenant
    · subst htenant
      rw [manifestsOf_addManifest_self]
      refine List.isChain_append.mpr ⟨h.links _, .singleton m, ?_⟩
      rintro newest hnewest _ ⟨⟩
      exact hprev newest hnewest
    · rw [manifestsOf_addManifest_of_ne s htenant]
      exact h.links tenant
  · intro tenant newest hnewest
    by_cases htenant : m.tenantID = tenant
    · subst htenant
      rw [manifestsOf_addManifest_self, List.getLast?_append] at hnewest
      obtain rfl : m = newest := Option.some.inj hnewest
      exact latestManifest_addManifest hrev
    · rw [manifestsOf_addManifest_of_ne s htenant] at hnewest
      have howner := tenantID_of_mem_manifestsOf (List.mem_of_getLast? hnewest)
      have hday : m.day ≠ newest.day := fun heq => htenant ((congrArg Prod.fst heq).trans howner)
      rw [latestManifest_addManifest_of_ne hday]
      exact h.newest tenant newest hnewest
  · intro m' hm'
    rcases List.mem_append.mp hm' with hold | hnew
    · exact h.sealed m' hold
    · obtain rfl := List.mem_singleton.mp hnew
      refine ⟨hsha, ?_⟩
      rw [hrev, nextRevision]
      cases s.latestManifest m'.day with
      | none => exact Nat.one_pos
      | some l => exact Nat.succ_pos _

theorem chained_of_nil (h : s.manifests = []) : s.Chained := by
  constructor
  · intro tenant
    rw [manifestsOf, h]
    exact .nil
  · intro tenant m hm
    rw [manifestsOf, h] at hm
    cases hm
  · intro m hm
    rw [h] at hm
    cases hm

end Stores

/-! ## One export -/

namespace Exporter

variable {x : Exporter} {s : Stores} {day : Day} {revision : Nat} {fails : Nat → Bool}
  {m : ManifestRow}

theorem prevSHA_faulty_state (s : Stores) (day : Day) (revision : Nat) (fails : Nat → Bool) :
    ((prevSHA day revision).faulty fails s).2 = s := by
  have hown : ∀ (prior : Option ManifestRow) (fails : Nat → Bool),
      ((orOwnSHA day revision prior).faulty fails s).2 = s := by
    intro prior fails
    unfold orOwnSHA
    dsimp only
    split
    · rw [Proc.faulty_read_bind]
      rfl
    · rfl
  unfold prevSHA
  split
  · rw [Proc.faulty_read_bind]
    exact hown _ _
  · exact hown _ _

theorem orOwnSHA_faulty_own (hm : s.latestManifest day = some m) (hrev : 1 < revision)
    (hfails : fails 0 = false) :
    ((orOwnSHA day revision none).faulty fails s).1 = m.manifestSHA256 := by
  rw [orOwnSHA, if_pos ⟨rfl, hrev⟩, Proc.faulty_read_bind, hfails, hm]
  rfl

theorem orOwnSHA_faulty_prior (hsha : m.manifestSHA256 ≠ []) :
    ((orOwnSHA day revision (some m)).faulty fails s).1 = m.manifestSHA256 := by
  rw [orOwnSHA, if_neg fun h => hsha h.1]
  rfl

@[simp] theorem manifests_sealChainHead (s : Stores) (day : Day) :
    (s.sealChainHead day).manifests = s.manifests := by
  unfold Stores.sealChainHead
  split
  · rfl
  · rfl

section Row

theorem row_day (day : Day) (man : Manifest) (n : Nat) : (x.row day man n).day = day := rfl

theorem row_sha256 (day : Day) (man : Manifest) (n : Nat) :
    (x.row day man n).manifestSHA256 = sha256Hex x.sum256 man.json := rfl

variable (day : Day) (revision : Nat) (first : Record) (rest : List Record) (head prevSHA : Bytes)
  (now : Time) (n : Nat)

theorem row_revision :
    (x.row day (x.manifest day revision first rest head prevSHA now) n).revision = revision := rfl

theorem row_prev :
    (x.row day (x.manifest day revision first rest head prevSHA now) n).prevManifestSHA =
      prevSHA := rfl

end Row

/-- From the manifest on: nothing is recorded, or the row of the manifest. -/
theorem sealDay_faulty (hrev : revision = nextRevision (s.latestManifest day)) (first : Record)
    (rest : List Record) (head prevSHA : Bytes) (fails : Nat → Bool) :
    ((x.sealDay day revision first rest head prevSHA).faulty fails s).2.manifests =
        s.manifests ∨
      ((x.sealDay day revision first rest head prevSHA).faulty fails s).2.manifests =
        s.manifests ++ [x.row day (x.manifest day revision first rest head prevSHA s.now)
          (first :: rest).length] := by
  have hinsert := Stores.insertManifest_next
    (s := s.putWORM (manifestKey day revision)
      (.manifest (x.manifest day revision first rest head prevSHA s.now)))
    (m := x.row day (x.manifest day revision first rest head prevSHA s.now)
      (first :: rest).length) hrev
  rw [sealDay, Proc.faulty_orFail_exec]
  split
  · exact .inl rfl
  · rw [Proc.faulty_orFail_exec, hinsert]
    split
    · exact .inl rfl
    · rw [if_neg Bool.false_ne_true.symm, Proc.faulty_orFail_exec]
      split
      · exact .inr rfl
      · exact .inr (manifests_sealChainHead _ day)

/-- What a lone export does to the manifests, whatever fails: nothing, or it adds the next
revision of its day. -/
theorem exportDay_faulty (x : Exporter) (s : Stores) (day : Day) (fails : Nat → Bool) :
    ((x.exportDay day).faulty fails s).2.manifests = s.manifests ∨
      s.chainScan day ≠ [] ∧ fails 0 = false ∧ fails 1 = false ∧ fails 2 = false ∧
        ∃ m : ManifestRow,
          ((x.exportDay day).faulty fails s).2.manifests = s.manifests ++ [m] ∧ m.day = day ∧
            m.revision = nextRevision (s.latestManifest day) ∧
            (∃ man : Manifest, m.manifestSHA256 = sha256Hex x.sum256 man.json) ∧
            ∃ t : Stores, t.manifests = s.manifests ∧ m.prevManifestSHA =
              ((prevSHA day m.revision).faulty (fun n => fails (n + 3)) t).1 := by
  rw [exportDay, Proc.faulty_orFail_read]
  split
  · exact .inl rfl
  next h0 =>
  cases hscan : s.chainScan day with
  | nil => exact .inl rfl
  | cons first rest =>
    rw [exportRows, Proc.faulty_orFail_read]
    split
    · exact .inl rfl
    next h1 =>
    rw [Proc.faulty_orFail_exec]
    split
    · exact .inl rfl
    next h2 =>
    -- The lookups change nothing, and the manifest is written at the end.
    dsimp only
    obtain ⟨later, hlater⟩ := Proc.faulty_bind
      (prevSHA day (nextRevision (s.latestManifest day))) _ (fun n => fails (n + 1 + 1 + 1))
      (s.putWORM (fileKey day (nextRevision (s.latestManifest day))) (.parquet (first :: rest)))
    rw [hlater, prevSHA_faulty_state, Proc.faulty_read_bind]
    have hrev : nextRevision (s.latestManifest day) =
        nextRevision ((s.putWORM (fileKey day (nextRevision (s.latestManifest day)))
          (.parquet (first :: rest))).latestManifest day) := rfl
    rcases sealDay_faulty (x := x) hrev first rest _ _ _ with hsame | hadd
    · exact .inl hsame
    · refine .inr ⟨List.cons_ne_nil _ _, eq_false_of_ne_true h0, eq_false_of_ne_true h1,
        eq_false_of_ne_true h2, _, hadd, row_day .., row_revision .., ⟨_, row_sha256 ..⟩, ?_⟩
      exact ⟨s.putWORM _ _, rfl, row_prev ..⟩

end Exporter

/-! ## Runs -/

/-- What happens to the stores: an export, or anything that leaves the manifests alone. -/
inductive Change where
  | other (rows : List Record) (heads : AList fun _ : Day => ChainHead) (now : Time)
  | exportDay (day : Day) (fails : Nat → Bool)

namespace Exporter

/-- One step. -/
def step (x : Exporter) (s : Stores) : Change → Stores
  | .other rows heads now => { s with rows, heads, now }
  | .exportDay day fails => ((x.exportDay day).faulty fails s).2

end Exporter

namespace Stores

/-- The lookups come to this manifest: it is of the day before, or it is of the same day,
and the day before is not found to have one. -/
def Finds (s : Stores) (day : Day) (fails : Nat → Bool) (m : ManifestRow) : Prop :=
  if priorDate day.2 = [] then m.day = day ∧ fails 3 = false
  else if fails 3 = true ∨ s.latestManifest (day.1, priorDate day.2) = none then
    m.day = day ∧ fails 4 = false
  else m.day = (day.1, priorDate day.2)

theorem finds_congr {s s' : Stores} {day : Day} {fails : Nat → Bool} {m : ManifestRow}
    (h : s'.manifests = s.manifests) : s'.Finds day fails m ↔ s.Finds day fails m := by
  rw [Finds, Finds, latestManifest_congr h]

instance (s : Stores) (day : Day) (fails : Nat → Bool) (m : ManifestRow) :
    Decidable (s.Finds day fails m) := by
  unfold Finds
  infer_instance

/-- An export comes as far as its lookups only when these come to the tenant's newest
manifest. -/
def Fits (s : Stores) : Change → Prop
  | .other _ _ _ => True
  | .exportDay day fails =>
    s.chainScan day = [] ∨ fails 0 = true ∨ fails 1 = true ∨ fails 2 = true ∨
      ∀ newest ∈ (s.manifestsOf day.1).getLast?, s.Finds day fails newest

instance (s : Stores) : ∀ e, Decidable (s.Fits e)
  | .other _ _ _ => .isTrue trivial
  | .exportDay _ _ => inferInstanceAs (Decidable (_ ∨ _))

end Stores

namespace Exporter

variable {x : Exporter} {s : Stores} {day : Day} {fails : Nat → Bool} {m : ManifestRow}

/-- A manifest that the lookups come to is the predecessor. -/
theorem prevSHA_of_finds (hm : s.latestManifest m.day = some m) (hsha : m.manifestSHA256 ≠ [])
    (hrev : 0 < m.revision) (hfinds : s.Finds day fails m) :
    ((prevSHA day (nextRevision (s.latestManifest day))).faulty (fun n => fails (n + 3)) s).1 =
      m.manifestSHA256 := by
  have hnext : m.day = day → 1 < nextRevision (s.latestManifest day) := by
    rintro rfl
    rw [hm]
    exact Nat.succ_lt_succ hrev
  rw [Stores.Finds] at hfinds
  rw [prevSHA]
  split at hfinds
  · next hdate =>
    obtain ⟨rfl, hfails⟩ := hfinds
    rw [if_neg (not_not.mpr hdate)]
    exact orOwnSHA_faulty_own hm (hnext rfl) hfails
  · next hdate =>
    rw [if_pos hdate, Proc.faulty_read_bind]
    split at hfinds
    · next hnone =>
      obtain ⟨rfl, hfails⟩ := hfinds
      have hprior : (if fails 3 = true then none
          else some (s.latestManifest (m.day.1, priorDate m.day.2))).join = none := by
        split
        · rfl
        · next h3 => exact hnone.resolve_left h3
      rw [hprior]
      exact orOwnSHA_faulty_own hm (hnext rfl) hfails
    · next hsome =>
      have h3 : ¬fails 3 = true := fun h => hsome (.inl h)
      rw [if_neg h3, ← hfinds, hm]
      exact orOwnSHA_faulty_prior hsha

theorem step_chained (hne : ∀ b, x.sum256 b ≠ []) (s : Stores) (e : Change) (h : s.Chained)
    (hfits : s.Fits e) : (x.step s e).Chained := by
  cases e with
  | other rows heads now => exact h.congr rfl
  | exportDay day fails =>
    rcases exportDay_faulty x s day fails with
      hsame | ⟨hscan, h0, h1, h2, m, hadd, rfl, hrev, ⟨man, hsha⟩, t, ht, hprev⟩
    · exact h.congr hsame
    · have hfinds : ∀ newest ∈ (s.manifestsOf m.day.1).getLast?, s.Finds m.day fails newest := by
        rcases hfits with hnil | h0' | h1' | h2' | hfinds
        · exact absurd hnil hscan
        · exact absurd (h0.symm.trans h0') Bool.false_ne_true
        · exact absurd (h1.symm.trans h1') Bool.false_ne_true
        · exact absurd (h2.symm.trans h2') Bool.false_ne_true
        · exact hfinds
      refine h.add hadd hrev (hsha ▸ Manager.sha256Hex_ne_nil hne _) ?_
      intro newest hnewest
      have hlatest := h.newest _ newest hnewest
      obtain ⟨hne', hpos⟩ := h.sealed newest (List.mem_of_mem_filter (List.mem_of_getLast? hnewest))
      have hsame := Stores.latestManifest_congr ht
      have hprevSHA := prevSHA_of_finds ((hsame _).trans hlatest) hne' hpos
        ((Stores.finds_congr ht).mpr (hfinds newest hnewest))
      rw [hsame, ← hrev] at hprevSHA
      exact hprev.trans hprevSHA

/-- **The chain of a tenant's manifests** along a run in which no export comes to its end but
by way of the newest manifest. -/
theorem manifests_linked (x : Exporter) (hne : ∀ b, x.sum256 b ≠ []) (s : Stores)
    (hs : s.manifests = []) (changes : List Change) (hfits : Each x.step Stores.Fits s changes) :
    Always x.step (fun s => ∀ tenant, Linked (s.manifestsOf tenant)) s changes := by
  have hchained : Always x.step Stores.Chained s changes :=
    always_of_each (step_chained hne) (Stores.chained_of_nil hs) hfits
  intro done hdone tenant
  exact linked_of_isChain ((hchained done hdone).links tenant)

end Exporter

/-! ## Samples -/

/-- A row of a day of the sample tenant. -/
def linkRow (event : UInt8) (date : String) : Record :=
  { eventID := Uuid.ofByte event
    tenantID := Uuid.ofByte 1
    occurredAt := sampleNoon
    payloadDigest := bytes "d"
    chainDate := bytes date
    chainSeq := 1
    chainHash := bytes "h" }

/-- One row on each of two days, and no manifest. -/
def sampleDays (first second : String) : Stores :=
  { Stores.empty sampleNoon with rows := [linkRow 2 first, linkRow 3 second] }

/-- An export of a day of the sample tenant, with nothing failing. -/
def sampleExport (date : String) : Change := .exportDay (Uuid.ofByte 1, bytes date) fun _ => false

/-- Two days in a row. -/
theorem manifests_linked_sample :
    Always sampleExporter.step (fun s => ∀ tenant, Linked (s.manifestsOf tenant))
      (sampleDays "2026-07-08" "2026-07-09")
      [sampleExport "2026-07-08", sampleExport "2026-07-09"] :=
  Exporter.manifests_linked sampleExporter sampleSum256_ne_nil
    (sampleDays "2026-07-08" "2026-07-09") rfl
    [sampleExport "2026-07-08", sampleExport "2026-07-09"] (by decide)

/-- A day without events between two others: the second manifest names none. -/
theorem manifests_unlinked :
    ¬ Always sampleExporter.step (fun s => ∀ tenant, Linked (s.manifestsOf tenant))
      (sampleDays "2026-07-08" "2026-07-10")
      [sampleExport "2026-07-08", sampleExport "2026-07-09", sampleExport "2026-07-10"] := by
  intro h
  have hend := h _ (List.prefix_refl _) (Uuid.ofByte 1)
  have hprevs : ((run sampleExporter.step (sampleDays "2026-07-08" "2026-07-10")
      [sampleExport "2026-07-08", sampleExport "2026-07-09", sampleExport "2026-07-10"]).manifestsOf
        (Uuid.ofByte 1)).map (fun m => (m.prevManifestSHA, decide (m.manifestSHA256 = []))) =
      [([], false), ([], false)] := by decide +kernel
  generalize (run sampleExporter.step _ _).manifestsOf (Uuid.ofByte 1) = manifests at hend hprevs
  match manifests, hprevs with
  | [], hprevs => simp at hprevs
  | [_], hprevs => simp at hprevs
  | _ :: _ :: _ :: _, hprevs => simp at hprevs
  | [first, second], hprevs =>
      simp only [List.map_cons, List.map_nil, List.cons.injEq, Prod.mk.injEq,
        decide_eq_false_iff_not] at hprevs
      obtain ⟨e, he, hlink⟩ := (hend [first] second [] rfl).1 (List.cons_ne_nil _ _)
      obtain rfl := List.mem_singleton.mp he
      exact hprevs.1.2 (hlink.symm.trans hprevs.2.1.1)

end Windrose.Audit.Export

/-
  Rbac/PolicyParity.lean --- `Decide` against the data-projection policy.

  Source: services/rbac-service/internal/authz/decide.go,
  services/rbac-service/policy/datacern_authz.rego ("Mirrors decide.go EXACTLY").

  Both engines are compared over one in-memory projection, once through its
  reader and once exposed as `data.perm`.  They know the same facts about a
  request, but for the verb of an action without a dot and for a workspace id
  that `uuid.Parse` accepts in another spelling than the canonical one.
-/
import Windrose.Rbac.Policy

set_option autoImplicit false

namespace Windrose.Rbac

open Windrose.Foundation

/-! ## A projection as data of the policy -/

/-- The value under the canonical text of an id, in a map that is keyed by ids. -/
def lookupText {ν : Type} (m : GoMap Uuid ν) (w : Bytes) : Option ν :=
  (m.entries.find? fun e => e.1.text = w).map (·.2)

theorem lookupText_text {ν : Type} (m : GoMap Uuid ν) (u : Uuid) :
    lookupText m u.text = m.lookup u := by
  unfold lookupText AList.lookup
  induction m.entries with
  | nil => rfl
  | cons e es ih =>
    by_cases h : e.1 = u
    · obtain ⟨k, v⟩ := e
      obtain rfl : k = u := h
      simp
    · have htext : e.1.text ≠ u.text := fun ht => h (Uuid.text_injective ht)
      rw [List.find?_cons_of_neg (by simpa using htext), ih, List.dlookup_cons_ne _ _ (Ne.symm h)]

theorem lookupText_of_ne {ν : Type} (m : GoMap Uuid ν) {w : Bytes} (h : ∀ u : Uuid, u.text ≠ w) :
    lookupText m w = none := by
  unfold lookupText
  rw [List.find?_eq_none.mpr fun e _ => by simpa using h e.1]
  rfl

/-- `data.perm.tenants[t].users[u]`. -/
def Flat.userData (f : Flat) : UserData where
  actions := f.tenantActions
  ws := lookupText f.workspaceActions
  res := fun h => (f.resources.lookup h).map fun e => (e.level, e.archived)
  flags := { admin := f.flags.admin, wsAdmin := f.flags.wsAdmin.map (·.text) }

/-- `data.perm`. -/
def FlatReader.perm (fr : FlatReader) : Perm where
  catalog := fun action => fr.catalog.lookup action
  tenants := fun tenant => some
    { archivedWs := fr.archived
      autonomousEnabled := fr.autonomous
      users := fun user => (fr.flat tenant user).map (·.userData) }

/-! ## The facts of the two engines -/

section Facts

variable {env : Ext} {fr : FlatReader} {inp : Input}

/-- The workspace id is a spelling of an id that is not the canonical one. -/
def Misspelt (env : Ext) (w : Bytes) : Prop := ∃ u, env.parse w = some u ∧ u.text ≠ w

/-- The entry the policy finds, by the text of the workspace id. -/
def FlatReader.textEntry (fr : FlatReader) (inp : Input) : Option WorkspaceEntry :=
  (fr.flat inp.tenant inp.effectiveUser).bind fun f => lookupText f.workspaceActions inp.workspaceID

theorem FlatReader.perm_userData :
    fr.perm.userData inp = (fr.flat inp.tenant inp.effectiveUser).map (·.userData) := by
  unfold Perm.userData
  rw [Perm.effectiveUser_eq]
  rfl

theorem FlatReader.perm_facts (b : Bool) :
    fr.perm.facts env inp b = { (fr.reader env).facts env inp b with
      verb := lastPart inp.action
      entry := fr.textEntry inp } := by
  unfold Perm.facts Perm.isAdmin Perm.wsEntry Perm.resGrant Reader.facts textEntry
  rw [perm_userData]
  simp only [reader]
  cases fr.flat inp.tenant inp.effectiveUser with
  | none => simp [Id.run, perm, hasWsAdmin]
  | some f => simp [Id.run, perm, hasWsAdmin, Flat.userData, Function.comp_def]

theorem FlatReader.textEntry_of_misspelt (h : Misspelt env inp.workspaceID) :
    fr.textEntry inp = none := by
  obtain ⟨u, hparse, hne⟩ := h
  have hall : ∀ v : Uuid, v.text ≠ inp.workspaceID := by
    intro v hv
    have hpv := env.parse_text v
    rw [hv, hparse, Option.some.injEq] at hpv
    rw [hpv] at hne
    exact hne hv
  unfold textEntry
  cases fr.flat inp.tenant inp.effectiveUser with
  | none => rfl
  | some f => exact lookupText_of_ne _ hall

theorem FlatReader.textEntry_eq (h : ¬Misspelt env inp.workspaceID) (b : Bool) :
    fr.textEntry inp = ((fr.reader env).facts env inp b).entry := by
  unfold textEntry Reader.facts reader
  simp only [Id.run]
  cases fr.flat inp.tenant inp.effectiveUser with
  | none => rfl
  | some f =>
    simp only [Option.bind_some]
    cases hparse : env.parse inp.workspaceID with
    | none =>
      apply lookupText_of_ne
      intro u hu
      rw [← hu, env.parse_text] at hparse
      cases hparse
    | some u =>
      have htext : u.text = inp.workspaceID := by
        by_contra hne
        exact h ⟨u, hparse, hne⟩
      rw [← htext, lookupText_text]

end Facts

/-! ## Parity -/

namespace FlatReader

section Parity

variable (env : Ext) (fr : FlatReader) (inp : Input)

/-- The requests on which the policy decides as `Decide` does.  A request with an
empty field must have no open path; a request that `Decide` denies for an archived
workspace must have none in the policy; an action without a dot must not open a
grant as its own verb that no path of `Decide` opens; and a role behind another
spelling of the workspace id must come with an open grant. -/
structure Mirrored : Prop where
  blank : inp.Blank → ¬inp.ServiceScope ∧ ¬fr.perm.Autonomous inp ∧
    ∀ b, fr.perm.Base inp b → ¬(fr.perm.facts env inp b).Opens
  archived : ¬inp.Blank → ¬inp.ServiceScope → ∀ b, fr.perm.Base inp b →
    ((fr.reader env).facts env inp b).ArchivedDeny → ¬(fr.perm.facts env inp b).Opens
  dotless : ¬inp.Blank → ¬inp.ServiceScope → ∀ b, fr.perm.Base inp b →
    ¬((fr.reader env).facts env inp b).ArchivedDeny → (46 : UInt8) ∉ inp.action →
    (fr.perm.facts env inp b).GrantOpens → ((fr.reader env).facts env inp b).Opens
  spelling : ¬inp.Blank → ¬inp.ServiceScope → ∀ b, fr.perm.Base inp b →
    ¬((fr.reader env).facts env inp b).ArchivedDeny →
    ((fr.reader env).facts env inp b).admin = false → Misspelt env inp.workspaceID →
    ((fr.reader env).facts env inp b).AssignedOpens → (fr.perm.facts env inp b).GrantOpens

end Parity

variable {env : Ext} {fr : FlatReader} {inp : Input}

theorem rereads (b : Bool) :
    Rereads inp.action ((fr.reader env).facts env inp b) (fr.perm.facts env inp b) := by
  rw [perm_facts]
  refine ⟨rfl, rfl, rfl, rfl, rfl, fun _ => rfl, rfl, rfl, rfl, rfl, fun _ => ?_⟩
  by_cases hspell : Misspelt env inp.workspaceID
  · exact .inr (textEntry_of_misspelt hspell)
  · exact .inl (textEntry_eq hspell b)

theorem perm_entry_eq_none_iff {b : Bool}
    (hassigned : ((fr.reader env).facts env inp b).AssignedOpens) :
    (fr.perm.facts env inp b).entry = none ↔ Misspelt env inp.workspaceID := by
  obtain ⟨-, e, he, -⟩ := hassigned
  rw [perm_facts]
  constructor
  · intro hnone
    by_contra hspell
    rw [show fr.textEntry inp = _ from textEntry_eq hspell b, he] at hnone
    cases hnone
  · exact textEntry_of_misspelt

theorem reader_base {b : Bool} (h : fr.perm.Base inp b) : (fr.reader env).Base inp b := h

theorem decide_eq_policy_of_not_base (hblank : ¬inp.Blank)
    (hbase : ∀ b, ¬fr.perm.Base inp b) :
    ((fr.reader env).decide env inp).run.allowed = fr.perm.allow env inp := by
  rw [Bool.eq_iff_iff, Reader.decide_allowed_iff, Perm.allow_iff]
  constructor
  · rintro ⟨-, h | h | ⟨b, h, -⟩⟩
    · exact .inl h
    · exact .inr (.inl h)
    · exact absurd h (hbase b)
  · rintro (h | h | ⟨b, h, -⟩)
    · exact ⟨hblank, .inl h⟩
    · exact ⟨hblank, .inr (.inl h)⟩
    · exact absurd h (hbase b)

/-- The policy decides as `Decide` does on exactly the mirrored requests. -/
theorem decide_eq_policy_iff (env : Ext) (fr : FlatReader) (inp : Input) :
    ((fr.reader env).decide env inp).run.allowed = fr.perm.allow env inp ↔
      fr.Mirrored env inp := by
  constructor
  · intro heq
    constructor
    · intro hblank
      have hdeny : ¬fr.perm.allow env inp = true := by
        rw [← heq, Reader.decide_allowed_iff]
        exact fun h => h.1 hblank
      rw [Perm.allow_iff] at hdeny
      exact ⟨fun h => hdeny (.inl h), fun h => hdeny (.inr (.inl h)),
        fun b hbase h => hdeny (.inr (.inr ⟨b, hbase, h⟩))⟩
    · intro hblank hsvc b hbase harch hopens
      rw [Bool.eq_iff_iff, Reader.decide_allowed_of_base hblank hsvc (reader_base hbase),
        Perm.allow_of_base hsvc hbase] at heq
      exact (heq.mpr hopens).1 harch
    · intro hblank hsvc b hbase harch
      rw [Bool.eq_iff_iff, Reader.decide_allowed_of_base hblank hsvc (reader_base hbase),
        Perm.allow_of_base hsvc hbase, and_iff_right harch] at heq
      exact (((rereads b).opens_iff harch).mp heq).1
    · intro hblank hsvc b hbase harch hadmin hspell hassigned
      rw [Bool.eq_iff_iff, Reader.decide_allowed_of_base hblank hsvc (reader_base hbase),
        Perm.allow_of_base hsvc hbase, and_iff_right harch] at heq
      exact (((rereads b).opens_iff harch).mp heq).2 hadmin
        ((perm_entry_eq_none_iff hassigned).mpr hspell) hassigned
  · rintro ⟨hB, hA, hD, hS⟩
    by_cases hblank : inp.Blank
    · obtain ⟨hsvc, hauto, hpaths⟩ := hB hblank
      have hgo : ¬((fr.reader env).decide env inp).run.allowed = true := by
        rw [Reader.decide_allowed_iff]
        exact fun h => h.1 hblank
      have hrego : ¬fr.perm.allow env inp = true := by
        rw [Perm.allow_iff]
        rintro (h | h | ⟨b, hbase, h⟩)
        · exact hsvc h
        · exact hauto h
        · exact hpaths b hbase h
      rw [Bool.not_eq_true] at hgo hrego
      rw [hgo, hrego]
    · by_cases hsvc : inp.ServiceScope
      · rw [Bool.eq_iff_iff, Reader.decide_allowed_iff, Perm.allow_iff]
        exact ⟨fun _ => .inl hsvc, fun _ => ⟨hblank, .inl hsvc⟩⟩
      · by_cases hex : ∃ b, fr.perm.Base inp b
        · obtain ⟨b, hbase⟩ := hex
          rw [Bool.eq_iff_iff, Reader.decide_allowed_of_base hblank hsvc (reader_base hbase),
            Perm.allow_of_base hsvc hbase]
          by_cases harch : ((fr.reader env).facts env inp b).ArchivedDeny
          · have hrego := hA hblank hsvc b hbase harch
            exact ⟨fun h => absurd harch h.1, fun h => absurd h hrego⟩
          · rw [and_iff_right harch, (rereads b).opens_iff harch]
            refine ⟨hD hblank hsvc b hbase harch, fun hadmin hnone hassigned => ?_⟩
            exact hS hblank hsvc b hbase harch hadmin
              ((perm_entry_eq_none_iff hassigned).mp hnone) hassigned
        · exact decide_eq_policy_of_not_base hblank (not_exists.mp hex)

/-- A write into an archived workspace of one's own, on a resource with a live grant:
`Decide` denies before it looks at the grant, and the policy allows. -/
theorem decide_ne_policy_archived :
    let fr := newFlatReader
      (flatten sampleExt { sampleSnapshot with assignedWorkspaces := [⟨Uuid.ofByte 3, true⟩] })
      sampleSnapshot.catalog sampleSnapshot.archivedWorkspaceIDs
    ((fr.reader sampleExt).decide sampleExt sampleInput).run = deny .workspaceArchived ∧
      fr.perm.allow sampleExt sampleInput = true := by
  decide

end FlatReader

end Windrose.Rbac

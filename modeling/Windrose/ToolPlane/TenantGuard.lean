/-
  ToolPlane/TenantGuard.lean --- the guard against resources of other tenants.

  Source: services/tool-plane/internal/domain/schema.go, urn.go and
  internal/enforce/pipeline.go.

  A schema annotates the properties that name resources.  The guard and the policy see what
  `resolveURNs` makes of their values, and that is of plain strings alone: the elements of
  an array are not looked at, and a URN whose tenant segment is empty passes the guard.
-/
import Windrose.ToolPlane.WriteGate

set_option autoImplicit false

namespace Windrose.ToolPlane

open Windrose.Foundation

/-! ## Annotated properties -/

/-- An annotated property of a schema, and the value that the arguments have for it. -/
structure Held (schema args : Object) where
  name : String
  property : Object
  mark : Value
  value : Value
  declared : (name, .obj property) ∈ properties schema
  annotated : property.lookup "x-datacern-urn" = some mark
  given : args.lookup name = some value

/-- A plain string, with a template. -/
def Held.Plain {schema args : Object} (h : Held schema args) (s : String) : Prop :=
  (∃ tmpl, h.mark = .str tmpl) ∧ h.value = .str s

/-- The property is opted out of the grants of the user. -/
def Held.OptedOut {schema args : Object} (h : Held schema args) : Prop :=
  (h.property.lookup "x-datacern-urn-obo").bind asBool = some false

/-- The texts of a value: a string, or the strings of an array. -/
def texts : Value → List String
  | .str s => [s]
  | .arr vs => vs.filterMap asString
  | _ => []

/-- The resource that a text names: itself if it is a URN, else the template filled in. -/
def resource (mark : Value) (tenant : Bytes) (s : String) : Option Bytes :=
  if isURN (bytes s) then some (bytes s)
  else
    (asString mark).map fun tmpl =>
      let urn := replaceAll (bytes "\x7btenant\x7d") tenant (bytes tmpl) 0
      replaceAll (bytes "\x7bvalue\x7d") (bytes s) urn 0

/-- A URN of another tenant. -/
def Foreign (tenant : Bytes) (s : String) : Prop :=
  isURN (bytes s) = true ∧ urnTenant (bytes s) ≠ tenant

/-! ## The property -/

/-- A call with these arguments to a version with this schema. -/
structure Serves (schema args : Object) (tenant : Bytes) (tv : ToolVersion) (req : Request) :
    Prop where
  schema : tv.inputSchema = schema
  args : req.args = args
  tenant : req.tenant = tenant

/-- No such call gets to the backend, whatever the collaborators answer. -/
def NeverInvoked (schema args : Object) (tenant : Bytes) : Prop :=
  ∀ sha256 proposals env tv found req, Serves schema args tenant tv req →
    (run sha256 proposals env (some tv) found req).invoked = none

/-- No resource of another tenant gets by, and the policy is asked about each resource that is
not opted out. -/
structure GuardComplete (schema args : Object) (tenant : Bytes) : Prop where
  refused : ∀ (h : Held schema args) (s : String), s ∈ texts h.value → Foreign tenant s →
    NeverInvoked schema args tenant
  asked : ∀ (h : Held schema args) (s : String) (r : Bytes), ¬ h.OptedOut → s ∈ texts h.value →
    s ≠ "" → resource h.mark tenant s = some r →
    ∀ sha256 tv settings req tier grants verified, Serves schema args tenant tv req →
      r ∈ (policyInput sha256 tv settings req tier grants verified).affectedURNs

/-! ## The condition -/

/-- A resource that a plain string names, of all properties or of those not opted out. -/
def NamedPlainly (schema args : Object) (tenant : Bytes) (oboOnly : Bool) (r : Bytes) : Prop :=
  ∃ (h : Held schema args) (s : String), h.Plain s ∧ s ≠ "" ∧
    (oboOnly = true → ¬ h.OptedOut) ∧ resource h.mark tenant s = some r

/-- What a guard that looks at plain strings misses is not there, or is seen elsewhere. -/
structure GuardSees (schema args : Object) (tenant : Bytes) : Prop where
  foreign : (∃ r, NamedPlainly schema args tenant false r ∧ crossTenant tenant r = true) ∨
    ∀ (h : Held schema args), ∀ s ∈ texts h.value, ¬ Foreign tenant s
  elements : ∀ (h : Held schema args) (s : String) (r : Bytes), ¬ h.OptedOut →
    s ∈ texts h.value → s ≠ "" → resource h.mark tenant s = some r → ¬ h.Plain s →
      NamedPlainly schema args tenant true r

/-! ## What is resolved -/

theorem asString_eq_some {v : Value} {s : String} : asString v = some s ↔ v = .str s := by
  cases v <;> simp [asString]

theorem asObject_eq_some {v : Value} {fs : Object} : asObject v = some fs ↔ v = .obj fs := by
  cases v <;> simp [asObject]

theorem mem_urnFields {schema : Object} {oboOnly : Bool} {name tmpl : String} :
    (name, tmpl) ∈ urnFields schema oboOnly ↔
      ∃ p : Object, (name, .obj p) ∈ properties schema ∧
        p.lookup "x-datacern-urn" = some (.str tmpl) ∧
        (oboOnly = true → (p.lookup "x-datacern-urn-obo").bind asBool ≠ some false) := by
  rw [urnFields, List.mem_filterMap]
  constructor
  · rintro ⟨⟨name', v⟩, hmem, h⟩
    dsimp only at h
    split at h
    · cases h
    · next p hp =>
      obtain rfl := asObject_eq_some.mp hp
      split at h
      · cases h
      · next tmpl' htmpl =>
        split at h
        · cases h
        · next hobo =>
          obtain ⟨rfl, rfl⟩ := Prod.mk.inj (Option.some.inj h)
          obtain ⟨w, hw, hstr⟩ := Option.bind_eq_some_iff.mp htmpl
          obtain rfl := asString_eq_some.mp hstr
          exact ⟨p, hmem, hw, fun hb hout => hobo ⟨hb, hout⟩⟩
  · rintro ⟨p, hmem, hann, hobo⟩
    refine ⟨(name, .obj p), hmem, ?_⟩
    have htmpl : (p.lookup "x-datacern-urn").bind asString = some tmpl := by
      rw [hann]
      rfl
    simp only [asObject, htmpl]
    rw [if_neg fun h => hobo h.1 h.2]

theorem mem_resolveURNs {schema args : Object} {tenant r : Bytes} {oboOnly : Bool} :
    r ∈ resolveURNs (urnFields schema oboOnly) args tenant ↔
      NamedPlainly schema args tenant oboOnly r := by
  rw [resolveURNs, List.mem_filterMap]
  constructor
  · rintro ⟨⟨name, tmpl⟩, hmem, h⟩
    obtain ⟨p, hdeclared, hann, hobo⟩ := mem_urnFields.mp hmem
    dsimp only at h
    split at h
    · cases h
    · next s hs =>
      obtain ⟨v, hv, hstr⟩ := Option.bind_eq_some_iff.mp hs
      obtain rfl := asString_eq_some.mp hstr
      split at h
      · cases h
      · next hne =>
        refine ⟨⟨name, p, .str tmpl, .str s, hdeclared, hann, hv⟩, s, ⟨⟨tmpl, rfl⟩, rfl⟩, hne,
          hobo, ?_⟩
        rw [resource]
        split at h
        · next hurn => rw [if_pos hurn, h]
        · next hurn =>
          rw [if_neg hurn, ← h]
          rfl
  · rintro ⟨h, s, ⟨⟨tmpl, htmpl⟩, hs⟩, hne, hobo, hr⟩
    have hgiven : (args.lookup h.name).bind asString = some s := by
      rw [h.given, hs]
      rfl
    have hann := h.annotated
    rw [htmpl] at hann
    refine ⟨(h.name, tmpl), mem_urnFields.mpr ⟨h.property, h.declared, hann, hobo⟩, ?_⟩
    rw [htmpl, resource] at hr
    simp only [hgiven]
    rw [if_neg hne]
    exact hr

theorem NamedPlainly.asked {schema args : Object} {tenant r : Bytes}
    (h : NamedPlainly schema args tenant true r) (sha256 : Bytes → Bytes) {tv : ToolVersion}
    (settings : TenantToolSettings) {req : Request} (tier : Tier) (grants : List Bytes)
    (verified : Option ProposalExecution) (hserves : Serves schema args tenant tv req) :
    r ∈ (policyInput sha256 tv settings req tier grants verified).affectedURNs := by
  change r ∈ affectedOboURNs tv.inputSchema req.args req.tenant
  rw [hserves.schema, hserves.args, hserves.tenant]
  exact mem_resolveURNs.mpr h

theorem any_crossTenant_iff {schema args : Object} {tenant : Bytes} :
    (affectedURNs schema args tenant).any (crossTenant tenant) = true ↔
      ∃ r, NamedPlainly schema args tenant false r ∧ crossTenant tenant r = true := by
  rw [List.any_eq_true]
  exact exists_congr fun r => and_congr_left' mem_resolveURNs

/-! ## Calls that get through -/

section

variable {sha256 : Bytes → Bytes} {proposals : Option ProposalVerifier} {env : Answers}
  {tv : ToolVersion} {req : Request}

theorem own_of_invoked {found : Option (Option TenantToolSettings)}
    (h : (run sha256 proposals env (some tv) found req).invoked ≠ none) :
    (affectedURNs tv.inputSchema req.args req.tenant).any (crossTenant req.tenant) = false := by
  have hlookup : ∀ other, (∀ settings, other ≠ some (some settings)) →
      (run sha256 proposals env (some tv) other req).invoked = none := by
    intro other hother
    change (enforce sha256 proposals env tv other req).invoked = none
    unfold enforce
    cases hprepare : prepare sha256 proposals env tv other req with
    | error oc => rfl
    | ok found =>
      obtain ⟨oc, -, hrest⟩ := bind_eq_ok.mp hprepare
      obtain ⟨-, hrest⟩ := gate_bind_eq_ok.mp hrest
      obtain ⟨settings, hfound, -⟩ := bind_eq_ok.mp hrest
      rcases other with _ | _ | other
      · cases hfound
      · cases hfound
      · exact absurd rfl (hother other)
  by_cases hfound : ∃ settings, found = some (some settings)
  · obtain ⟨settings, rfl⟩ := hfound
    have hreaches : Reaches sha256 proposals env tv settings req := Option.isSome_iff_ne_none.mpr h
    exact (reaches_iff.mp hreaches).1.own
  · exact absurd (hlookup found fun settings heq => hfound ⟨settings, heq⟩) h

theorem mem_declaredConstraints {schema : Object} {e : String × Object}
    (he : e ∈ declaredConstraints schema) :
    (∃ v, (e.1, v) ∈ properties schema) ∧ ∀ g ∈ e.2, g.1 ≠ "enum_subset" := by
  obtain ⟨f, hf, hsome⟩ := List.mem_filterMap.mp he
  obtain ⟨p, -, hsome⟩ := Option.bind_eq_some_iff.mp hsome
  dsimp only at hsome
  split at hsome
  · cases hsome
  · obtain rfl := Option.some.inj hsome
    refine ⟨⟨f.2, hf⟩, fun g hg => ?_⟩
    simp only [List.mem_append, Option.mem_toList, Option.map_eq_some_iff] at hg
    obtain (⟨v, -, rfl⟩ | ⟨v, -, rfl⟩) | ⟨v, -, rfl⟩ := hg <;> dsimp only <;> decide

/-- Limits that no value is above: in Rego a text comes after every number. -/
def noLimits : Object := [("maxLength", .str ""), ("max", .str ""), ("maxItems", .str "")]

/-- Settings that lift the limits of a schema. -/
def liftingSettings (schema : Object) : TenantToolSettings where
  enabled := true
  maxTierOverride := none
  argumentConstraints := (properties schema).map fun f => (f.1, .obj noLimits)
  rateLimitOverride := none

theorem fieldViolation_noLimits (args : Object) (field : String) {rest : Object}
    (hrest : ∀ g ∈ rest, g.1 ≠ "enum_subset") :
    fieldViolation args field (noLimits ++ rest) = false := by
  have hlength : (noLimits ++ rest).lookup "maxLength" = some (.str "") := rfl
  have hmax : (noLimits ++ rest).lookup "max" = some (.str "") := rfl
  have hitems : (noLimits ++ rest).lookup "maxItems" = some (.str "") := rfl
  have henum : (noLimits ++ rest).lookup "enum_subset" = none := by
    change rest.lookup "enum_subset" = none
    rw [List.lookup_eq_none_iff]
    exact fun g hg => bne_iff_ne.mpr (hrest g hg).symm
  rw [fieldViolation]
  cases args.lookup field with
  | none => rfl
  | some v =>
    simp only [hlength, hmax, hitems, henum]
    cases v <;> rfl

theorem mergeConstraints_lifting (schema args : Object) :
    ∀ f ∈ mergeConstraints schema (liftingSettings schema).argumentConstraints,
      fieldViolation args f.1 f.2 = false := by
  intro f hf
  rw [mergeConstraints, List.mem_append] at hf
  obtain hf | hf := hf
  · obtain ⟨g, hg, hsome⟩ := List.mem_filterMap.mp hf
    obtain ⟨q, -, rfl⟩ := List.mem_map.mp hg
    obtain ⟨spec, hspec, rfl⟩ := Option.map_eq_some_iff.mp hsome
    obtain rfl := JsonTree.obj.inj (asObject_eq_some.mp hspec)
    refine fieldViolation_noLimits args q.1 fun e he => ?_
    have he := List.mem_of_mem_filter he
    change e ∈ ((declaredConstraints schema).lookup q.1).getD [] at he
    cases hlookup : (declaredConstraints schema).lookup q.1 with
    | none =>
      rw [hlookup] at he
      exact absurd he List.not_mem_nil
    | some spec =>
      rw [hlookup] at he
      obtain ⟨l₁, l₂, hsplit, -⟩ := List.lookup_eq_some_iff.mp hlookup
      have hmem : (q.1, spec) ∈ declaredConstraints schema := by
        rw [hsplit]
        exact List.mem_append_right _ List.mem_cons_self
      exact (mem_declaredConstraints hmem).2 e he
  · -- each declared field has limits of the tenant, which come before it
    obtain ⟨hdeclared, hnone⟩ := List.mem_filter.mp hf
    obtain ⟨⟨v, hv⟩, -⟩ := mem_declaredConstraints hdeclared
    exfalso
    rw [Option.isNone_iff_eq_none, List.lookup_eq_none_iff] at hnone
    have hlimits : (f.1, JsonTree.obj noLimits) ∈ (liftingSettings schema).argumentConstraints :=
      List.mem_map.mpr ⟨(f.1, v), hv, rfl⟩
    exact absurd (hnone _ (List.mem_filterMap.mpr ⟨_, hlimits, rfl⟩)) (by simp)

/-- A version with the schema, whose calls are reads. -/
def readVersion (schema : Object) : ToolVersion where
  version := []
  status := .published
  inputSchema := schema
  outputSchema := []
  permissionTier := .read
  costWeight := 1
  p95MS := 0
  sideEffects := []
  deprecationEndsAt := none

/-- A call for nobody in particular. -/
def plainRequest (args : Object) (tenant : Bytes) : Request where
  agentID := []
  principal := []
  oboSub := []
  tenant := tenant
  toolID := []
  args := args
  toolset := []
  proposalGrant := []
  eval := false
  traceID := []

theorem reaches_of_unseen {schema args : Object} {tenant : Bytes}
    (hvalid : validateArgs schema args = [])
    (hown : (affectedURNs schema args tenant).any (crossTenant tenant) = false) :
    Reaches id none (openAnswers true) (readVersion schema) (liftingSettings schema)
      (plainRequest args tenant) := by
  have hallowed : policyAllows (readVersion schema) (liftingSettings schema)
      (plainRequest args tenant) (affectedOboURNs schema args tenant) = true := by
    refine policyAllows_iff.mpr ⟨rfl, .inl rfl, ?_⟩
    refine decide_eq_true (List.map_eq_nil_iff.mpr (List.filter_eq_nil_iff.mpr fun f hf => ?_))
    exact Bool.not_eq_true _ |>.mpr (mergeConstraints_lifting schema args f hf)
  have hcallable : Callable (readVersion schema) (liftingSettings schema)
      (plainRequest args tenant) :=
    ⟨.inl rfl, rfl, hown, hallowed, hvalid⟩
  have hread : effectiveTier (readVersion schema) (liftingSettings schema) = .read := rfl
  rw [reaches_iff, hread]
  refine ⟨hcallable.admitted fun _ => rfl, fun h => h.2 rfl, fun h => ?_, open_openAnswers true⟩
  exact absurd rfl (Gated.not_read h)

end

/-! ## The guard -/

theorem neverInvoked_iff {schema args : Object} {tenant : Bytes}
    (hvalid : validateArgs schema args = []) : NeverInvoked schema args tenant ↔
      ∃ r, NamedPlainly schema args tenant false r ∧ crossTenant tenant r = true := by
  rw [← any_crossTenant_iff]
  constructor
  · intro h
    by_contra hnone
    have hreaches := reaches_of_unseen hvalid (Bool.eq_false_iff.mpr hnone)
    have hnot := h id none (openAnswers true) (readVersion schema)
      (some (some (liftingSettings schema))) (plainRequest args tenant) ⟨rfl, rfl, rfl⟩
    exact Option.isSome_iff_ne_none.mp hreaches hnot
  · intro hseen sha256 proposals env tv found req hserves
    by_contra hinvoked
    have hown := own_of_invoked hinvoked
    rw [hserves.schema, hserves.args, hserves.tenant] at hown
    exact Bool.false_ne_true (hown.symm.trans hseen)

/-- The guard is complete on valid arguments exactly when it sees what there is to see. -/
theorem guardComplete_iff {schema args : Object} {tenant : Bytes}
    (hvalid : validateArgs schema args = []) :
    GuardComplete schema args tenant ↔ GuardSees schema args tenant := by
  constructor
  · intro h
    refine ⟨?_, fun p s r hobo hs hne hr _ => ?_⟩
    · by_cases hforeign : ∀ (p : Held schema args), ∀ s ∈ texts p.value, ¬ Foreign tenant s
      · exact .inr hforeign
      · push Not at hforeign
        obtain ⟨p, s, hs, hf⟩ := hforeign
        exact .inl ((neverInvoked_iff hvalid).mp (h.refused p s hs hf))
    · exact mem_resolveURNs.mp (h.asked p s r hobo hs hne hr id (readVersion schema)
        (liftingSettings schema) (plainRequest args tenant) .read [] none ⟨rfl, rfl, rfl⟩)
  · intro h
    refine ⟨fun p s hs hf => ?_, fun p s r hobo hs hne hr => ?_⟩
    · obtain hseen | hnone := h.foreign
      · exact (neverInvoked_iff hvalid).mpr hseen
      · exact absurd hf (hnone p s hs)
    · intro sha256 tv settings req tier grants verified hserves
      refine NamedPlainly.asked ?_ sha256 settings tier grants verified hserves
      by_cases hplain : p.Plain s
      · exact ⟨p, s, hplain, hne, fun _ => hobo, hr⟩
      · exact h.elements p s r hobo hs hne hr hplain

/-! ## Cases -/

namespace CaseTool

/-- A schema with one annotated property. -/
def schema (name type : String) : Object :=
  [("type", .str "object"), ("additionalProperties", .bool false),
    ("properties", .obj [(name, .obj [("type", .str type),
      ("x-datacern-urn", .str "wr:\x7btenant\x7d:case:case/\x7bvalue\x7d")])])]

def tenant : Bytes := bytes "t-1"

theorem guardSees_plain :
    GuardSees (schema "case_id" "string") [("case_id", .str "c-1")] tenant := by
  have hvalue : ∀ h : Held (schema "case_id" "string") [("case_id", .str "c-1")],
      h.Plain "c-1" := by
    intro h
    obtain ⟨hname, hproperty⟩ := Prod.mk.inj (List.mem_singleton.mp h.declared)
    have hann := h.annotated
    have hgiven := h.given
    rw [JsonTree.obj.inj hproperty] at hann
    rw [hname] at hgiven
    exact ⟨⟨_, (Option.some.inj hann).symm⟩, (Option.some.inj hgiven).symm⟩
  have htexts : ∀ (h : Held (schema "case_id" "string") [("case_id", .str "c-1")]),
      ∀ s ∈ texts h.value, s = "c-1" := by
    intro h s hs
    rw [(hvalue h).2] at hs
    exact List.mem_singleton.mp hs
  refine ⟨.inr fun h s hs hf => ?_, fun h s r _ hs _ _ hplain => ?_⟩
  · rw [htexts h s hs] at hf
    exact absurd hf.1 (by decide)
  · rw [htexts h s hs] at hplain
    exact absurd (hvalue h) hplain

/-- The guard is complete for a case that is given by its id. -/
theorem guardComplete_plain :
    GuardComplete (schema "case_id" "string") [("case_id", .str "c-1")] tenant :=
  (guardComplete_iff (by decide)).mpr guardSees_plain

/-- A case of another tenant, in an array. -/
def elsewhere : Object := [("case_ids", .arr [.str "wr:t-2:case:case/c-1"])]

/-- A case of no tenant. -/
def nowhere : Object := [("case_id", .str "wr::case:case/c-1")]

/-- Schema and arguments are accepted, and the call gets to the backend with a case of another
tenant, which the policy is not asked about; so it does with one of no tenant. -/
theorem guard_incomplete : validateSchemaDoc (some (schema "case_ids" "array")) = [] ∧
      validateArgs (schema "case_ids" "array") elsewhere = [] ∧
      ¬ GuardComplete (schema "case_ids" "array") elsewhere tenant ∧
      affectedOboURNs (schema "case_ids" "array") elsewhere tenant = [] ∧
      ¬ GuardComplete (schema "case_id" "string") nowhere tenant := by
  have hinvoked : (run id none (openAnswers true) (readVersion (schema "case_ids" "array"))
      (some (some enabledSettings)) (plainRequest elsewhere tenant)).invoked.isSome = true := by
    decide
  have hinvoked' : (run id none (openAnswers true) (readVersion (schema "case_id" "string"))
      (some (some enabledSettings)) (plainRequest nowhere tenant)).invoked.isSome = true := by
    decide
  refine ⟨by decide, by decide, fun h => ?_, by decide, fun h => ?_⟩
  · have hnever := h.refused
      ⟨"case_ids", _, _, _, List.mem_singleton_self _, rfl, rfl⟩ "wr:t-2:case:case/c-1"
      (List.mem_singleton_self _) ⟨by decide, by decide⟩
    exact Option.isSome_iff_ne_none.mp hinvoked
      (hnever id none (openAnswers true) _ _ _ ⟨rfl, rfl, rfl⟩)
  · have hnever := h.refused
      ⟨"case_id", _, _, _, List.mem_singleton_self _, rfl, rfl⟩ "wr::case:case/c-1"
      (List.mem_singleton_self _) ⟨by decide, by decide⟩
    exact Option.isSome_iff_ne_none.mp hinvoked'
      (hnever id none (openAnswers true) _ _ _ ⟨rfl, rfl, rfl⟩)

end CaseTool

end Windrose.ToolPlane

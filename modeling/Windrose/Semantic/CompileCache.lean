/-
  Semantic/CompileCache.lean --- the cache of compiled requests.

  Source: services/semantic-service/app/domain/services.py (CompileService) and
  app/compiler/compiler.py (get_dialect).

  A response is cached under the model, the published version, the hash of the request, the
  dialect and the broken names.  What the compiler reads besides is the clock and the name
  of the model.

  The dry run of a validation, which gets the text of the response, is left out.
-/
import Windrose.Foundation.Digest
import Windrose.Foundation.Holds
import Windrose.Foundation.Runs
import Windrose.Semantic.Canonical
import Windrose.Semantic.Text
import Windrose.Semantic.Versions

set_option autoImplicit false

namespace Windrose.Semantic

open Windrose.Foundation
open Windrose.ToolPlane (PyNumber)

/-! ## The resolved range -/

namespace Compiler

variable {C : Compiler} {ordered : List FilterSpec} {req : CompileRequest} {dialect : Dialect}

/-- The response shows the bounds of the time range of the request. -/
def Shown (C : Compiler) (req : CompileRequest) (range : Option ResolvedRange) : Prop :=
  ∀ tr, req.timeRange = some tr →
    ∃ r, range = some r ∧ C.rangeBounds tr = .ok (r.start, r.end)

theorem whereSql_shown {aliases : List (Name × Bytes)} {params : List Param}
    {out : List Clause × List Param × Option ResolvedRange}
    (h : C.whereSql ordered req aliases params = .ok out) : Shown C req out.2.2 := by
  obtain ⟨filters, -, h⟩ := bind_eq_ok.mp h
  obtain ⟨⟨cs, own, resolved⟩, hrange, h⟩ := bind_eq_ok.mp h
  cases h
  intro tr htr
  rw [htr] at hrange
  cases rangeSql_ok hrange with
  | some hdim hbounds htarget => exact ⟨_, rfl, hbounds⟩

theorem compileGroups_shown {groups : List (Name × List Name)} (hgroups : groups ≠ [])
    {params : List Param} {range : Option ResolvedRange} {hops : List JoinPath}
    {out : List Select × List Param × Option ResolvedRange × List JoinPath}
    (h : C.compileGroups ordered req dialect groups params range hops = .ok out) :
    Shown C req out.2.2.1 := by
  induction groups generalizing params range hops out with
  | nil => exact absurd rfl hgroups
  | cons group groups ih =>
    obtain ⟨own, hown, h⟩ := bind_eq_ok.mp h
    obtain ⟨rest, hrest, h⟩ := bind_eq_ok.mp h
    cases h
    cases groups with
    | nil =>
      cases hrest
      exact whereSql_shown (compileGroup_ok hown).1.filters
    | cons next groups => exact (ih (List.cons_ne_nil _ _) hrest : Shown C req rest.2.2.1)

theorem baseMeasures_ne_nil {fuel : Nat} {seen : List Name} {name : Name} {names : List Name}
    (h : C.baseMeasures fuel seen name = .ok names) : names ≠ [] := by
  cases fuel with
  | zero => cases h
  | succ fuel =>
    rw [baseMeasures] at h
    split at h
    · cases h
    · obtain ⟨m, -, h⟩ := bind_eq_ok.mp h
      split at h
      · cases h
        exact List.cons_ne_nil _ _
      · obtain ⟨parts, -, h⟩ := bind_eq_ok.mp h
        split at h
        · cases h
        · next hne =>
          cases h
          obtain ⟨n, hn⟩ := List.exists_mem_of_ne_nil _ hne
          exact List.ne_nil_of_mem (mem_addAllNew_id.mpr (.inr hn))

theorem groupsOf_ne_nil {bases : List (Name × Name)} (hmetrics : req.metrics ≠ [])
    (h : C.bases req = .ok bases) : groupsOf bases ≠ [] := by
  obtain ⟨parts, hparts, hnamed⟩ := bind_eq_ok.mp h
  clear h
  obtain ⟨metric, hmetric⟩ := List.exists_mem_of_ne_nil _ hmetrics
  obtain ⟨names, hnames, hbase⟩ := forall₂_left (mapM_eq_ok.mp hparts) hmetric
  obtain ⟨n, hn⟩ := List.exists_mem_of_ne_nil _ (baseMeasures_ne_nil hbase)
  have hn : n ∈ addAllNew id [] parts.flatten :=
    mem_addAllNew_id.mpr (.inr (List.mem_flatten.mpr ⟨names, hnames, hn⟩))
  obtain ⟨p, hp, hentity⟩ := forall₂_left (mapM_eq_ok.mp hnamed) hn
  intro hnil
  have hmem : p.2 ∈ addAllNew id [] (bases.map Prod.snd) :=
    mem_addAllNew_id.mpr (.inr (List.mem_map_of_mem hp))
  rw [groupsOf, List.map_eq_nil_iff] at hnil
  rw [hnil] at hmem
  cases hmem

theorem compile_shown {c : Compiled} (hmetrics : req.metrics ≠ [])
    (h : C.compile req dialect = .ok c) : Shown C req c.timeRangeResolved := by
  obtain ⟨bases, out, hbases, hplan, -, -, hrange, -⟩ := compileWith_ok h
  rw [hrange]
  rcases plan_cases hplan with ⟨group, -, hsingle⟩ | ⟨-, hmulti⟩
  · obtain ⟨s, having, tail, mid, -, hscope, -⟩ := compileSingle_ok hsingle
    exact whereSql_shown hscope.filters
  · obtain ⟨ctes, hctes, hmulti⟩ := bind_eq_ok.mp hmulti
    obtain ⟨measures, -, hmulti⟩ := bind_eq_ok.mp hmulti
    obtain ⟨having, -, hmulti⟩ := bind_eq_ok.mp hmulti
    obtain ⟨tail, -, hmulti⟩ := bind_eq_ok.mp hmulti
    cases hmulti
    exact compileGroups_shown (groupsOf_ne_nil hmetrics hbases) hctes

end Compiler

/-! ## The service -/

/-- `CompileService`. -/
structure CompileService where
  settings : Settings
  py : PythonText
  /-- The lower case of a text. -/
  lower : String → String
  sha256 : Bytes → Bytes
  reportingTimezone : String

def CompileService.sha256Hex (svc : CompileService) (b : Bytes) : Bytes := hexEncode (svc.sha256 b)

/-- What is cached, and returned with the warnings of the call added. -/
structure Response where
  sql : Bytes
  params : List Param
  engineDialect : Dialect
  outputSchema : List OutputColumn
  modelVersion : String
  measures : List Name
  dimensions : List Name
  joinPaths : List Name
  timeRange : Option ResolvedRange
  warnings : List String

/-- The key of a compiled request. -/
structure CacheKey where
  modelId : Nat
  versionId : Nat
  requestHash : Bytes
  dialect : Dialect
  broken : Bytes
  deriving DecidableEq

/-- What the fields `model` and `workspace_id` of a body refer to. -/
inductive ModelRef where
  | absent
  | id (id : Nat)
  | named (workspaceId : Option String) (name : String)

/-- The arguments of `compile`, and the date of now in the reporting timezone. -/
structure CompileCall where
  body : Fields
  modelRef : ModelRef
  draftVersionNo : Option Nat
  limitCeiling : Option Nat
  today : Option Int

/-- The call with its rows read. -/
structure Job where
  modelId : Nat
  versionId : Nat
  versionLabel : String
  definition : Definition
  broken : List Name
  request : CompileRequest
  dialect : Dialect
  warningsExtra : List String

def dialects : List Dialect := [.duckdb, .trino, .athena, .bigquery, .synapse]

/-- `body.get("dialect") or "trino"`, and `get_dialect`. -/
def getDialect (body : Fields) : Except Exn Dialect :=
  let v := getField body "dialect"
  if truthy v then
    match v with
    | .str s =>
      match dialects.find? fun d => d.name = s with
      | some d => .ok d
      | none => .error (.unknownDialect v)
    | .arr _ => .error .python
    | .obj _ => .error .python
    | v => .error (.unknownDialect v)
  else .ok .trino

/-- How `limit` compares with an int. -/
def Limit.value : Limit → Nat
  | .bool => 1
  | .int n => n

/-- The request under the ceiling of the caller, and the warning of that. -/
def clampLimit (limitCeiling : Option Nat) (req : CompileRequest) : CompileRequest × List String :=
  match limitCeiling with
  | none => (req, [])
  | some ceiling =>
    if req.limit.all fun l => ceiling < l.value then
      ({ req with limit := some (.int ceiling) },
        ["LIMIT_CLAMPED: agent ceiling " ++ toString ceiling ++ " applied"])
    else (req, [])

section

variable (svc : CompileService) (s : Store)

/-- `_resolve_model`. -/
def resolveModel : ModelRef → Except ServiceExn (Nat × SemanticModel)
  | .absent => .error .modelRequired
  | .id id => (s.model id).map (id, ·)
  | .named none _ => .error .workspaceRequired
  | .named (some workspaceId) name =>
    match s.modelNamed svc.lower workspaceId name with
    | some m => .ok m
    | none => .error .modelNotFound

/-- The version to compile against, with its id. -/
def compiledVersion (modelId : Nat) (m : SemanticModel) :
    Option Nat → Except ServiceExn (Nat × ModelVersion)
  | some no => do
      let version ← s.version modelId no
      if version.2.status.open then return version else .error .versionNotOpen
  | none =>
    match m.publishedVersionId with
    | none => .error (.notPublished m.name)
    | some id =>
      match s.versions[id]? with
      | some v => .ok (id, v)
      | none => .error .publishedVersionNotFound

def versionLabel (m : SemanticModel) (v : ModelVersion) : String :=
  m.name ++ "@v" ++ toString v.versionNo

/-- The first half of `compile`. -/
def job (call : CompileCall) : Except ServiceExn Job := do
  let req ← (normalizeRequest svc.settings call.body).mapError .compiler
  let clamped := clampLimit call.limitCeiling req
  let m ← resolveModel svc s call.modelRef
  let version ← compiledVersion s m.1 m.2 call.draftVersionNo
  let dialect ← (getDialect call.body).mapError .compiler
  return {
    modelId := m.1, versionId := version.1, versionLabel := versionLabel m.2 version.2
    definition := version.2.definition, broken := sortedColumns (brokenNames m.2.health)
    request := clamped.1, dialect, warningsExtra := clamped.2 }

end

namespace Job

variable (svc : CompileService) (j : Job)

/-- The compiler of a resolved model. -/
def compiler (today : Option Int) : Compiler where
  py := svc.py
  defn := j.definition
  broken := j.broken
  today := today
  timezone := svc.reportingTimezone

def cacheKey : CacheKey where
  modelId := j.modelId
  versionId := j.versionId
  requestHash := svc.sha256Hex (canonicalJson j.request.canonical)
  dialect := j.dialect
  broken := svc.sha256Hex ([44].intercalate (j.broken.map Name.bytes))

/-- `result` of what the compiler returns. -/
def result (c : Compiled) : Response where
  sql := c.sql
  params := c.params
  engineDialect := j.dialect
  outputSchema := c.outputSchema
  modelVersion := j.versionLabel
  measures := c.measures
  dimensions := c.dimensions
  joinPaths := c.joinPaths
  timeRange := c.timeRangeResolved
  warnings := c.warnings

/-- What a compiler at this time returns. -/
def compile (today : Option Int) : Except ServiceExn Response :=
  (((j.compiler svc today).compile j.request j.dialect).mapError ServiceExn.compiler).map j.result

/-- The warnings of the call are added to a copy. -/
def respond (r : Response) : Response := { r with warnings := r.warnings ++ j.warningsExtra }

end Job

/-! ## Runs -/

/-- The tables and the cache. -/
structure CompileState where
  store : Store
  cache : Dict CacheKey Response

/-- Nothing is created and nothing is compiled. -/
def CompileState.initial : CompileState := ⟨⟨[], []⟩, ∅⟩

section

variable (svc : CompileService) (s : CompileState)

/-- `compile`: the response and the cache after it. -/
def compile (call : CompileCall) : Except ServiceExn Response × Dict CacheKey Response :=
  match job svc s.store call with
  | .error e => (.error e, s.cache)
  | .ok j =>
    let cached := if call.draftVersionNo = none then s.cache.lookup (j.cacheKey svc) else none
    match cached with
    | some r => (.ok (j.respond r), s.cache)
    | none =>
      match j.compile svc call.today with
      | .error e => (.error e, s.cache)
      | .ok r =>
        (.ok (j.respond r),
          if call.draftVersionNo = none then s.cache.insert (j.cacheKey svc) r else s.cache)

/-- What `compile` would return without a cache. -/
def compileFresh (call : CompileCall) : Except ServiceExn Response := do
  let j ← job svc s.store call
  (j.compile svc call.today).map j.respond

/-- `invalidate_model`. -/
def invalidateModel (modelId : Nat) : Dict CacheKey Response :=
  s.cache.filter fun k _ => k.modelId ≠ modelId

/-- A change of a model, or a compile. -/
inductive Act where
  | version (op : VersionOp)
  | health (modelId : Nat) (health : Health)
  | compile (call : CompileCall)

/-- A publication drops what is cached of the model, after it is committed. -/
def cacheAfter : VersionOp → Dict CacheKey Response
  | .approve modelId _ _ _ _ => invalidateModel s modelId
  | _ => s.cache

/-- One step. -/
def step : Act → CompileState
  | .version op =>
    match s.store.perform svc.lower op with
    | .ok store => ⟨store, cacheAfter s op⟩
    | .error _ => s
  | .health modelId health =>
    match s.store.models[modelId]? with
    | some m => { s with store := s.store.writeModel modelId { m with health } }
    | none => s
  | .compile call => { s with cache := (compile svc s call).2 }

/-- The response is that of a compiler that runs now. -/
def Transparent : Act → Prop
  | .compile call => (compile svc s call).1 = compileFresh svc s call
  | _ => True

/-- A cached response is still current: it has the present label, and a relative range has
its present bounds. -/
structure Current (j : Job) (today : Option Int) (r : Response) : Prop where
  label : r.modelVersion = j.versionLabel
  bounds : ∀ tr, j.request.timeRange = some tr → truthy tr.relative.tree = true →
    ∃ range, r.timeRange = some range ∧
      (j.compiler svc today).rangeBounds tr = .ok (range.start, range.end)

/-- What the cache holds for the request is current. -/
def HitsCurrent : Act → Prop
  | .compile call => ∀ j r, job svc s.store call = .ok j → call.draftVersionNo = none →
      s.cache.lookup (j.cacheKey svc) = some r → Current svc j call.today r
  | _ => True

end

/-! ## What the cache holds -/

theorem mapError_eq_ok {ε ε' α : Type} {x : Except ε α} {f : ε → ε'} {a : α} :
    x.mapError f = .ok a ↔ x = .ok a := by
  cases x <;> simp [Except.mapError]

theorem comma_not_mem_name (n : Name) : (44 : UInt8) ∉ n.bytes ∧ n.bytes ≠ [] := by
  refine ⟨fun h => ?_, fun h => ?_⟩
  · exact absurd (Name.char_of_mem_bytes h (by decide)) (by decide)
  · obtain ⟨c, cs, hcs, -⟩ := n.exists_head
    have hempty : n.text = "" := bytes_injective (h.trans rfl)
    rw [hempty] at hcs
    cases hcs

theorem Name.bytes_injective : Function.Injective Name.bytes :=
  fun _ _ h => Name.ext (Foundation.bytes_injective h)

variable {j : Job}

section

variable {svc : CompileService} (hsha : Function.Injective svc.sha256)

include hsha

theorem Job.eq_of_cacheKey {j' : Job} (h : j.cacheKey svc = j'.cacheKey svc) :
    j.versionId = j'.versionId ∧ j.dialect = j'.dialect ∧ j.broken = j'.broken ∧
      canonicalJson j.request.canonical = canonicalJson j'.request.canonical := by
  obtain ⟨-, hversion, hrequest, hdialect, hbroken⟩ := CacheKey.mk.inj h
  refine ⟨hversion, hdialect, ?_, hsha (hexEncode_injective hrequest)⟩
  refine Name.bytes_injective.list_map (intercalate_sep_inj ?_ ?_
    (hsha (hexEncode_injective hbroken)))
  · exact List.forall_mem_map.mpr fun n _ => comma_not_mem_name n
  · exact List.forall_mem_map.mpr fun n _ => comma_not_mem_name n

end

/-- Where an entry comes from: a job on a closed version with the definition of the row. -/
structure Grounded (svc : CompileService) (s : Store) (k : CacheKey) (r : Response) (j : Job)
    (today : Option Int) (v : ModelVersion) : Prop where
  row : s.versions[k.versionId]? = some v
  closed : v.status.open = false
  key : j.cacheKey svc = k
  definition : j.definition = v.definition
  metrics : j.request.metrics ≠ []
  response : j.compile svc today = .ok r

/-- The published versions are closed, and every entry comes from a closed version. -/
structure Inv (svc : CompileService) (s : CompileState) : Prop where
  published : s.store.PublishedClosed
  grounded : ∀ k r, s.cache.lookup k = some r → ∃ j today v, Grounded svc s.store k r j today v

variable {svc : CompileService} {r : Response} {today : Option Int} {call : CompileCall}
  {s : CompileState}

theorem compile_result_ok : j.compile svc today = .ok r ↔
      ∃ c, (j.compiler svc today).compile j.request j.dialect = .ok c ∧ j.result c = r := by
  rw [Job.compile, map_eq_ok]
  simp only [mapError_eq_ok]

/-! ## A hit -/

theorem rangeBounds_at {C : Compiler} {tr : TimeRange} (h : ¬ truthy tr.relative.tree = true)
    (today : Option Int) : (C.at today).rangeBounds tr = C.rangeBounds tr := by
  rw [Compiler.rangeBounds, Compiler.rangeBounds, if_neg h, if_neg h]

/-- A cached response is current exactly when a compiler returns it now. -/
theorem Grounded.current_iff (hsha : Function.Injective svc.sha256)
    {s : Store} {k : CacheKey} {j' : Job} {today' : Option Int} {v : ModelVersion}
    (h : Grounded svc s k r j today v) (hkey : j'.cacheKey svc = k)
    (hdefinition : j'.definition = v.definition) :
    Current svc j' today' r ↔ j'.compile svc today' = .ok r := by
  obtain ⟨-, hdialect, hbroken, hcanonical⟩ := Job.eq_of_cacheKey hsha (hkey.trans h.key.symm)
  have hcompiler : j'.compiler svc today' = (j.compiler svc today).at today' := by
    rw [Job.compiler, Job.compiler, Compiler.at, hdefinition, ← h.definition, hbroken]
  have hrange : j'.request.timeRange = j.request.timeRange := by
    rw [(CompileRequest.eq_of_canonicalJson hcanonical).2]
  obtain ⟨c, hc, hresult⟩ := compile_result_ok.mp h.response
  have hthen := Compiler.compile_shown h.metrics hc
  rw [compile_result_ok, hdialect, Compiler.compile_of_canonicalJson hcanonical]
  constructor
  · rintro ⟨hlabel, hbounds⟩
    refine ⟨c, ?_, ?_⟩
    · rw [hcompiler]
      refine (Compiler.compileWith_at fun tr htr => ?_).trans hc
      by_cases hrelative : truthy tr.relative.tree = true
      · obtain ⟨range, hsome, hnow⟩ := hbounds tr (hrange.trans htr) hrelative
        obtain ⟨range', hsome', hthen⟩ := hthen tr htr
        rw [← hresult] at hsome
        cases hsome'.symm.trans hsome
        rw [hthen, ← hcompiler, hnow]
      · exact rangeBounds_at hrelative today'
    · rw [← hresult] at hlabel ⊢
      rw [Job.result, Job.result, hdialect]
      exact congrArg (fun label => { j.result c with modelVersion := label }) hlabel.symm
  · rintro ⟨c', hc', rfl⟩
    refine ⟨rfl, fun tr htr _ => ?_⟩
    exact Compiler.compile_shown h.metrics hc' tr (hrange.symm.trans htr)

theorem Job.respond_injective (j : Job) : Function.Injective j.respond := by
  intro r r' h
  obtain ⟨h1, h2, h3, h4, h5, h6, h7, h8, h9, hwarnings⟩ := Response.mk.inj h
  have hwarnings := List.append_cancel_right hwarnings
  cases r
  cases r'
  simp_all

/-! ## What a job reads -/

theorem normalizeMetrics_ne_nil {settings : Settings} {v : JsonTree PyNumber}
    {ms : { ms : List Name // ms.Nodup }} (h : normalizeMetrics settings v = .ok ms) :
      ms.1 ≠ [] := by
  unfold normalizeMetrics at h
  split at h
  · next htruthy =>
    split at h
    · next vs =>
      obtain ⟨names, hnames, h⟩ := (bind_eq_ok (x := vs.mapM (gate .metric))).mp h
      have hne : vs ≠ [] := by
        rintro rfl
        cases htruthy
      obtain ⟨x, hx⟩ := List.exists_mem_of_ne_nil _ hne
      obtain ⟨n, hn, -⟩ := forall₂_left (mapM_eq_ok.mp hnames) hx
      dsimp only at h
      split at h
      · cases h
      · cases h
        exact List.ne_nil_of_mem (mem_addAllNew_id.mpr (.inr hn))
    · cases h
  · cases h

theorem normalizeRequest_metrics {settings : Settings} {body : Fields} {req : CompileRequest}
    (h : normalizeRequest settings body = .ok req) : req.metrics ≠ [] := by
  obtain ⟨metrics, hmetrics, h⟩ := bind_eq_ok.mp h
  obtain ⟨dims, -, h⟩ := bind_eq_ok.mp h
  obtain ⟨fs, -, h⟩ := bind_eq_ok.mp h
  obtain ⟨filters, -, h⟩ := bind_eq_ok.mp h
  obtain ⟨timeRange, -, h⟩ := bind_eq_ok.mp h
  obtain ⟨os, -, h⟩ := bind_eq_ok.mp h
  obtain ⟨orderBy, -, h⟩ := bind_eq_ok.mp h
  obtain ⟨hs, -, h⟩ := bind_eq_ok.mp h
  obtain ⟨having, -, h⟩ := bind_eq_ok.mp h
  obtain ⟨limit, -, h⟩ := bind_eq_ok.mp h
  obtain ⟨ps, -, h⟩ := bind_eq_ok.mp h
  obtain ⟨joinPaths, -, h⟩ := bind_eq_ok.mp h
  obtain ⟨owg, -, h⟩ := bind_eq_ok.mp h
  cases h
  exact normalizeMetrics_ne_nil hmetrics

theorem metrics_clampLimit (limitCeiling : Option Nat) (req : CompileRequest) :
    (clampLimit limitCeiling req).1.metrics = req.metrics := by
  unfold clampLimit
  split
  · rfl
  · split <;> rfl

theorem job_ok {s : Store} (h : job svc s call = .ok j) (hdraft : call.draftVersionNo = none) :
    j.request.metrics ≠ [] ∧ ∃ m ∈ s.models, m.publishedVersionId = some j.versionId ∧
      ∃ v, s.versions[j.versionId]? = some v ∧ j.definition = v.definition := by
  obtain ⟨req, hreq, h⟩ := bind_eq_ok.mp h
  obtain ⟨m, hm, h⟩ := bind_eq_ok.mp h
  obtain ⟨version, hversion, h⟩ := bind_eq_ok.mp h
  obtain ⟨dialect, -, h⟩ := bind_eq_ok.mp h
  cases h
  refine ⟨?_, m.2, ?_, ?_⟩
  · rw [metrics_clampLimit]
    exact normalizeRequest_metrics (mapError_eq_ok.mp hreq)
  · unfold resolveModel at hm
    split at hm
    · cases hm
    · obtain ⟨m', hm', rfl⟩ := map_eq_ok.mp hm
      exact List.mem_of_getElem? (Store.model_ok hm')
    · cases hm
    · split at hm
      · next hnamed =>
        cases hm
        obtain ⟨id, -, hid⟩ := Option.bind_eq_some_iff.mp hnamed
        obtain ⟨m', hm', rfl⟩ := Option.map_eq_some_iff.mp hid
        exact List.mem_of_getElem? hm'
      · cases hm
  · rw [hdraft] at hversion
    rw [compiledVersion] at hversion
    split at hversion
    · cases hversion
    · next id hid =>
      split at hversion
      · next v hv =>
        cases hversion
        exact ⟨hid, v, hv, rfl⟩
      · cases hversion

/-! ## The invariant -/

theorem Grounded.keeps {s s' : Store} {k : CacheKey}
    {v : ModelVersion} (h : Grounded svc s k r j today v) (hkeeps : s.Keeps s') :
    ∃ v', Grounded svc s' k r j today v' := by
  obtain ⟨v', hv', hclosed, hdefinition⟩ := hkeeps _ v h.row h.closed
  exact ⟨v', hv', hclosed, h.key, h.definition.trans hdefinition.symm, h.metrics, h.response⟩

theorem Inv.keeps {s' : CompileState} (h : Inv svc s)
    (hkeeps : s.store.Keeps s'.store) (hpublished : s'.store.PublishedClosed)
    (hcache : ∀ k r, s'.cache.lookup k = some r → s.cache.lookup k = some r) : Inv svc s' := by
  refine ⟨hpublished, fun k r hr => ?_⟩
  obtain ⟨j, today, v, hg⟩ := h.grounded k r (hcache k r hr)
  obtain ⟨v', hg'⟩ := hg.keeps hkeeps
  exact ⟨j, today, v', hg'⟩

theorem inv_compile (h : Inv svc s) (call : CompileCall) :
    Inv svc { s with cache := (compile svc s call).2 } := by
  have hsame : Inv svc { s with cache := s.cache } := h
  unfold compile
  split
  · exact hsame
  · next j hj =>
    dsimp only
    split
    · exact hsame
    · split
      · exact hsame
      · next r hr =>
        dsimp only
        split
        · next hdraft =>
          refine ⟨h.published, fun k r' hr' => ?_⟩
          by_cases hk : k = j.cacheKey svc
          · subst hk
            rw [AList.lookup_insert] at hr'
            cases hr'
            obtain ⟨hmetrics, m, hm, hid, v, hv, hdefinition⟩ := job_ok hj hdraft
            obtain ⟨w, hw, hclosed⟩ := h.published m hm _ hid
            cases hv.symm.trans hw
            exact ⟨j, call.today, v, hv, hclosed, rfl, hdefinition, hmetrics, hr⟩
          · rw [AList.lookup_insert_ne hk] at hr'
            exact h.grounded k r' hr'
        · exact hsame

theorem inv_step (s : CompileState) (a : Act) (h : Inv svc s) : Inv svc (step svc s a) := by
  cases a with
  | version op =>
    rw [step]
    split
    · next store hstore =>
      obtain ⟨hkeeps, hpublished⟩ := perform_keeps hstore h.published
      refine h.keeps hkeeps hpublished fun k r hr => ?_
      cases op with
      | approve modelId versionNo datasetLookup subject note => exact Dict.lookup_of_filter hr
      | _ => exact hr
    · exact h
  | health modelId health =>
    rw [step]
    split
    · next m hm =>
      have hkeeps : s.store.Keeps (s.store.writeModel modelId { m with health }) :=
        Store.Keeps.refl s.store
      refine h.keeps hkeeps (h.published.keeps hkeeps fun m' hm' _ => ?_) fun _ _ hr => hr
      rcases List.mem_or_eq_of_mem_set hm' with hm' | rfl
      · exact ⟨m', hm', rfl⟩
      · exact ⟨m, List.mem_of_getElem? hm, rfl⟩
    · exact h
  | compile call => exact inv_compile h call

theorem inv_initial (svc : CompileService) : Inv svc .initial :=
  ⟨nofun, fun k r hr => by simp [CompileState.initial] at hr⟩

/-! ## Transparency -/

theorem compile_of_miss (hj : job svc s.store call = .ok j)
    (hmiss : call.draftVersionNo = none → s.cache.lookup (j.cacheKey svc) = none) :
    (compile svc s call).1 = compileFresh svc s call := by
  have hcached : (if call.draftVersionNo = none then s.cache.lookup (j.cacheKey svc) else none) =
      none := by
    split
    · next hdraft => exact hmiss hdraft
    · rfl
  rw [compile, compileFresh, hj]
  dsimp only
  rw [hcached]
  show _ = (j.compile svc call.today).map j.respond
  cases j.compile svc call.today <;> rfl

theorem compile_of_hit (hj : job svc s.store call = .ok j) (hdraft : call.draftVersionNo = none)
    (hr : s.cache.lookup (j.cacheKey svc) = some r) :
    (compile svc s call).1 = .ok (j.respond r) := by
  rw [compile, hj]
  dsimp only
  rw [if_pos hdraft, hr]

/-- A response is that of a fresh compile exactly when the cache holds nothing for the
request or something that is current. -/
theorem transparent_iff (hsha : Function.Injective svc.sha256)
    (h : Inv svc s) (a : Act) : Transparent svc s a ↔ HitsCurrent svc s a := by
  cases a with
  | version op => exact Iff.rfl
  | health modelId health => exact Iff.rfl
  | compile call =>
    cases hj : job svc s.store call with
    | error e =>
      rw [Transparent, compile, compileFresh, hj]
      refine ⟨fun _ j r hj' => ?_, fun _ => rfl⟩
      cases hj.symm.trans hj'
    | ok j =>
      by_cases hdraft : call.draftVersionNo = none
      · cases hr : s.cache.lookup (j.cacheKey svc) with
        | none =>
          refine ⟨fun _ j' r hj' _ hr' => ?_, fun _ => compile_of_miss hj fun _ => hr⟩
          cases hj.symm.trans hj'
          cases hr.symm.trans hr'
        | some r =>
          obtain ⟨k', today, v, hg⟩ := h.grounded _ _ hr
          obtain ⟨-, m, -, -, w, hw, hdefinition⟩ := job_ok hj hdraft
          cases hw.symm.trans hg.row
          have hcurrent : Current svc j call.today r ↔ _ := hg.current_iff hsha rfl hdefinition
          have hhit : Transparent svc s (.compile call) ↔ j.compile svc call.today = .ok r := by
            rw [Transparent, compile_of_hit hj hdraft hr, compileFresh, hj]
            show Except.ok (j.respond r) = (j.compile svc call.today).map j.respond ↔ _
            rw [eq_comm, map_eq_ok]
            constructor
            · rintro ⟨r', hr', heq⟩
              rw [hr', j.respond_injective heq]
            · exact fun hr' => ⟨r, hr', rfl⟩
          rw [hhit, ← hcurrent]
          constructor
          · intro hcurrent j' r' hj' _ hr'
            cases hj.symm.trans hj'
            cases hr.symm.trans hr'
            exact hcurrent
          · exact fun hall => hall j r hj hdraft hr
      · exact ⟨fun _ j' r _ hnone _ => absurd hnone hdraft,
          fun _ => compile_of_miss hj fun hnone => absurd hnone hdraft⟩

theorem lookup_compile (hj : job svc s.store call = .ok j) (hdraft : call.draftVersionNo = none) :
    (compile svc s call).2.lookup (j.cacheKey svc) =
      (s.cache.lookup (j.cacheKey svc)).or (j.compile svc call.today).toOption := by
  rw [compile, hj]
  dsimp only
  rw [if_pos hdraft]
  cases hcached : s.cache.lookup (j.cacheKey svc) with
  | some r => exact hcached
  | none =>
    cases j.compile svc call.today with
    | error e => exact hcached
    | ok r =>
      dsimp only
      rw [if_pos hdraft, AList.lookup_insert]
      rfl

theorem hitsCurrent_again (hsha : Function.Injective svc.sha256)
    (h : Inv svc s) (hbefore : HitsCurrent svc s (.compile call)) :
    HitsCurrent svc (step svc s (.compile call)) (.compile call) := by
  intro j r hj hdraft hr
  have hj : job svc s.store call = .ok j := hj
  have hr := (lookup_compile hj hdraft).symm.trans hr
  rcases Option.or_eq_some_iff.mp hr with hcached | ⟨-, hcompile⟩
  · exact hbefore j r hj hdraft hcached
  · obtain ⟨-, m, -, -, v, hv, hdefinition⟩ := job_ok hj hdraft
    obtain ⟨j', today, w, hg⟩ := (inv_step s (.compile call) h).grounded _ r
        ((lookup_compile hj hdraft).trans hr)
    cases hv.symm.trans hg.row
    apply (hg.current_iff hsha rfl hdefinition).mpr
    cases hok : j.compile svc call.today with
    | error e =>
      rw [hok] at hcompile
      cases hcompile
    | ok r' =>
      rw [hok] at hcompile
      cases hcompile
      rfl

/-- In a run from nothing, every response is that of a fresh compile exactly when every hit of
the cache is current. -/
theorem cache_transparent_iff (svc : CompileService) (hsha : Function.Injective svc.sha256)
    (acts : List Act) :
    Each (step svc) (Transparent svc) .initial acts ↔
      Each (step svc) (HitsCurrent svc) .initial acts := by
  have hinv : ∀ done, Inv svc (run (step svc) .initial done) := fun done =>
    run_invariant (P := Inv svc) (fun s a h => inv_step s a h) (inv_initial svc) done
  constructor
  · exact fun h done a hd => (transparent_iff hsha (hinv done) a).mp (h done a hd)
  · exact fun h done a hd => (transparent_iff hsha (hinv done) a).mpr (h done a hd)

/-! ### In the shop -/

namespace Shop

/-- The revenue of yesterday. -/
def ofYesterday : Fields :=
  [("metrics", .arr [.str "revenue"]),
    ("time_range", .obj [("dimension", .str "placed_on"), ("relative", .str "yesterday")])]

def digests : List (Bytes × Bytes) :=
  [(bytes "\x7b\"dimensions\":[],\"filters\":[],\"having\":[],\"join_paths\":[],\"limit\":null,\"metrics\":[\"revenue\"],\"order_by\":[],\"order_within_group\":null,\"time_range\":\x7b\"dimension\":\"placed_on\",\"end\":null,\"relative\":\"yesterday\",\"start\":null\x7d\x7d",
      [104, 178, 85, 36, 231, 209, 86, 93, 187, 153, 136, 52, 161, 204, 134, 121, 104, 157, 94, 185,
        166, 116, 138, 185, 181, 29, 28, 112, 85, 32, 62, 143]),
    ([],
      [227, 176, 196, 66, 152, 252, 28, 20, 154, 251, 244, 200, 153, 111, 185, 36, 39, 174, 65, 228,
        100, 155, 147, 76, 164, 149, 153, 27, 120, 82, 184, 85])]

def service : CompileService where
  settings := ⟨20, 20, 10000⟩
  py := compiler.py
  lower := fun name => name
  sha256 := digestTable digests
  reportingTimezone := "UTC"

theorem sha256_injective : Function.Injective service.sha256 :=
  digestTable_injective (by decide) (by decide)

def askedOn (today : Int) : CompileCall where
  body := ofYesterday
  modelRef := .id 0
  draftVersionNo := none
  limitCeiling := none
  today := some today

/-- The model of the shop is written by one and published by another. -/
def opened : List Act :=
  [.version (.create "w-1" "shop" defn), .version (.submit 0 1 datasets "ann"),
    .version (.approve 0 1 datasets "bob" none)]

/-- The third of July 2026. -/
def thirdOfJuly : Int := ofYmd 2026 7 3

def startText (x : Except ServiceExn Response) : Option String :=
  x.toOption.bind fun r => r.timeRange.bind fun range =>
    match range.start.tree with
    | .str s => some s
    | _ => none

/-- After the first request of a day. -/
def asked : CompileState := run (step service) .initial (opened ++ [.compile (askedOn thirdOfJuly)])

theorem cache_opened : (run (step service) .initial opened).cache.entries = [] := by decide

/-- Two requests of one day, the second of them from the cache. -/
theorem transparent_on_one_day : Each (step service) (Transparent service) .initial
    (opened ++ [.compile (askedOn thirdOfJuly), .compile (askedOn thirdOfJuly)]) := by
  apply (cache_transparent_iff service sha256_injective _).mpr
  have hinv : Inv service (run (step service) .initial opened) :=
    run_invariant (P := Inv service) (fun s a h => inv_step s a h) (inv_initial service) opened
  have hfirst : HitsCurrent service (run (step service) .initial opened)
      (.compile (askedOn thirdOfJuly)) := by
    intro j r _ _ hr
    rw [Dict.lookup_eq_some, cache_opened] at hr
    cases hr
  have hagain := hitsCurrent_again sha256_injective hinv hfirst
  simp only [opened, List.cons_append, List.nil_append, each_cons]
  exact ⟨trivial, trivial, trivial, hfirst, hagain, each_nil _⟩

/-- On the next day, the response for yesterday is still that for the day before. -/
theorem stale_on_next_day : ¬ Each (step service) (Transparent service) .initial
    (opened ++ [.compile (askedOn thirdOfJuly), .compile (askedOn (thirdOfJuly + 1))]) := by
  intro h
  have hsame := h (opened ++ [.compile (askedOn thirdOfJuly)])
      (.compile (askedOn (thirdOfJuly + 1)))
    (by simp)
  have hcached : startText (compile service asked (askedOn (thirdOfJuly + 1))).1 =
      some "2026-07-02" := by
    decide +kernel
  have hfresh : startText (compileFresh service asked (askedOn (thirdOfJuly + 1))) =
      some "2026-07-03" := by
    decide
  have hstart := congrArg startText hsame
  exact absurd (hcached.symm.trans (hstart.trans hfresh)) (by decide)

end Shop

end Windrose.Semantic

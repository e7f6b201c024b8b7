/-
  Query/Plan.lean --- the planning pipeline.

  Source: services/query-service/internal/exec/plan.go (defaultEstimate,
  buildPlan, cacheKey), internal/domain/limits.go (EffectiveCeilings) and
  internal/engine/router.go (Route).

  What the pipeline calls outside itself is the record `Planner`: the resolver of
  dataset references, the PostgreSQL parser, SHA-256, the tenant limits of the
  store and the health of the engines.  The declared variables enter as what
  `ValidateDecls` and `BindValues` make of them.

  Every turn of the two resolving loops appends one dataset to all of `metas`,
  `urns`, `versionPins`, `materializations` and the warnings, so the plan keeps
  the list `metas` and the others are functions of it.  `RedactedParams`, which
  only the history reads, is left out.
-/
import Windrose.Foundation.Json
import Windrose.Foundation.Time
import Windrose.Foundation.Uuid
import Windrose.Query.Frame
import Windrose.Query.Guard

set_option autoImplicit false

namespace Windrose.Query

open Windrose.Foundation

/-! ## Arguments and the cache key -/

/-- An instant in UTC, as `BindValues` makes every date and timestamp. -/
def UtcTime : Type := { t : Time // t.zone = 0 }

/-- A bound argument: an `int64`, a `time.Time`, or what `encoding/json` decodes a
value to.  Strings, decimals and booleans are of the last kind in both parameter
styles. -/
inductive Arg where
  | int64 (n : Int)
  | time (t : UtcTime)
  | json (v : Json)

/-- The Go type of an argument, as far as the key cannot tell it. -/
inductive ArgKind where
  | int64
  | time
  | json
  deriving DecidableEq

namespace Arg

def kind : Arg → ArgKind
  | .int64 _ => .int64
  | .time _ => .time
  | .json _ => .json

/-- `json.Marshal` fails on a time with a year that has not four digits. -/
def marshals : Arg → Bool
  | .time t => 0 ≤ (civil t.1.sec).year && (civil t.1.sec).year ≤ 9999
  | _ => true

/-- `json.Marshal` of one argument. -/
def text : Arg → Bytes
  | .int64 n => formatInt n
  | .time t => quote (formatRFC3339Nano t.1)
  | .json v => v.encode

end Arg

/-- The items of the marshalled array from one on. -/
def marshalItems : Bool → List Arg → Bytes
  | _, [] => [93]
  | first, a :: args => (if first then [] else [44]) ++ (a.text ++ marshalItems false args)

/-- `json.Marshal(args)` with its error dropped.  Without arguments the slice is
nil. -/
def marshalArgs (args : List Arg) : Bytes :=
  if args.isEmpty then bytes "null"
  else if args.all Arg.marshals then 91 :: marshalItems true args
  else []

def sortStrings (ss : List Bytes) : List Bytes := ss.mergeSort fun a b => decide (a ≤ b)

/-- What `cacheKey` hashes. -/
def cacheKeyText (tenant : Uuid) (fingerprint : Bytes) (args : List Arg)
    (versionPins : List Bytes) :
    Bytes :=
  tenant.text ++ 124 :: (fingerprint ++ 124 :: (marshalArgs args ++
    124 :: (bytes ",").intercalate (sortStrings versionPins)))

/-- `cacheKey`. -/
def cacheKey (sum256 : Bytes → Bytes) (tenant : Uuid) (fingerprint : Bytes) (args : List Arg)
    (versionPins : List Bytes) : Bytes :=
  hexEncode (sum256 (cacheKeyText tenant fingerprint args versionPins))

/-! ## Datasets -/

/-- `Meta`, without the columns. -/
structure Meta where
  name : Bytes
  version : Int
  urn : Bytes
  physicalIdent : Bytes
  nspace : Bytes
  sizeBytes : Int
  rowCount : Int
  deprecated : Bool
  sourceURIs : List Bytes
  sourceFormat : Bytes

/-- A dataset version as the key pins it. -/
def Meta.pin (lower : Lower) (m : Meta) : Bytes × Int := (lower.toLower m.name, m.version)

/-- `"%s@%d"`. -/
def pinText (p : Bytes × Int) : Bytes := p.1 ++ 64 :: formatInt p.2

/-! ## Estimate, ceilings and routing -/

/-- The estimate of an engine. -/
structure Estimate where
  scanBytes : Int
  rows : Int
  partitionsPruned : Bytes
  confidence : Bytes
  totalDatasetBytes : Int

/-- Addition of 64-bit integers. -/
def add64 (a b : Int) : Int := (a + b).bmod (2 ^ 64)

/-- `defaultEstimate`. -/
def defaultEstimate (metas : List Meta) : Estimate :=
  let scan := metas.foldl (fun acc m => add64 acc m.sizeBytes) 0
  { scanBytes := scan
    rows := metas.foldl (fun acc m => add64 acc m.rowCount) 0
    partitionsPruned := []
    confidence := if metas.any (·.sizeBytes = 0) then bytes "low" else bytes "high"
    totalDatasetBytes := scan }

/-- The class of a caller. -/
inductive CallerClass where
  | user
  | service
  | agent
  deriving DecidableEq

/-- `TenantLimits`, as far as planning reads it. -/
structure TenantLimits where
  maxScanBytes : Option Int
  maxRuntimeS : Option Int
  maxResultBytes : Option Int
  maxResultRows : Option Int
  warehousePrimary : Bool

/-- The limits of an execution. -/
structure Ceilings where
  maxScanBytes : Int
  maxRuntimeS : Int
  maxResultBytes : Int
  maxResultRows : Int

/-- The lower of a ceiling and an override. -/
def lowered (c : Int) (override : Option Int) : Int :=
  match override with
  | none => c
  | some v => min c v

/-- `EffectiveCeilings`. -/
def effectiveCeilings (limits : Option TenantLimits) (caller : CallerClass) (async : Bool) :
    Ceilings :=
  let agent (c a : Int) : Int := if caller = .agent then min c a else c
  let field (c : Int) (f : TenantLimits → Option Int) : Int := lowered c (limits.bind f)
  { maxScanBytes := field (agent (50 * 2 ^ 30) (5 * 2 ^ 30)) (·.maxScanBytes)
    maxRuntimeS := field (if async then 1600 else 300) (·.maxRuntimeS)
    maxResultBytes := field (agent (2 ^ 30) (50 * 2 ^ 20)) (·.maxResultBytes)
    maxResultRows := field (agent 5000000 10000) (·.maxResultRows) }

/-- The engines. -/
inductive EngineName where
  | duckdb
  | trino
  | warehouse
  deriving DecidableEq

def EngineName.text : EngineName → Bytes
  | .duckdb => bytes "duckdb"
  | .trino => bytes "trino"
  | .warehouse => bytes "warehouse"

/-- What the router looks at. -/
structure RouteInput where
  warehousePrimary : Bool
  estimatedScanBytes : Int
  totalDatasetBytes : Int
  dialectPortable : Bool
  engineHint : Bytes
  healthy : EngineName → Bool

/-- `RouteDecision`; the warnings of the reason are the same list. -/
structure RouteDecision where
  engine : EngineName
  rule : Bytes
  detail : Bytes
  warnings : List Bytes

def eEngineUnavailable (msg : Bytes) : Error := ⟨.engineUnavailable, 503, [.text msg], .none⟩

/-- `routeBase`. -/
def routeBase (i : RouteInput) : Except Error RouteDecision :=
  if i.warehousePrimary then
    if i.healthy .warehouse then .ok ⟨.warehouse, bytes "tenant_policy", [], []⟩
    else if i.healthy .trino then
      .ok ⟨.trino, bytes "engine_fallback", bytes "warehouse_primary but warehouse unavailable",
        [bytes "ENGINE_FALLBACK"]⟩
    else .error (eEngineUnavailable
      (bytes "no engine available for tenant policy warehouse_primary"))
  else if i.estimatedScanBytes ≤ 500 * 2 ^ 20 ∧ i.totalDatasetBytes ≤ 5 * 2 ^ 30 ∧
      i.dialectPortable ∧ i.healthy .duckdb then
    .ok ⟨.duckdb, bytes "small_interactive", [], []⟩
  else if i.healthy .trino then .ok ⟨.trino, bytes "default_large", [], []⟩
  else if i.healthy .warehouse then
    .ok ⟨.warehouse, bytes "engine_fallback", bytes "trino unavailable in cell",
      [bytes "ENGINE_FALLBACK"]⟩
  else .error (eEngineUnavailable (bytes "all engines down for this plan"))

/-- `Route`. -/
def route (i : RouteInput) : Except Error RouteDecision := do
  let base ← routeBase i
  let overridden := { base with warnings := base.warnings ++ [bytes "HINT_OVERRIDDEN"] }
  if i.engineHint = [] ∨ i.engineHint = base.engine.text then .ok base
  else if i.engineHint = bytes "duckdb" then .ok overridden
  else if i.engineHint = bytes "trino" then
    if base.engine = .duckdb ∧ i.healthy .trino then
      .ok ⟨.trino, bytes "engine_hint", bytes "promoted from duckdb by hint", []⟩
    else .ok overridden
  else if i.engineHint = bytes "warehouse" then
    if (base.engine = .duckdb ∨ base.engine = .trino) ∧ i.healthy .warehouse then
      .ok ⟨.warehouse, bytes "engine_hint", bytes "promoted by hint", []⟩
    else .ok overridden
  else .error (eValidation (bytes "unknown engine_hint " ++ i.engineHint))

/-! ## Planning -/

/-- What planning calls. -/
structure Planner where
  lower : Lower
  pg : PgQuery
  sum256 : Bytes → Bytes
  resolve : Uuid → Bytes → Nat → Except Error Meta
  autoMaterializeSchemas : List Bytes
  extraNamespaces : Uuid → List Bytes
  estimate : List Meta → Classification → Estimate
  tenantLimits : Uuid → Except Error (Option TenantLimits)
  healthy : EngineName → Bool

/-- `PlanRequest`.  `declared` says that there are declarations or values, and
`bindings` is what `ValidateDecls` and `BindValues` make of them. -/
structure PlanRequest where
  tenant : Uuid
  caller : CallerClass
  sqlText : Bytes
  declared : Bool
  bindings : Except Error (Bytes → Option (BoundValue Arg))
  binds : List Arg
  engineHint : Bytes
  limit : Int
  async : Bool

namespace PlanRequest

/-- Whether the request carries positional arguments. -/
def bindsMode (req : PlanRequest) : Bool := !req.binds.isEmpty

/-- The two parameter styles exclude each other. -/
def checkStyle (req : PlanRequest) : Except Error Unit :=
  if req.bindsMode ∧ req.declared then
    .error (eValidation
      (bytes "binds cannot be combined with declared variables; use one parameter style"))
  else .ok ()

/-- The rewriting of the request's parameter style. -/
def rewritten (req : PlanRequest) (bindings : Bytes → Option (BoundValue Arg))
    (idents : Bytes → Option Bytes) : Except Error (Rewritten Arg) :=
  if req.bindsMode then rewriteBinds req.sqlText idents req.binds
  else rewrite req.sqlText bindings idents

end PlanRequest

/-- The statement that planning makes of a request, before limits and routing. -/
structure Statement where
  rewritten : Rewritten Arg
  classification : Classification
  metas : List Meta

/-- The plan of an execution. -/
structure Plan where
  statement : Statement
  execSQL : Bytes
  estimate : Estimate
  route : RouteDecision
  ceilings : Ceilings
  exceeded : Bool
  cacheKey : Bytes
  limitInjected : Bool
  dryRunForced : Bool

namespace Planner

variable (b : Planner)

/-- One table of the semantic auto-materialization: the identifiers seen and the
datasets. -/
def autoMaterialize (tenant : Uuid) (st : List Bytes × List Meta) (t : TableRef) :
    Except Error (List Bytes × List Meta) :=
  if t.schema = [] ∨ t.catalog ≠ [] ∨ t.schema ∉ b.autoMaterializeSchemas then .ok st
  else
    match b.resolve tenant t.name 0 with
    | .error e => if e.code = .datasetNotFound then .ok st else .error e
    | .ok m =>
      if m.physicalIdent ∈ st.1 then .ok st
      else .ok (m.physicalIdent :: st.1, st.2 ++ [m])

/-- The datasets with those that the auto-materialization adds. -/
def materialized (tenant : Uuid) (cls : Classification) (metas : List Meta) :
    Except Error (List Meta) :=
  if b.autoMaterializeSchemas = [] then .ok metas
  else
    (cls.tables.foldlM (b.autoMaterialize tenant) (metas.map (·.physicalIdent), metas)).map Prod.snd

/-- The dataset of a reference, with its key among the identifiers. -/
def resolveRef (tenant : Uuid) (ref : DatasetRef) : Except Error (Bytes × Meta) :=
  (b.resolve tenant ref.name ref.version).map fun m => (refKey ref.name ref.version, m)

/-- The configuration of the tenant guard. -/
def guardConfig (tenant : Uuid) (metas : List Meta) : GuardConfig where
  allowedNamespaces := metas.map (fun m => b.lower.toLower m.nspace) ++
    (b.extraNamespaces tenant).map b.lower.toLower
  infoSchemaTables := defaultInfoSchemaTables

/-- `buildPlan` up to the tenant guard. -/
def prepare (req : PlanRequest) : Except Error Statement := do
  req.checkStyle
  let bindings ← req.bindings
  let refs ← datasetRefs req.sqlText req.bindsMode
  let resolved ← refs.mapM (b.resolveRef req.tenant)
  let rw ← req.rewritten bindings fun key => (resolved.lookup key).map (·.physicalIdent)
  let cls ← classify b.lower b.pg rw.sql
  let metas ← b.materialized req.tenant cls (resolved.map Prod.snd)
  guard cls (b.guardConfig req.tenant metas)
  .ok ⟨rw, cls, metas⟩

/-- The limit that is put around a statement, if one is. -/
def injectedLimit (hasOuterLimit : Bool) (caller : CallerClass) (requested : Int) : Option Int :=
  if hasOuterLimit then none
  else
    let limit := if caller = .agent ∧ (requested ≤ 0 ∨ requested > 10000) then 10000 else requested
    if limit > 0 then some limit else none

/-- The statement as it is shipped to the engine. -/
def shipped (sql : Bytes) : Option Int → Bytes
  | none => sql
  | some limit => wrapWithLimit sql limit

/-- `buildPlan`. -/
def buildPlan (req : PlanRequest) : Except Error Plan := do
  let st ← b.prepare req
  let limit := injectedLimit st.classification.hasOuterLimit req.caller req.limit
  let estimate := b.estimate st.metas st.classification
  let estimate :=
    if estimate.partitionsPruned = [] ∧ st.metas ≠ [] then
      { estimate with partitionsPruned := bytes "0/0" }
    else estimate
  let limits ← b.tenantLimits req.tenant
  let ceilings := effectiveCeilings limits req.caller req.async
  let decision ← route {
    warehousePrimary := limits.any (·.warehousePrimary)
    estimatedScanBytes := estimate.scanBytes
    totalDatasetBytes := estimate.totalDatasetBytes
    dialectPortable := true
    engineHint := req.engineHint
    healthy := b.healthy }
  .ok {
    statement := st
    execSQL := shipped st.rewritten.sql limit
    estimate := estimate
    route := decision
    ceilings := ceilings
    exceeded := estimate.scanBytes > ceilings.maxScanBytes
    cacheKey := cacheKey b.sum256 req.tenant st.classification.fingerprint st.rewritten.args
      (st.metas.map fun m => pinText (m.pin b.lower))
    limitInjected := limit.isSome
    dryRunForced := req.caller = .agent }

end Planner

end Windrose.Query

/-
  Packs/Tenant.lean --- the objects of a tenant in Core, and what packctl's client does.

  Source: packs/packctl/client.py.

  Core is a list of objects.  Most kinds give an object an id of their own; the others are
  addressed by their key (`Kind.keyed`).  `creators` is a ghost: the packs whose `ensure_*`
  call reported the creation of the object.  The services answer every call.
-/
import Mathlib.Data.List.Basic

set_option autoImplicit false

namespace Windrose.Packs

/-- The kinds of components. -/
inductive Kind where
  | dispositions | caseFields | caseSchemas | displayLabels | guardrails | agentConfigs
  | evalSets | modelArchetypes | ontology | writeAdapters | connectionTemplates | roles
  | decisionModels | datasets | semanticModels | verifiedQueries | savedQueries | cases
  | pipelines | memories | dashboards
  /-- Not a component kind: the groups that `ensure_role` keeps next to the roles. -/
  | permissionGroups
  deriving DecidableEq

/-- The objects that are deleted by their key.  A permission group is looked up by its
name. -/
def Kind.keyed : Kind → Bool
  | .caseSchemas | .displayLabels | .guardrails | .agentConfigs | .modelArchetypes | .ontology
  | .permissionGroups => true
  | _ => false

/-- The kinds that are a value under a key, written with PUT. -/
def Kind.isSetting : Kind → Bool
  | .displayLabels | .guardrails | .agentConfigs => true
  | _ => false

/-- What an agent without a configuration reads as. -/
def Kind.default : Kind → Option String
  | .guardrails | .agentConfigs => some "\x7b\x7d"
  | _ => none

/-- The id of an object. -/
inductive Id where
  | uuid (n : Nat)
  | key (k : String)
  deriving DecidableEq

/-- What the installer reads of an object besides its key. -/
inductive Details where
  | plain
  | setting (value : String)
  | tags (tags : List String)
  /-- Of a dataset, when a version can be read. -/
  | columns (names : Option (List String))
  /-- A published semantic model, a frozen eval set. -/
  | ready (done : Bool)
  /-- The dataset of a case. -/
  | rowOf (dataset : Id)
  deriving DecidableEq

/-- An object of a tenant. -/
structure Obj where
  kind : Kind
  key : String
  uuid : Nat
  details : Details
  creators : List String
  deriving DecidableEq

def Obj.id (o : Obj) : Id := if o.kind.keyed then .key o.key else .uuid o.uuid

/-- The objects, and the next id that a service gives out. -/
structure Tenant where
  objects : List Obj
  next : Nat
  issued : ∀ o ∈ objects, o.uuid < next
  distinct : objects.Pairwise (·.uuid ≠ ·.uuid)

namespace Tenant

/-- The first object of a listing with the key. -/
def find (t : Tenant) (kind : Kind) (key : String) : Option Obj :=
  t.objects.find? fun o => o.kind = kind ∧ o.key = key

/-- `POST`. -/
def insert (t : Tenant) (kind : Kind) (key : String) (details : Details) (p : String) :
    Tenant where
  objects := t.objects ++ [⟨kind, key, t.next, details, [p]⟩]
  next := t.next + 1
  issued := by
    intro o ho
    rcases List.mem_append.mp ho with ho | ho
    · exact Nat.lt_succ_of_lt (t.issued o ho)
    · cases List.mem_singleton.mp ho
      exact Nat.lt_succ_self _
  distinct := by
    refine List.pairwise_append.mpr ⟨t.distinct, List.pairwise_singleton _ _, fun o ho o' ho' => ?_⟩
    cases List.mem_singleton.mp ho'
    exact Nat.ne_of_lt (t.issued o ho)

/-- The object of a setting, after a `PUT`. -/
def written (kind : Kind) (key : String) (details : Details) (p : String) (o : Obj) : Obj :=
  if o.kind = kind ∧ o.key = key then { o with details, creators := p :: o.creators } else o

theorem uuid_written (kind : Kind) (key : String) (details : Details) (p : String) (o : Obj) :
    (written kind key details p o).uuid = o.uuid := by
  rw [written]
  split <;> rfl

/-- `PUT` of a setting that is there. -/
def overwrite (t : Tenant) (kind : Kind) (key : String) (details : Details) (p : String) :
    Tenant where
  objects := t.objects.map (written kind key details p)
  next := t.next
  issued := by
    intro o' ho'
    obtain ⟨o, ho, rfl⟩ := List.mem_map.mp ho'
    rw [uuid_written]
    exact t.issued o ho
  distinct := by
    refine List.pairwise_map.mpr (t.distinct.imp fun h => ?_)
    rwa [uuid_written, uuid_written]

/-- `DELETE`, or the `PUT` of the default of an agent's setting. -/
def delete (t : Tenant) (x : Kind × Id) : Tenant where
  objects := t.objects.filter fun o => ¬ (o.kind, o.id) = x
  next := t.next
  issued := fun o ho => t.issued o (List.mem_filter.mp ho).1
  distinct := t.distinct.filter _

/-- A setting as it reads. -/
def setting (t : Tenant) (kind : Kind) (key : String) : Option String :=
  match t.find kind key with
  | some o =>
    match o.details with
    | .setting value => some value
    | _ => none
  | none => kind.default

end Tenant

/-! ## The client's calls -/

/-- What the ledger records. -/
inductive Action where
  | create | noop | failed | submitted | bind | reuse
  deriving DecidableEq

/-- What a call returns, with the first action that it records. -/
structure Answer where
  tenant : Tenant
  action : Action
  id : Option Id

/-- The entries of a component file, as the installer reads them. -/
structure Entry where
  /-- `identity`, of the kinds that refer to each other by it. -/
  identity : String := ""
  /-- `code`, `name`, `schema_key`, `entity_key`, `key`, `agent_key`, `dataset_key`,
  `archetype_key`, `row_pk`, `nl_text` or `content`. -/
  name : String
  /-- The value of a setting. -/
  value : String := ""
  /-- The value as its service keeps it: an envelope is clamped. -/
  stored : String := ""
  tags : List String := []
  /-- The dataset that a pipeline refers to. -/
  dataset : String := ""
  /-- The columns of the shipped seed file. -/
  file : Option (List String) := none
  requiredColumns : List String := []
  deriving DecidableEq

section Calls

variable (p : String)

/-- Look the key up in the listing, and `POST` when it is not there. -/
def ensureNamed (kind : Kind) (key : String) (details : Details) (t : Tenant) : Answer :=
  match t.find kind key with
  | some o => ⟨t, .noop, some o.id⟩
  | none => ⟨t.insert kind key details p, .create,
      some (Obj.id ⟨kind, key, t.next, details, [p]⟩)⟩

/-- A `POST` that answers 409 is looked up: the same. -/
def ensureDisposition (e : Entry) : Tenant → Answer := ensureNamed p .dispositions e.name .plain

/-- `ensure_case_field`. -/
def ensureCaseField (e : Entry) : Tenant → Answer := ensureNamed p .caseFields e.name .plain

/-- `ensure_case_schema`. -/
def ensureCaseSchema (e : Entry) : Tenant → Answer := ensureNamed p .caseSchemas e.name .plain

/-- `ensure_ontology_entity`. -/
def ensureOntologyEntity (e : Entry) : Tenant → Answer := ensureNamed p .ontology e.name .plain

/-- `ensure_write_adapter`. -/
def ensureWriteAdapter (e : Entry) : Tenant → Answer := ensureNamed p .writeAdapters e.name .plain

/-- `ensure_connection_template`. -/
def ensureConnectionTemplate (e : Entry) : Tenant → Answer :=
  ensureNamed p .connectionTemplates e.name .plain

/-- `ensure_archetype`. -/
def ensureArchetype (e : Entry) : Tenant → Answer := ensureNamed p .modelArchetypes e.name .plain

/-- `ensure_decision_model`. -/
def ensureDecisionModel (e : Entry) : Tenant → Answer := ensureNamed p .decisionModels e.name .plain

/-- `ensure_saved_query`. -/
def ensureSavedQuery (e : Entry) : Tenant → Answer := ensureNamed p .savedQueries e.name .plain

/-- `ensure_pipeline`. -/
def ensurePipeline (e : Entry) : Tenant → Answer := ensureNamed p .pipelines e.name .plain

/-- The charts of the dashboard are part of it. -/
def ensureDashboard (e : Entry) : Tenant → Answer := ensureNamed p .dashboards e.name .plain

/-- The role, and a permission group of the same name, of which nothing is recorded. -/
def ensureRole (e : Entry) (t : Tenant) : Answer :=
  let role := ensureNamed p .roles e.name .plain t
  ⟨(ensureNamed p .permissionGroups e.name .plain role.tenant).tenant, role.action, role.id⟩

/-- A setting that reads as the wanted value is left, any other is overwritten. -/
def ensureSetting (kind : Kind) (e : Entry) (t : Tenant) : Answer :=
  if t.setting kind e.name = some e.value then ⟨t, .noop, some (.key e.name)⟩
  else match t.find kind e.name with
    | some _ => ⟨t.overwrite kind e.name (.setting e.stored) p, .create, some (.key e.name)⟩
    | none => ⟨t.insert kind e.name (.setting e.stored) p, .create, some (.key e.name)⟩

/-- `ensure_label`. -/
def ensureLabel (e : Entry) : Tenant → Answer := ensureSetting p .displayLabels e

/-- `ensure_guardrail`. -/
def ensureGuardrail (e : Entry) : Tenant → Answer := ensureSetting p .guardrails e

/-- `ensure_agent_config`. -/
def ensureAgentConfig (e : Entry) : Tenant → Answer := ensureSetting p .agentConfigs e

/-- Only a frozen set counts as there; a new one is frozen at the end of the call. -/
def ensureEvalSet (e : Entry) (t : Tenant) : Answer :=
  match t.objects.find? fun o => o.kind = .evalSets ∧ o.key = e.name ∧ o.details = .ready true with
  | some _ => ⟨t, .noop, some (.key e.name)⟩
  | none => ⟨t.insert .evalSets e.name (.ready true) p, .create, some (.key e.name)⟩

/-- A dataset with a seed file is uploaded under a stable name. -/
def ensureDataset (e : Entry) (t : Tenant) : Answer :=
  ensureNamed p .datasets e.name (.columns e.file) t

/-- Does the dataset expose the required columns? -/
def exposes (required : List String) (o : Obj) : Bool :=
  required.isEmpty || match o.details with
    | .columns (some names) => required.all (· ∈ names)
    | _ => false

/-- The dataset of an explicit binding, or the one with the name. -/
def boundTo (e : Entry) (explicit : Option Id) (t : Tenant) : Option Obj :=
  match explicit with
  | some id => t.objects.find? fun o => o.kind = .datasets ∧ o.id = id
  | none => t.find .datasets e.name

/-- A dataset without a seed file is bound to one of the tenant's.  Nothing is created. -/
def bindDataset (e : Entry) (explicit : Option Id) (t : Tenant) : Answer :=
  match boundTo e explicit t with
  | none => ⟨t, .failed, none⟩
  | some o =>
    if exposes e.requiredColumns o then
      ⟨t, if explicit.isSome then .bind else .reuse, some o.id⟩
    else ⟨t, .failed, none⟩

/-- `content[:120]`. -/
def head120 (content : String) : List Char := content.toList.take 120

/-- A memory with the tag of the pack and the same beginning. -/
def isMemory (tag content : String) (o : Obj) : Bool :=
  o.kind = .memories && head120 o.key = head120 content &&
    match o.details with
    | .tags tags => tag ∈ tags
    | _ => false

/-- The records that are not in the listing `listed` are written; their ids come back. -/
def ensureMemories (tag : String) (listed : List Obj) : List Entry → Tenant → Tenant × List Id
  | [], t => (t, [])
  | e :: es, t =>
    if listed.any (isMemory tag e.name) then ensureMemories tag listed es t
    else
      let (t', ids) := ensureMemories tag listed es
        (t.insert .memories e.name (.tags (tag :: e.tags)) p)
      (t', .uuid t.next :: ids)

/-- One open case for each row without one, of whatever dataset (`case_exists_for_row`). -/
def createCases (dataset : Id) : List Entry → Tenant → Tenant × Bool
  | [], t => (t, false)
  | e :: es, t =>
    if (t.find .cases e.name).isSome then createCases dataset es t
    else ((createCases dataset es (t.insert .cases e.name (.rowOf dataset) p)).1, true)

end Calls

end Windrose.Packs

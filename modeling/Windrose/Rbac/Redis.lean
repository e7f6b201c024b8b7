/-
  Rbac/Redis.lean --- the projection in Redis and its reader.

  Source: services/rbac-service/internal/projection/keys.go, redis.go (the JSON
  values) and reader.go (RedisReader).

  A store maps key texts to the JSON values the writer writes.  Reading a value is
  `json.Unmarshal` into the struct of the reader: a field that the value does not
  have reads as empty, and a field of another JSON type makes the read a miss.
  The `computed_at` of a value is read by nothing and left out, and so is the
  refresh of keys that are about to expire, which changes no value.
-/
import Windrose.Rbac.Decide

set_option autoImplicit false

namespace Windrose.Rbac

open Windrose.Foundation

/-! ## Keys -/

/-- `KeyActions`. -/
def keyActions (tenant user : Bytes) : Bytes :=
  bytes "perm:" ++ tenant ++ bytes ":" ++ user ++ bytes ":actions"

/-- `KeyWorkspace`. -/
def keyWorkspace (tenant user ws : Bytes) : Bytes :=
  bytes "perm:" ++ tenant ++ bytes ":" ++ user ++ bytes ":ws:" ++ ws

/-- `KeyResource`. -/
def keyResource (tenant user urnHash : Bytes) : Bytes :=
  bytes "perm:" ++ tenant ++ bytes ":" ++ user ++ bytes ":res:" ++ urnHash

/-- `KeyFlags`. -/
def keyFlags (tenant user : Bytes) : Bytes :=
  bytes "perm:" ++ tenant ++ bytes ":" ++ user ++ bytes ":flags"

/-- `KeyIndex`. -/
def keyIndex (tenant user : Bytes) : Bytes :=
  bytes "perm:" ++ tenant ++ bytes ":" ++ user ++ bytes ":index"

/-- `KeyArchivedWs`. -/
def keyArchivedWs (tenant : Bytes) : Bytes := bytes "perm:" ++ tenant ++ bytes ":archived_ws"

/-- `KeyTenantMeta`. -/
def keyTenantMeta (tenant : Bytes) : Bytes := bytes "perm:" ++ tenant ++ bytes ":meta"

/-- `CatalogKey`. -/
def catalogKey : Bytes := bytes "perm:catalog:actions"

/-! ## Values -/

/-- `PyFacts`, and the projection slice of a request: what the input-projection
policy evaluates. -/
structure Projection where
  actionKnown : Bool
  actionScoped : Bool
  autonomousEnabled : Bool
  flagsFound : Bool
  admin : Bool
  wsAdmin : List Bytes
  tenantFound : Bool
  tenantActions : List Bytes
  assigned : Bool
  wsActions : List Bytes
  wsArchived : Bool
  resourceFound : Bool
  level : GrantLevel
  resourceArchived : Bool
  workspaceArchivedTenant : Bool
  deriving DecidableEq

/-- The values the writer writes, each with the version `v` of its snapshot; the
`ws_admin` of flags are the canonical texts of ids. -/
inductive Value where
  | actions (v : Int) (actions : List Bytes)
  | ws (v : Int) (entry : WorkspaceEntry)
  | res (v : Int) (entry : ResourceEntry)
  | tombstone (v : Int)
  | flags (v : Int) (flags : Flags)
  | index (v : Int) (keys : List Bytes)
  | archivedWs (v : Int) (workspaces : List Bytes)
  | catalog (v : Int) (actions : GoMap Bytes Bool)
  | tenantMeta (autonomousEnabled : Bool)
  | py (v : Int) (facts : Projection)

/-- The keys that are set, with their values. -/
abbrev Store : Type := Bytes → Option Value

namespace Value

/-- The field `actions` as a list of strings; an object there is an error. -/
def actionList : Value → Option (List Bytes)
  | actions _ as => some as
  | ws _ e => some e.actions
  | catalog _ _ => none
  | _ => some []

/-- The field `actions` as an object; a list there is an error. -/
def actionMap : Value → Option (GoMap Bytes Bool)
  | catalog _ m => some m
  | actions _ _ => none
  | ws _ _ => none
  | _ => some ∅

/-- The field `archived`. -/
def archived : Value → Bool
  | ws _ e => e.archived
  | res _ e => e.archived
  | _ => false

/-- The field `deleted`: the tombstone marker. -/
def deleted : Value → Bool
  | tombstone _ => true
  | _ => false

/-- The fields of a `ResourceEntry`. -/
def resource (val : Value) : ResourceEntry :=
  match val with
  | res _ e => e
  | _ => ⟨[], .other [], [], val.archived⟩

/-- The field `admin`. -/
def admin : Value → Bool
  | flags _ f => f.admin
  | _ => false

/-- The field `ws_admin`. -/
def wsAdmin : Value → List Bytes
  | flags _ f => f.wsAdmin.map (·.text)
  | _ => []

/-- The field `roles`. -/
def roles : Value → List Bytes
  | flags _ f => f.roles
  | _ => []

/-- The field `ws` of the archived set. -/
def workspaces : Value → List Bytes
  | archivedWs _ ids => ids
  | _ => []

/-- The field `keys` of an index. -/
def keys : Value → List Bytes
  | index _ ks => ks
  | _ => []

/-- The field `autonomous_enabled`. -/
def autonomousEnabled : Value → Bool
  | tenantMeta b => b
  | py _ f => f.autonomousEnabled
  | _ => false

/-- The field `v`, the version of the snapshot; the tenant's flags have none. -/
def version : Value → Option Int
  | actions v _ => some v
  | ws v _ => some v
  | res v _ => some v
  | tombstone v => some v
  | flags v _ => some v
  | index v _ => some v
  | archivedWs v _ => some v
  | catalog v _ => some v
  | tenantMeta _ => none
  | py v _ => some v

/-- The flags the reader builds: the administered workspaces whose id parses. -/
def userFlags (env : Ext) (val : Value) : Flags where
  admin := val.admin
  wsAdmin := val.wsAdmin.filterMap env.parse
  roles := val.roles

end Value

/-! ## The reader -/

/-- A subsidiary value that is there and no tombstone. -/
def live (val : Option Value) : Option Value := val.filter fun v => !v.deleted

/-- `RedisReader` over the keys that are set. -/
def redisReader (env : Ext) (store : Store) : Reader Id where
  tenantActions tenant user := (store (keyActions tenant user)).bind (·.actionList)
  workspace tenant user workspaceID :=
    (live (store (keyWorkspace tenant user workspaceID))).bind fun v =>
      v.actionList.map fun as => ⟨as, v.archived⟩
  resource tenant user urnHash := (live (store (keyResource tenant user urnHash))).map (·.resource)
  userFlags tenant user := (store (keyFlags tenant user)).map (·.userFlags env)
  archivedWorkspaces tenant := fun w =>
    (store (keyArchivedWs tenant)).any fun v => v.workspaces.any (· = w)
  actionScoped action := (store catalogKey).bind fun v => v.actionMap.bind (·.lookup action)
  autonomousEnabled tenant := (store (keyTenantMeta tenant)).any (·.autonomousEnabled)

end Windrose.Rbac

/-
  Cases/Triggers.lean --- the cases that a trigger makes of the rows of a dataset.

  Source: services/case-service/internal/triggers/applier.go (BrowseRows, applyOne),
  internal/domain/types.go (TruncateProjection, DedupKey), internal/domain/trigger.go,
  internal/store/pg_cases.go (CreateCases, nextCaseNumber) and
  migrations/000001_init.up.sql.

  A page is what dataset-service answers with, its numbers by their text and its body by
  its length; the client reads the numbers as doubles.  The digest and `pg_column_size` are parameters.  The tables are
  those of the tenant; the timeline and the outbox, where one row goes with each new
  case, and the firing time of the trigger are left out.
-/
import Windrose.Foundation.JsonTree
import Windrose.Foundation.Digest
import Windrose.Foundation.Lexer
import Windrose.Foundation.NumberText
import Windrose.Cases.Timers

set_option autoImplicit false

namespace Windrose.Cases

open Windrose.Foundation

/-! ## Rows -/

/-- `RowsPage`, with its numbers as they are written or as they were read, and the length of
the body that it came in. -/
structure RowsPage (ν : Type) where
  columns : List Bytes
  rows : List (List (JsonTree ν))
  bodyLength : Nat

/-- What `BrowseRows` reads of a body. -/
def maxBodyLength : Nat := 8 <<< 20

/-- What `BrowseRows` decodes; a number out of range fails the page, and so does a body that
is longer than what is read of it, since its value is cut off. -/
def RowsPage.decode (page : RowsPage Number) : Option (RowsPage Double) :=
  if page.bodyLength ≤ maxBodyLength then
    (page.rows.mapM (List.mapM (JsonTree.traverse fun n => parseFloat n.text))).map
      (⟨page.columns, ·, page.bodyLength⟩)
  else none

/-- A map as it is printed or stored: of two entries under one key the later stays, and
they are in the order of their keys. -/
def sortedEntries (entries : List (Bytes × Bytes)) : Table Bytes Bytes :=
  (entries.foldl (fun t e => Table.upsert e.1 e.2 (fun _ => e.2) t) []).insertionSort
    (·.1 ≤ ·.1)

/-- Texts with a blank between them. -/
def blanks (ts : List Bytes) : Bytes := (ts.intersperse [32]).flatten

mutual

/-- `%v`. -/
def verbText : JsonTree Double → Bytes
  | .null => bytes "<nil>"
  | .bool b => if b then bytes "true" else bytes "false"
  | .num x => goVerb x
  | .str s => bytes s
  | .arr vs => 91 :: (blanks (verbItems vs) ++ [93])
  | .obj fs =>
    bytes "map[" ++ blanks ((sortedEntries (verbFields fs)).map fun e => e.1 ++ 58 :: e.2) ++
      [93]

def verbItems : List (JsonTree Double) → List Bytes
  | [] => []
  | v :: vs => verbText v :: verbItems vs

def verbFields : List (String × JsonTree Double) → List (Bytes × Bytes)
  | [] => []
  | (k, v) :: fs => (bytes k, verbText v) :: verbFields fs

end

def cellStr : JsonTree Double → Bytes
  | .null => []
  | v => verbText v

/-! ## Identity and projection -/

section

variable (sha256 : Bytes → Bytes)

/-- `DedupKey`. -/
def dedupKey (datasetURN rowPK : Bytes) : Option Bytes :=
  if datasetURN = [] ∨ rowPK = [] then none
  else some (bytes "sha256:" ++ hexEncode (sha256 (datasetURN ++ 0 :: rowPK)))

end

/-- `MaxProjectionCols`. -/
def maxProjectionCols : Nat := 12
/-- `MaxProjectionColLen`. -/
def maxProjectionColLen : Nat := 256

/-- `TruncateProjection`, of a map in the order of its keys. -/
def truncateProjection (entries : Table Bytes Bytes) : Table Bytes Bytes × Bool :=
  let kept := entries.take maxProjectionCols
  (kept.map fun e =>
      if maxProjectionColLen < e.2.length then
        (e.1, e.2.take (maxProjectionColLen - 1) ++ bytes "…")
      else e,
    decide (maxProjectionCols < entries.length) || kept.any (maxProjectionColLen < ·.2.length))

/-! ## CreateCases -/

/-- A case to be created, under a new id; `display_projection` is stored with it. -/
structure Draft extends NewCase where
  id : Uuid
  createdByID : Bytes
  displayProjection : Table Bytes Bytes
  projectionTruncated : Bool

/-- The tables that `CreateCases` reads and writes. -/
structure Desk where
  store : Store
  sequences : Table Uuid Nat

/-- How `createCases` fails. -/
inductive CreateError where
  | caseLimit
  | refused
  deriving DecidableEq

namespace Desk

/-- What PostgreSQL stores: no text with a zero byte, and a projection of the allowed
size. -/
def Storable (columnSize : Table Bytes Bytes → Nat) (datasetURN rowPK createdByID : Bytes)
    (projection : Table Bytes Bytes) : Prop :=
  0 ∉ datasetURN ∧ 0 ∉ rowPK ∧ 0 ∉ createdByID ∧
    (∀ e ∈ projection, 0 ∉ e.1 ∧ 0 ∉ e.2) ∧ columnSize projection ≤ 4096

instance (columnSize : Table Bytes Bytes → Nat) (datasetURN rowPK createdByID : Bytes)
    (projection : Table Bytes Bytes) :
    Decidable (Storable columnSize datasetURN rowPK createdByID projection) :=
  inferInstanceAs (Decidable (_ ∧ _ ∧ _ ∧ _ ∧ _))

/-- A case that PostgreSQL stores. -/
def StorableCase (columnSize : Table Bytes Bytes → Nat) (c : Draft) : Prop :=
  Storable columnSize c.datasetURN c.rowPK c.createdByID c.displayProjection

instance (columnSize : Table Bytes Bytes → Nat) (c : Draft) :
    Decidable (StorableCase columnSize c) :=
  inferInstanceAs (Decidable (Storable ..))

/-- The open case with a dedup key. -/
def openCase (d : Desk) (key : Bytes) : Option (Uuid × Case) :=
  d.store.cases.find? fun row => row.2.dedupKey = some key ∧ row.2.status ≠ .closed

/-- The last case with a dedup key that was closed. -/
def priorCase (d : Desk) (key : Bytes) : Option Uuid :=
  (((d.store.cases.filter fun row => row.2.dedupKey = some key ∧
    row.2.status = .closed).insertionSort
    (·.2.createdAt ≥ ·.2.createdAt)).head?).map (·.1)

/-- `nextCaseNumber`. -/
def nextCaseNumber (d : Desk) (ws : Uuid) : Nat := (d.sequences.find ws).elim 1 (· + 1)

variable (columnSize : Table Bytes Bytes → Nat)

/-- A case without an open one of its key is inserted. -/
def insert (d : Desk) (ws : Uuid) (c : Draft) (warnBefore : Int) : Except CreateError Desk :=
  let number := d.nextCaseNumber ws
  let c := { c with caseNumber := number, recurrenceOf := c.dedupKey.bind d.priorCase }
  if StorableCase columnSize c ∧ (d.store.cases.find c.id).isNone then
    .ok {
      store := d.store.insertCase c.id c.toNewCase warnBefore
      sequences := d.sequences.upsert ws number fun _ => number }
  else .error .refused

/-- One case of `CreateCases`, and the case it was merged with. -/
def createOne (ws : Uuid) (queryURN : Bytes) (warnBefore : Int) (d : Desk) (c : Draft) :
    Except CreateError (Desk × Option Uuid) :=
  match c.dedupKey.bind d.openCase with
  | some (id, existing) =>
    if queryURN ≠ [] ∧ queryURN ∉ existing.sourceQueryURNs then
      let merged := { existing with sourceQueryURNs := existing.sourceQueryURNs ++ [queryURN] }
      .ok ({ d with store := { d.store with
        cases := d.store.cases.upsert id merged fun _ => merged } }, some id)
    else .ok (d, some id)
  | none => (d.insert columnSize ws c warnBefore).map (·, none)

/-- The loop of `CreateCases`: what was created and what was merged. -/
def createLoop (ws : Uuid) (queryURN : Bytes) (warnBefore : Int) (d : Desk) :
    List Draft → Except CreateError (Desk × List Uuid × List Uuid)
  | [] => .ok (d, [], [])
  | c :: cs => do
      let (d, merged) ← d.createOne columnSize ws queryURN warnBefore c
      let (d, created, deduped) ← d.createLoop ws queryURN warnBefore cs
      match merged with
      | none => .ok (d, c.id :: created, deduped)
      | some id => .ok (d, created, id :: deduped)

/-- `CreateCases`. -/
def createCases (d : Desk) (cases : List Draft) (queryURN : Bytes) (warnBefore : Int) :
    Except CreateError (Desk × List Uuid × List Uuid) :=
  match cases with
  | [] => .ok (d, [], [])
  | c :: _ =>
    let ws := c.workspaceID
    let openCount := d.store.cases.countP fun row => row.2.workspaceID = ws ∧ row.2.status ≠ .closed
    if 10000 < openCount + cases.length then .error .caseLimit
    else d.createLoop columnSize ws queryURN warnBefore cases

end Desk

/-! ## What the loop does -/

namespace Desk

section Loop

variable {columnSize : Table Bytes Bytes → Nat} {ws : Uuid} {queryURN : Bytes} {warnBefore : Int}
  {d d' : Desk} {c : Draft} {cs : List Draft}

/-- What is asked of a row of the cases. -/
def facts (row : Uuid × Case) : Bytes × Option Bytes × Status :=
  (row.2.rowPK, row.2.dedupKey, row.2.status)

variable (columnSize ws warnBefore) in
theorem insert_eq (hnew : d.store.cases.find c.id = none) : if StorableCase columnSize c then
      ∃ d', d.insert columnSize ws c warnBefore = .ok d' ∧ ∃ new : Case,
        d'.store.cases = d.store.cases ++ [(c.id, new)] ∧ facts (c.id, new) = facts (c.id, c.toCase)
    else d.insert columnSize ws c warnBefore = .error .refused := by
  rw [insert]
  have hnone : (d.store.cases.find c.id).isNone = true := by rw [hnew]; rfl
  by_cases hst : StorableCase columnSize c
  · rw [if_pos hst]
    refine ⟨_, if_pos ⟨hst, hnone⟩, { c.toCase with
      caseNumber := d.nextCaseNumber ws
      recurrenceOf := c.dedupKey.bind d.priorCase }, ?_, rfl⟩
    rw [Store.insertCase, if_pos hnone]
    exact Table.upsert_eq_append hnew
  · rw [if_neg hst]
    exact if_neg fun h => hst h.1

theorem openCase_eq_none {key : Bytes} (h : ∀ row ∈ d.store.cases, row.2.dedupKey ≠ some key) :
    d.openCase key = none := by
  rw [openCase, List.find?_eq_none]
  intro row hrow
  simp [h row hrow]

variable (ws queryURN warnBefore) in
/-- Cases with ids and keys of their own, that PostgreSQL stores, are all created. -/
theorem createLoop_fresh (hst : ∀ c ∈ cs, StorableCase columnSize c) (hids : (cs.map (·.id)).Nodup)
    (hkeys : (cs.map (·.dedupKey)).Nodup) (hnew : ∀ c ∈ cs, d.store.cases.find c.id = none)
    (hfresh : ∀ c ∈ cs, ∀ row ∈ d.store.cases, row.2.dedupKey ≠ c.dedupKey) :
    ∃ d', d.createLoop columnSize ws queryURN warnBefore cs = .ok (d', cs.map (·.id), []) ∧
      d'.store.cases.map facts = d.store.cases.map facts ++ cs.map fun c =>
        facts (c.id, c.toCase) := by
  induction cs generalizing d with
  | nil => exact ⟨d, rfl, (List.append_nil _).symm⟩
  | cons c cs ih =>
    obtain ⟨hstc, hst⟩ := List.forall_mem_cons.mp hst
    obtain ⟨hidc, hids⟩ := List.nodup_cons.mp hids
    obtain ⟨hkeyc, hkeys⟩ := List.nodup_cons.mp hkeys
    obtain ⟨hnewc, hnew⟩ := List.forall_mem_cons.mp hnew
    obtain ⟨hfreshc, hfresh⟩ := List.forall_mem_cons.mp hfresh
    have hinsert := insert_eq columnSize ws warnBefore hnewc
    rw [if_pos hstc] at hinsert
    obtain ⟨d₁, hd₁, new, hcases, hfacts⟩ := hinsert
    have hopen : c.dedupKey.bind d.openCase = none := by
      cases hkey : c.dedupKey with
      | none => rfl
      | some key => exact openCase_eq_none fun row hrow => hkey ▸ hfreshc row hrow
    have hone : d.createOne columnSize ws queryURN warnBefore c = .ok (d₁, none) := by
      rw [createOne, hopen]
      exact congrArg (Except.map _) hd₁
    have hnewkey : new.dedupKey = c.dedupKey := congrArg (·.2.1) hfacts
    obtain ⟨d', hd', hcases'⟩ := ih hst hids hkeys
      (fun c' hc' => by
        rw [hcases, Table.find_append, hnew c' hc']
        have hne : c.id ≠ c'.id := fun h => hidc (List.mem_map.mpr ⟨c', hc', h.symm⟩)
        exact if_neg hne)
      (fun c' hc' row hrow => by
        rw [hcases] at hrow
        rcases List.mem_append.mp hrow with hrow | hrow
        · exact hfresh c' hc' row hrow
        · cases List.mem_singleton.mp hrow
          exact fun h => hkeyc (List.mem_map.mpr ⟨c', hc', h.symm.trans hnewkey⟩))
    refine ⟨d', ?_, ?_⟩
    · rw [createLoop, hone]
      exact congrArg (fun r => do
        let (d, created, deduped) ← r
        Except.ok (d, c.id :: created, deduped)) hd'
    · rw [hcases', hcases, List.map_append, List.append_assoc]
      exact congrArg (d.store.cases.map facts ++ · :: _) hfacts

theorem createOne_ok {merged : Option Uuid}
    (h : d.createOne columnSize ws [] warnBefore c = .ok (d', merged)) :
    d'.store.cases.length ≤ d.store.cases.length + 1 ∧
      (d'.store.cases.length = d.store.cases.length + 1 → StorableCase columnSize c ∧
        d'.store.cases.map (·.2.rowPK) = d.store.cases.map (·.2.rowPK) ++ [c.rowPK]) := by
  rw [createOne] at h
  split at h
  · rw [if_neg (fun h => h.1 rfl)] at h
    cases h
    exact ⟨Nat.le_succ _, fun h => absurd h (Nat.ne_of_lt (Nat.lt_succ_self _))⟩
  · obtain ⟨d₁, hinsert, h⟩ := bind_eq_ok.mp h
    cases h
    have hnew : d.store.cases.find c.id = none := by
      rw [insert] at hinsert
      split at hinsert
      · next hok => exact Option.isNone_iff_eq_none.mp hok.2
      · cases hinsert
    have heq := insert_eq columnSize ws warnBefore hnew
    split at heq
    · next hst =>
      obtain ⟨d₂, hd₂, new, hcases, hfacts⟩ := heq
      cases hinsert.symm.trans hd₂
      rw [hcases]
      refine ⟨by simp, fun _ => ⟨hst, ?_⟩⟩
      rw [List.map_append]
      exact congrArg (_ ++ [·]) (congrArg (·.1) hfacts)
    · cases hinsert.symm.trans heq

variable {created deduped : List Uuid}

theorem createLoop_ok
    (h : d.createLoop columnSize ws [] warnBefore cs = .ok (d', created, deduped)) :
    d'.store.cases.length ≤ d.store.cases.length + cs.length ∧
      (d'.store.cases.length = d.store.cases.length + cs.length →
        (∀ c ∈ cs, StorableCase columnSize c) ∧ d'.store.cases.map (·.2.rowPK) =
          d.store.cases.map (·.2.rowPK) ++ cs.map (·.rowPK)) := by
  induction cs generalizing d created deduped with
  | nil =>
    cases h
    exact ⟨le_rfl, fun _ => ⟨List.forall_mem_nil _, (List.append_nil _).symm⟩⟩
  | cons c cs ih =>
    rw [createLoop] at h
    obtain ⟨⟨d₁, merged⟩, hone, h⟩ := bind_eq_ok.mp h
    obtain ⟨⟨d₂, created₂, deduped₂⟩, hrest, h⟩ := bind_eq_ok.mp h
    have hd : d₂ = d' := by cases merged <;> cases h <;> rfl
    subst hd
    obtain ⟨hle₁, hone⟩ := createOne_ok hone
    obtain ⟨hle₂, hrest⟩ := ih hrest
    rw [List.length_cons]
    refine ⟨by omega, fun hlen => ?_⟩
    obtain ⟨hst, hrows⟩ := hone (by omega)
    obtain ⟨hsts, hrows'⟩ := hrest (by omega)
    exact ⟨List.forall_mem_cons.mpr ⟨hst, hsts⟩, by rw [hrows', hrows]; simp⟩

variable (columnSize ws warnBefore) in
theorem createLoop_again (h : ∀ c ∈ cs, (c.dedupKey.bind d.openCase).isSome) :
    ∃ deduped, d.createLoop columnSize ws [] warnBefore cs = .ok (d, [], deduped) := by
  induction cs with
  | nil => exact ⟨[], rfl⟩
  | cons c cs ih =>
    obtain ⟨hc, hcs⟩ := List.forall_mem_cons.mp h
    obtain ⟨⟨id, existing⟩, hopen⟩ := Option.isSome_iff_exists.mp hc
    obtain ⟨deduped, hd⟩ := ih hcs
    refine ⟨id :: deduped, ?_⟩
    rw [createLoop, createOne, hopen]
    change (do let (d, created, deduped) ← d.createLoop columnSize ws [] warnBefore cs; _) = _
    rw [hd]
    rfl

variable (hempty : d.store.cases = [])
include hempty

variable (queryURN warnBefore) in
theorem createCases_fresh (hfew : cs.length ≤ 10000) (hst : ∀ c ∈ cs, StorableCase columnSize c)
    (hids : (cs.map (·.id)).Nodup) (hkeys : (cs.map (·.dedupKey)).Nodup) :
    ∃ d', d.createCases columnSize cs queryURN warnBefore = .ok (d', cs.map (·.id), []) ∧
      d'.store.cases.map facts = cs.map fun c => facts (c.id, c.toCase) := by
  have hloop (ws : Uuid) := createLoop_fresh ws queryURN warnBefore (d := d) hst hids hkeys
    (fun c _ => by rw [hempty]; rfl) (fun c _ row hrow => by rw [hempty] at hrow; cases hrow)
  rw [hempty] at hloop
  cases cs with
  | nil => exact ⟨d, rfl, congrArg _ hempty⟩
  | cons c cs =>
    have hopen : ¬ 10000 < d.store.cases.countP (fun row => row.2.workspaceID = c.workspaceID ∧
        row.2.status ≠ .closed) + (c :: cs).length := by
      rw [hempty, List.countP_nil, Nat.zero_add, Nat.not_lt]
      exact hfew
    rw [createCases, if_neg hopen]
    exact hloop c.workspaceID

theorem createCases_ok (h : d.createCases columnSize cs [] warnBefore = .ok (d', created, deduped))
    (hlen : cs.length ≤ d'.store.cases.length) :
    cs.length ≤ 10000 ∧ d'.store.cases.length = cs.length ∧ (∀ c ∈ cs, StorableCase columnSize c) ∧
      d'.store.cases.map (·.2.rowPK) = cs.map (·.rowPK) := by
  cases cs with
  | nil =>
    cases h
    rw [hempty]
    exact ⟨Nat.zero_le _, rfl, List.forall_mem_nil _, rfl⟩
  | cons c cs =>
    rw [createCases] at h
    split at h
    · cases h
    · next hfew =>
      obtain ⟨hle, hall⟩ := createLoop_ok h
      rw [hempty, List.countP_nil, Nat.zero_add] at hfew
      rw [hempty, List.length_nil, Nat.zero_add] at hle hall
      have heq := hle.antisymm hlen
      obtain ⟨hst, hrows⟩ := hall heq
      exact ⟨Nat.not_lt.mp hfew, heq, hst, hrows⟩

omit hempty in
theorem createCases_again (h : ∀ c ∈ cs, (c.dedupKey.bind d.openCase).isSome)
    (hok : d.createCases columnSize cs [] warnBefore = .ok (d', created, deduped)) : d' = d := by
  cases cs with
  | nil => cases hok; rfl
  | cons c cs =>
    rw [createCases] at hok
    split at hok
    · cases hok
    · obtain ⟨_, hagain⟩ := createLoop_again columnSize c.workspaceID warnBefore h
      cases hok.symm.trans hagain
      rfl

end Loop

end Desk

/-! ## applyOne -/

/-- `CaseTrigger`, as far as it is applied. -/
structure CaseTrigger where
  workspaceID : Uuid
  name : Bytes
  rowPKField : Bytes
  severity : Severity
  dueHours : Nat
  projectionFields : List Bytes

/-- The last column of a name. -/
def colIdx (columns : List Bytes) (col : Bytes) : Option Nat :=
  ((columns.zipIdx.filter (·.1 = col)).getLast?).map (·.2)

namespace CaseTrigger

variable {ν : Type} (t : CaseTrigger)

/-- The column of the primary key. -/
def pkIdx (columns : List Bytes) : Option Nat :=
  if t.rowPKField = [] then some 0 else colIdx columns t.rowPKField

/-- The projection of a row. -/
def projection (columns : List Bytes) (row : List (JsonTree Double)) : Table Bytes Bytes :=
  let projCols := if t.projectionFields = [] then columns else t.projectionFields
  sortedEntries (projCols.filterMap fun c =>
    (colIdx columns c).bind fun i => row[i]?.map fun v => (c, cellStr v))

def hourMicros : Int := 3600 * 1000000

/-- The case of a row with a primary key. -/
def draft (sha256 : Bytes → Bytes) (datasetURN : Bytes) (now : Instant) (columns : List Bytes)
    (id : Uuid) (row : List (JsonTree Double)) (rowPK : Bytes) : Draft where
  id := id
  workspaceID := t.workspaceID
  caseNumber := 0
  status := .unassigned
  severity := t.severity
  assignedToID := none
  assignedToAt := none
  datasetURN := datasetURN
  rowPK := rowPK
  dedupKey := dedupKey sha256 datasetURN rowPK
  sourceQueryURNs := []
  dueDate := now + t.dueHours * hourMicros
  dispositionID := none
  resolutionNote := []
  resolvedAt := none
  closedAt := none
  snapshotRef := []
  recurrenceOf := none
  reassignCount := 0
  caseVersion := 1
  createdAt := now
  assignee_status := Case.unassigned_iff
  begun := .inr rfl
  createdByID := bytes "trigger/" ++ t.name
  displayProjection := (truncateProjection (t.projection columns row)).1
  projectionTruncated := (truncateProjection (t.projection columns row)).2

/-- The primary key of a row, if it has one. -/
def rowPK (pkIdx : Nat) (row : List (JsonTree Double)) : Option Bytes :=
  (row[pkIdx]?.map cellStr).filter (· ≠ [])

/-- The cases of the rows, each with an id that is new; a row without a primary key is
skipped. -/
def drafts (sha256 : Bytes → Bytes) (datasetURN : Bytes) (now : Instant) (columns : List Bytes)
    (pkIdx : Nat) (ids : List Uuid) (rows : List (List (JsonTree Double))) : List Draft :=
  (rows.zip ids).filterMap fun rowID =>
    (rowPK pkIdx rowID.1).map (t.draft sha256 datasetURN now columns rowID.2 rowID.1)

/-- How a trigger fails. -/
inductive ApplyError where
  | decode
  | create (e : CreateError)
  deriving DecidableEq

/-- The warning of a case that a trigger makes is a day before its due date. -/
def warnBefore : Int := 24 * hourMicros

/-- `applyOne`, with the answer of dataset-service. -/
def applyOne (sha256 : Bytes → Bytes) (columnSize : Table Bytes Bytes → Nat) (datasetURN : Bytes)
    (page : RowsPage Number) (now : Instant) (ids : List Uuid) (d : Desk) :
      Except ApplyError Desk :=
  match page.decode with
  | none => .error .decode
  | some page =>
    match t.pkIdx page.columns with
    | none => .ok d
    | some pkIdx =>
      match d.createCases columnSize (t.drafts sha256 datasetURN now page.columns pkIdx ids
        page.rows)
          [] warnBefore with
      | .error e => .error (.create e)
      | .ok (d, _, _) => .ok d

/-! ## Cells -/

/-- The text of a cell. -/
def ownText : JsonTree Number → Bytes
  | .str s => bytes s
  | .bool b => if b then bytes "true" else bytes "false"
  | .num n => n.text
  | .null | .arr _ | .obj _ => []

/-- Cells of one type: texts, booleans or whole numbers. -/
inductive OneType (cells : List (JsonTree Number)) : Prop where
  | str (h : ∀ c ∈ cells, ∃ s, c = .str s)
  | bool (h : ∀ c ∈ cells, ∃ b, c = .bool b)
  | int (h : ∀ c ∈ cells, ∃ n : Number, c = .num n ∧ ∃ k : Int, n.text = intText k)

/-- A cell of one of these types that is its own key: no empty text, and no number of
seven digits. -/
def Plain : JsonTree Number → Prop
  | .str s => s ≠ ""
  | .bool _ => True
  | .num n => ∃ k : Int, n.text = intText k ∧ k.natAbs < 10 ^ 6
  | .null | .arr _ | .obj _ => False

/-- Reading a cell. -/
abbrev decodeCell : JsonTree Number → Option (JsonTree Double) :=
  JsonTree.traverse fun n => parseFloat n.text

variable {cells : List (JsonTree Number)} {row : List (JsonTree Double)}

theorem OneType.cell (h : OneType cells) : ∀ c ∈ cells, (∃ s, c = .str s) ∨ (∃ b, c = .bool b) ∨
      ∃ n : Number, c = .num n ∧ ∃ k : Int, n.text = intText k := by
  intro c hc
  cases h with
  | str h => exact .inl (h c hc)
  | bool h => exact .inr (.inl (h c hc))
  | int h => exact .inr (.inr (h c hc))

theorem intText_ne_nil (k : Int) : intText k ≠ [] := signText_append_ne_nil (leads_itoa _) _

/-- The text of a cell is its key exactly when the cell is plain. -/
theorem cellStr_eq_iff {c : JsonTree Number} {v : JsonTree Double} (hv : decodeCell c = some v)
    (hc : (∃ s, c = .str s) ∨ (∃ b, c = .bool b) ∨
      ∃ n : Number, c = .num n ∧ ∃ k : Int, n.text = intText k) :
    cellStr v = ownText c ∧ cellStr v ≠ [] ↔ Plain c := by
  obtain ⟨s, rfl⟩ | ⟨b, rfl⟩ | ⟨n, rfl, k, hk⟩ := hc
  · cases hv
    refine (and_iff_right rfl).trans (not_congr ?_)
    exact ⟨fun h => bytes_injective (h.trans rfl), fun h => h ▸ rfl⟩
  · cases hv
    cases b <;> exact iff_of_true ⟨rfl, by decide⟩ trivial
  · rw [decodeCell, JsonTree.traverse, hk] at hv
    obtain ⟨x, hx, rfl⟩ := Option.map_eq_some_iff.mp hv
    have hwhole := goVerb_whole hx
    change goVerb x = n.text ∧ goVerb x ≠ [] ↔ ∃ k : Int, n.text = intText k ∧ k.natAbs < 10 ^ 6
    rw [hk]
    split at hwhole
    · next hsmall => exact iff_of_true ⟨hwhole, hwhole ▸ intText_ne_nil k⟩ ⟨k, rfl, hsmall⟩
    · next hlarge =>
      refine iff_of_false (fun h => not_mem_intText k (h.1 ▸ hwhole)) ?_
      rintro ⟨k', hk', hsmall⟩
      exact hlarge (intText_injective hk' ▸ hsmall)

theorem ownText_injOn (h : OneType cells) :
    ∀ c ∈ cells, ∀ c' ∈ cells, ownText c = ownText c' → c = c' := by
  intro c hc c' hc' heq
  cases h with
  | str h =>
    obtain ⟨s, rfl⟩ := h c hc
    obtain ⟨s', rfl⟩ := h c' hc'
    exact congrArg _ (bytes_injective heq)
  | bool h =>
    obtain ⟨b, rfl⟩ := h c hc
    obtain ⟨b', rfl⟩ := h c' hc'
    cases b <;> cases b' <;> first | rfl | exact absurd heq (by decide)
  | int h =>
    obtain ⟨n, rfl, -⟩ := h c hc
    obtain ⟨n', rfl, -⟩ := h c' hc'
    obtain ⟨text, _, _⟩ := n
    obtain ⟨text', _, _⟩ := n'
    cases heq
    rfl

/-! ## The cases of a page -/

variable {sha256 : Bytes → Bytes} {columnSize : Table Bytes Bytes → Nat} {datasetURN : Bytes}

/-- The primary keys of a page whose rows all have one. -/
def pkCells (page : RowsPage Number) : Option (List (JsonTree Number)) :=
  (t.pkIdx page.columns).bind fun i => page.rows.mapM (·[i]?)

/-- The primary key of each row, and its projection, can be stored. -/
def RowsStorable (columnSize : Table Bytes Bytes → Nat) (datasetURN : Bytes)
    (page : RowsPage Double)
    (cells : List (JsonTree Number)) : Prop :=
  ∀ rc ∈ page.rows.zip cells, Desk.Storable columnSize datasetURN (ownText rc.2)
    (bytes "trigger/" ++ t.name) (truncateProjection (t.projection page.columns rc.1)).1

/-- The pages that are turned into one case for each row. -/
structure Faithful (columnSize : Table Bytes Bytes → Nat) (datasetURN : Bytes)
    (page : RowsPage Number) (cells : List (JsonTree Number)) : Prop where
  whole : page.bodyLength ≤ maxBodyLength
  few : cells.length ≤ 10000
  plain : ∀ c ∈ cells, Plain c
  storable : ∃ decoded, page.decode = some decoded ∧
    t.RowsStorable columnSize datasetURN decoded cells

/-- An event creates one case for each row, under the text of its key, and nothing when it
is applied again. -/
def Materialises (sha256 : Bytes → Bytes) (columnSize : Table Bytes Bytes → Nat)
    (datasetURN : Bytes)
    (page : RowsPage Number) (cells : List (JsonTree Number)) (now : Instant) (ids : List Uuid)
    (d : Desk) : Prop :=
  ∃ d', t.applyOne sha256 columnSize datasetURN page now ids d = .ok d' ∧
    d'.store.cases.map (·.2.rowPK) = cells.map ownText ∧
    ∀ now' ids' d'', t.applyOne sha256 columnSize datasetURN page now' ids' d' = .ok d'' →
      d''.store.cases = d'.store.cases

variable {t} {now : Instant} {columns : List Bytes} {i : Nat} {ids : List Uuid}
  {rows : List (List (JsonTree Double))}

theorem mem_drafts {c : Draft} (h : c ∈ t.drafts sha256 datasetURN now columns i ids rows) :
    ∃ row ∈ rows, ∃ pk, rowPK i row = some pk ∧ c.rowPK = pk ∧
      c.dedupKey = dedupKey sha256 datasetURN pk := by
  obtain ⟨⟨row, id⟩, hmem, hc⟩ := List.mem_filterMap.mp h
  obtain ⟨pk, hpk, rfl⟩ := Option.map_eq_some_iff.mp hc
  exact ⟨row, (List.of_mem_zip hmem).1, pk, hpk, rfl, rfl⟩

theorem drafts_cons (id : Uuid) (row : List (JsonTree Double)) :
    t.drafts sha256 datasetURN now columns i (id :: ids) (row :: rows) =
      ((rowPK i row).map (t.draft sha256 datasetURN now columns id row)).toList ++
        t.drafts sha256 datasetURN now columns i ids rows := by
  rw [drafts, List.zip_cons_cons, List.filterMap_cons]
  cases rowPK i row <;> rfl

theorem drafts_rowPK (hids : ids.length = rows.length) :
    (t.drafts sha256 datasetURN now columns i ids rows).map (·.rowPK) =
      rows.filterMap (rowPK i) := by
  induction rows generalizing ids with
  | nil => cases ids <;> rfl
  | cons row rows ih =>
    cases ids with
    | nil => cases hids
    | cons id ids =>
      rw [drafts_cons, List.map_append, ih (Nat.succ.inj hids), List.filterMap_cons]
      cases rowPK i row <;> rfl

theorem drafts_id_nodup (hids : ids.Nodup) :
    ((t.drafts sha256 datasetURN now columns i ids rows).map (·.id)).Nodup := by
  have hsub : ((t.drafts sha256 datasetURN now columns i ids rows).map (·.id)).Sublist ids := by
    clear hids
    induction rows generalizing ids with
    | nil => exact List.nil_sublist _
    | cons row rows ih =>
      cases ids with
      | nil => exact List.Sublist.refl _
      | cons id ids =>
        rw [drafts_cons, List.map_append]
        cases rowPK i row with
        | none => exact ih.trans (List.sublist_cons_self _ _)
        | some pk => exact ih.cons_cons _
  exact hids.sublist hsub

theorem decode_eq_some {page : RowsPage Number} {decoded : RowsPage Double}
    (h : page.decode = some decoded) : page.bodyLength ≤ maxBodyLength ∧
      ∃ rows, page.rows.mapM (List.mapM (JsonTree.traverse fun n => parseFloat n.text)) =
        some rows ∧
        decoded = ⟨page.columns, rows, page.bodyLength⟩ := by
  rw [RowsPage.decode] at h
  split at h
  · next hwhole =>
    obtain ⟨rows, hrows, rfl⟩ := Option.map_eq_some_iff.mp h
    exact ⟨hwhole, rows, hrows, rfl⟩
  · cases h

theorem decode_rows {page : RowsPage Number} {decoded : RowsPage Double}
    (hcells : page.rows.mapM (·[i]?) = some cells) (hdecoded : page.decode = some decoded) :
    decoded.columns = page.columns ∧
      List.Forall₂ (fun row c => ∃ v, row[i]? = some v ∧ decodeCell c = some v)
        decoded.rows cells := by
  obtain ⟨-, rows, hrows, rfl⟩ := decode_eq_some hdecoded
  refine ⟨rfl, ?_⟩
  replace hrows := mapM_eq_some.mp hrows
  replace hcells := mapM_eq_some.mp hcells
  clear hdecoded
  generalize page.rows = read at hrows hcells
  change List.Forall₂ _ rows cells
  induction hrows generalizing cells with
  | nil =>
    cases hcells
    exact .nil
  | @cons written row read rows hrow _ ih =>
    cases hcells with
    | cons hcell hcells =>
      refine .cons ?_ (ih hcells)
      have hrow := mapM_eq_some.mp hrow
      obtain ⟨hlt, hget⟩ := List.getElem?_eq_some_iff.mp hcell
      have hlt' : i < row.length := hrow.length_eq ▸ hlt
      refine ⟨row[i], List.getElem?_eq_getElem hlt', ?_⟩
      rw [← hget]
      exact List.Forall₂.get hrow hlt hlt'

theorem rowPK_eq_iff {c : JsonTree Number} (hc : (∃ s, c = .str s) ∨ (∃ b, c = .bool b) ∨
      ∃ n : Number, c = .num n ∧ ∃ k : Int, n.text = intText k)
    (h : ∃ v, row[i]? = some v ∧ decodeCell c = some v) :
    rowPK i row = some (ownText c) ↔ Plain c := by
  obtain ⟨v, hget, hv⟩ := h
  rw [← cellStr_eq_iff hv hc, rowPK, hget, Option.map_some, Option.filter_eq_some_iff,
    Option.some_inj, decide_eq_true_iff]
  exact and_congr_right fun heq => by rw [heq]

theorem forall₂_of_filterMap {α β γ : Type} {f : α → Option β} {g : γ → β} {xs : List α}
    {ys : List γ}
    (hlen : xs.length = ys.length) (h : xs.filterMap f = ys.map g) :
    List.Forall₂ (fun x y => f x = some (g y)) xs ys := by
  induction xs generalizing ys with
  | nil =>
    cases ys with
    | nil => exact .nil
    | cons y ys => cases hlen
  | cons x xs ih =>
    cases ys with
    | nil => cases hlen
    | cons y ys =>
      have hlen := Nat.succ.inj hlen
      rw [List.filterMap_cons] at h
      cases hx : f x with
      | none =>
        rw [hx] at h
        have hle := List.length_filterMap_le f xs
        have hlong : (xs.filterMap f).length = ys.length + 1 :=
          (congrArg List.length h).trans (List.length_map g)
        omega
      | some b =>
        rw [hx] at h
        obtain ⟨hhead, htail⟩ := List.cons.inj h
        exact .cons (hx.trans (congrArg some hhead)) (ih hlen htail)

theorem filterMap_of_forall₂ {α β γ : Type} {f : α → Option β} {g : γ → β} {xs : List α}
    {ys : List γ}
    (h : List.Forall₂ (fun x y => f x = some (g y)) xs ys) : xs.filterMap f = ys.map g := by
  induction h with
  | nil => rfl
  | cons hx _ ih => rw [List.filterMap_cons_some hx, ih, List.map_cons]

theorem exists_mem_zip {α β : Type} {xs : List α} {ys : List β} (hlen : xs.length = ys.length)
    {x : α} (hx : x ∈ xs) : ∃ y, (x, y) ∈ xs.zip ys := by
  rw [← List.map_fst_zip hlen.le] at hx
  obtain ⟨⟨x, y⟩, hmem, rfl⟩ := List.mem_map.mp hx
  exact ⟨y, hmem⟩

theorem dedupKey_inj (hsha : Function.Injective sha256) {a b : Bytes} (hurn : datasetURN ≠ [])
    (ha : a ≠ []) (hb : b ≠ []) (h : dedupKey sha256 datasetURN a = dedupKey sha256 datasetURN b) :
    a = b := by
  rw [dedupKey, if_neg (by simp [hurn, ha]), dedupKey, if_neg (by simp [hurn, hb])] at h
  have h := hsha (hexEncode_injective (List.append_cancel_left (Option.some.inj h)))
  exact (List.cons.inj (List.append_cancel_left h)).2

theorem rowPK_ne_nil {pk : Bytes} (h : rowPK i row = some pk) : pk ≠ [] :=
  of_decide_eq_true (Option.filter_eq_some_iff.mp h).2

theorem applyOne_eq {page : RowsPage Number} {decoded : RowsPage Double} {d : Desk}
    (hdecoded : page.decode = some decoded) (hi : t.pkIdx page.columns = some i) :
    t.applyOne sha256 columnSize datasetURN page now ids d =
      match d.createCases columnSize
        (t.drafts sha256 datasetURN now page.columns i ids decoded.rows) [] warnBefore with
      | .error e => .error (.create e)
      | .ok (d, _, _) => .ok d := by
  have hcolumns : decoded.columns = page.columns := by
    obtain ⟨-, rows, -, rfl⟩ := decode_eq_some hdecoded
    rfl
  rw [applyOne, hdecoded]
  simp only [hcolumns, hi]

theorem openCase_isSome {d : Desk} {cs : List Draft} {id : Uuid}
    {pk : Bytes} (hurn : datasetURN ≠ []) (hpk : pk ≠ [])
    (hfacts : d.store.cases.map Desk.facts = cs.map fun c => Desk.facts (c.id, c.toCase))
    (hmem : t.draft sha256 datasetURN now columns id row pk ∈ cs) :
    ((dedupKey sha256 datasetURN pk).bind d.openCase).isSome := by
  have hkey : dedupKey sha256 datasetURN pk =
      some (bytes "sha256:" ++ hexEncode (sha256 (datasetURN ++ 0 :: pk))) :=
    if_neg (by simp [hurn, hpk])
  obtain ⟨stored, hstored, heq⟩ := List.mem_map.mp (hfacts ▸ List.mem_map_of_mem hmem)
  rw [hkey, Option.bind_some, Desk.openCase, List.find?_isSome]
  have hdedup : stored.2.dedupKey = dedupKey sha256 datasetURN pk := congrArg (·.2.1) heq
  have hstatus : stored.2.status = .unassigned := congrArg (·.2.2) heq
  exact ⟨stored, hstored, by rw [hdedup, hkey, hstatus]; simp⟩

section Page

variable {page : RowsPage Number} {cells : List (JsonTree Number)} {d : Desk}
  (hcells : t.pkCells page = some cells) (hone : OneType cells)
  (hlen : ids.length = page.rows.length) (hempty : d.store.cases = [])
include hcells hone hlen hempty

theorem faithful_of_materialises
    (h : t.Materialises sha256 columnSize datasetURN page cells now ids d) :
    t.Faithful columnSize datasetURN page cells := by
  obtain ⟨i, hi, hcells⟩ := Option.bind_eq_some_iff.mp hcells
  obtain ⟨d', hok, hrows, -⟩ := h
  cases hdecoded : page.decode with
  | none =>
    rw [applyOne, hdecoded] at hok
    cases hok
  | some decoded =>
    rw [applyOne_eq hdecoded hi] at hok
    obtain ⟨hcolumns, hread⟩ := decode_rows hcells hdecoded
    have hlen' : ids.length = decoded.rows.length := by
      rw [hlen, hread.length_eq, ← (mapM_eq_some.mp hcells).length_eq]
    set cs := t.drafts sha256 datasetURN now page.columns i ids decoded.rows with hcs
    cases hcreate : d.createCases columnSize cs [] warnBefore with
    | error e => rw [hcreate] at hok; cases hok
    | ok r =>
      obtain ⟨d₁, created, deduped⟩ := r
      rw [hcreate] at hok
      cases hok
      have hcount : cs.length ≤ d'.store.cases.length := by
        have hkeys := List.length_filterMap_le (rowPK i) decoded.rows
        have hpks : cs.map (·.rowPK) = decoded.rows.filterMap (rowPK i) := drafts_rowPK hlen'
        rw [← hpks, List.length_map, hread.length_eq] at hkeys
        have heq := congrArg List.length hrows
        rw [List.length_map, List.length_map] at heq
        omega
      obtain ⟨hfew, hsame, hst, hpks⟩ := Desk.createCases_ok hempty hcreate hcount
      rw [hrows, hcs, drafts_rowPK hlen'] at hpks
      have hkeys := forall₂_of_filterMap hread.length_eq hpks.symm
      have heq := congrArg List.length hrows
      rw [List.length_map, List.length_map] at heq
      refine ⟨(decode_eq_some hdecoded).1, by omega, fun c hc => ?_, decoded, hdecoded,
        fun ⟨row, c⟩ hrc => ?_⟩
      · obtain ⟨row, hrow⟩ := exists_mem_zip hread.length_eq.symm hc
        have hrow : (row, c) ∈ decoded.rows.zip cells := by
          rw [← List.zip_swap]
          exact List.mem_map.mpr ⟨_, hrow, rfl⟩
        exact (rowPK_eq_iff (hone.cell c hc) (List.forall₂_zip hread hrow)).mp
          (List.forall₂_zip hkeys hrow)
      · obtain ⟨id, hid⟩ := exists_mem_zip hlen'.symm (List.of_mem_zip hrc).1
        have hmem : t.draft sha256 datasetURN now page.columns id row (ownText c) ∈ cs :=
          List.mem_filterMap.mpr ⟨(row, id), hid, by rw [List.forall₂_zip hkeys hrc]; rfl⟩
        rw [hcolumns]
        exact hst _ hmem

theorem materialises_of_faithful (hsha : Function.Injective sha256) (hurn : datasetURN ≠ [])
    (hdistinct : cells.Nodup) (hids : ids.Nodup) (h : t.Faithful columnSize datasetURN page cells) :
    t.Materialises sha256 columnSize datasetURN page cells now ids d := by
  obtain ⟨i, hi, hcells⟩ := Option.bind_eq_some_iff.mp hcells
  obtain ⟨-, hfew, hplain, decoded, hdecoded, hstorable⟩ := h
  obtain ⟨hcolumns, hread⟩ := decode_rows hcells hdecoded
  have hlen' : ids.length = decoded.rows.length := by
    rw [hlen, hread.length_eq, ← (mapM_eq_some.mp hcells).length_eq]
  have hkeys : List.Forall₂ (fun row c => rowPK i row = some (ownText c)) decoded.rows cells :=
    List.forall₂_iff_zip.mpr ⟨hread.length_eq, fun {row c} hrc =>
      (rowPK_eq_iff (hone.cell c (List.of_mem_zip hrc).2) (List.forall₂_zip hread hrc)).mpr
        (hplain c (List.of_mem_zip hrc).2)⟩
  let cs (now : Instant) (ids : List Uuid) :=
    t.drafts sha256 datasetURN now page.columns i ids decoded.rows
  have hrows : (cs now ids).map (·.rowPK) = cells.map ownText :=
    (drafts_rowPK hlen').trans (filterMap_of_forall₂ hkeys)
  have hst : ∀ c ∈ cs now ids, Desk.StorableCase columnSize c := by
    intro c hc
    obtain ⟨⟨row, id⟩, hmem, hc⟩ := List.mem_filterMap.mp hc
    obtain ⟨pk, hpk, rfl⟩ := Option.map_eq_some_iff.mp hc
    obtain ⟨cell, hcell⟩ := exists_mem_zip hread.length_eq (List.of_mem_zip hmem).1
    cases hpk.symm.trans (List.forall₂_zip hkeys hcell)
    exact hcolumns ▸ hstorable _ hcell
  have hkeysNodup : ((cs now ids).map (·.dedupKey)).Nodup := by
    have hmap : (cs now ids).map (·.dedupKey) =
        ((cs now ids).map (·.rowPK)).map (dedupKey sha256 datasetURN) := by
      rw [List.map_map]
      refine List.map_congr_left fun c hc => ?_
      obtain ⟨_, _, pk, _, hpk, hkey⟩ := mem_drafts hc
      exact hkey.trans (congrArg _ hpk.symm)
    rw [hmap]
    have hne : ∀ pk ∈ (cs now ids).map (·.rowPK), pk ≠ [] := by
      intro pk hpk
      obtain ⟨c, hc, rfl⟩ := List.mem_map.mp hpk
      obtain ⟨_, _, pk, hrow, hpk, _⟩ := mem_drafts hc
      exact hpk ▸ rowPK_ne_nil hrow
    refine List.Nodup.map_on (fun a ha b hb => dedupKey_inj hsha hurn (hne a ha) (hne b hb)) ?_
    rw [hrows]
    exact hdistinct.map_on (ownText_injOn hone)
  have hcount : (cs now ids).length ≤ 10000 := by
    have heq := congrArg List.length hrows
    rw [List.length_map, List.length_map] at heq
    exact heq.trans_le hfew
  obtain ⟨d', hcreate, hfacts⟩ := Desk.createCases_fresh [] warnBefore
    hempty hcount hst (drafts_id_nodup hids) hkeysNodup
  refine ⟨d', ?_, ?_, fun now' ids' d'' hagain => ?_⟩
  · rw [applyOne_eq hdecoded hi, hcreate]
  · have hpks := congrArg (List.map (·.1)) hfacts
    rw [List.map_map, List.map_map] at hpks
    exact hpks.trans hrows
  · rw [applyOne_eq hdecoded hi] at hagain
    have hopen : ∀ c ∈ cs now' ids', (c.dedupKey.bind d'.openCase).isSome := by
      intro c hc
      obtain ⟨row, hrow, pk, hpk, -, hkey⟩ := mem_drafts hc
      obtain ⟨id, hid⟩ := exists_mem_zip hlen'.symm hrow
      have hmem : t.draft sha256 datasetURN now page.columns id row pk ∈ cs now ids :=
        List.mem_filterMap.mpr ⟨(row, id), hid, by rw [hpk]; rfl⟩
      exact hkey ▸ openCase_isSome hurn (rowPK_ne_nil hpk) hfacts hmem
    cases hcreate' : d'.createCases columnSize (cs now' ids') [] warnBefore with
    | error e => rw [hcreate'] at hagain; cases hagain
    | ok r =>
      rw [hcreate'] at hagain
      cases hagain
      rw [Desk.createCases_again hopen hcreate']

end Page

/-- A trigger makes one case of each row, under the text of its key, exactly when the
page is read to its end, the keys are plain and PostgreSQL stores the rows. -/
theorem materialises_iff (t : CaseTrigger) {sha256 : Bytes → Bytes}
    (columnSize : Table Bytes Bytes → Nat)
    {datasetURN : Bytes} {page : RowsPage Number} {cells : List (JsonTree Number)} (now : Instant)
    {ids : List Uuid} {d : Desk} (hsha : Function.Injective sha256) (hurn : datasetURN ≠ [])
    (hcells : t.pkCells page = some cells) (hone : OneType cells) (hdistinct : cells.Nodup)
    (hids : ids.Nodup) (hlen : ids.length = page.rows.length) (hempty : d.store.cases = []) :
    t.Materialises sha256 columnSize datasetURN page cells now ids d ↔
      t.Faithful columnSize datasetURN page cells :=
  ⟨faithful_of_materialises hcells hone hlen hempty,
    materialises_of_faithful hcells hone hlen hempty hsha hurn hdistinct hids⟩

/-! ## Two pages -/

section Pages

/-- The size of a map of texts in JSONB. -/
def jsonbSize (entries : Table Bytes Bytes) : Nat :=
  8 + (entries.map fun e => 8 + e.1.length + e.2.length).sum

def urn : Bytes := bytes "urn:d"

def digests : Bytes → Bytes :=
  digestTable
    [(urn ++ 0 :: bytes "a",
      [225, 80, 153, 193, 89, 47, 91, 81, 47, 13, 92, 198, 250, 58, 54, 226, 218, 87, 56, 143,
        95, 52, 118, 154, 189, 28, 203, 157, 66, 74, 251, 188]),
      (urn ++ 0 :: bytes "b",
      [158, 56, 190, 204, 134, 70, 161, 89, 119, 191, 15, 9, 236, 174, 106, 227, 131, 71, 216, 91,
        130, 46, 97, 164, 163, 204, 244, 13, 101, 151, 152, 118])]

def byId : CaseTrigger where
  workspaceID := Uuid.ofByte 1
  name := bytes "claims"
  rowPKField := bytes "id"
  severity := .medium
  dueHours := 72
  projectionFields := []

def emptyDesk : Desk := ⟨⟨[], []⟩, []⟩

def texts : RowsPage Number := ⟨[bytes "id"], [[.str "a"], [.str "b"]], 112⟩

/-- Rows with a text as their key. -/
theorem texts_materialise : byId.Materialises digests jsonbSize urn texts [.str "a", .str "b"] 0
    [Uuid.ofByte 2, Uuid.ofByte 3] emptyDesk :=
  (materialises_iff byId jsonbSize 0 (digestTable_injective (by decide) (by decide)) (by decide) rfl
    (.str (by simp)) (by simp) (by decide) rfl rfl).mpr
    { whole := by decide
      few := by decide
      plain := by simp [Plain]
      storable := ⟨⟨[bytes "id"], [[.str "a"], [.str "b"]], 112⟩, rfl, by
        rintro rc hrc
        rcases List.mem_cons.mp hrc with rfl | hrc
        · decide
        · cases List.mem_singleton.mp hrc
          decide⟩ }

/-- A row of twelve long texts beside its key, in columns with names of 90 bytes. -/
def wide : RowsPage Number where
  columns := bytes "id" :: (List.range 12).map fun i => List.replicate 90 (65 + UInt8.ofNat i)
  rows := [.str "a" :: List.replicate 12 (.str (String.ofList (List.replicate 300 'x')))]
  bodyLength := 4858

/-- Each text of the row is cut to its limit, and yet the row is not stored. -/
theorem wide_not_materialised :
    ¬ byId.Materialises digests jsonbSize urn wide [.str "a"] 0 [Uuid.ofByte 2] emptyDesk := by
  intro h
  have hone : OneType [.str "a"] := .str (by simp)
  obtain ⟨decoded, hdecoded, hstorable⟩ := (faithful_of_materialises rfl hone rfl rfl h).storable
  obtain ⟨-, rows, hrows, rfl⟩ := decode_eq_some hdecoded
  cases hrows
  obtain ⟨-, -, -, -, hsize⟩ := hstorable _ List.mem_cons_self
  exact absurd hsize (by decide +kernel)

end Pages

end CaseTrigger

end Windrose.Cases

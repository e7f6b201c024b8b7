/-
  Audit/Export.lean --- the daily WORM export.

  Source: services/audit-service/internal/export/export.go (Exporter, Manifest,
  ManifestFile, ExportDay, buildParquet, priorDate), pgstore/pgstore.go (ChainHead,
  GetChainHead, UpsertChainHead, SealChainHead, Manifest, LatestManifest,
  InsertManifest), chstore/chstore.go (ChainScan, ChainTip) and worm/worm.go (PutWORM).

  `Stores` is everything the ingest and the export share.  `exportDay` is a process over it
  (`Foundation.Proc`): one command for every round trip, in the order of the source.

  The Parquet encoding is a parameter, and a stored object is what was encoded.
  Dates are texts of four-digit years, so that the order of the texts is the order of
  the days.  Left out are the random id and the constant status of a manifest row,
  and the event that reports a sealed day.
-/
import Mathlib.Data.List.MinMax
import Mathlib.Data.List.AList
import Windrose.Foundation.Json
import Windrose.Foundation.Proc
import Windrose.Audit.ChainRuns

set_option autoImplicit false

namespace Windrose.Audit.Export

open Windrose.Foundation

/-! ## Dates -/

/-- The layout `2006-01-02`. -/
def dateText (year : Int) (month day : Nat) : Bytes :=
  yearText year ++ bytes "-" ++ pad 2 month ++ bytes "-" ++ pad 2 day

/-- `Format("2006-01-02")`. -/
def formatDate (t : Time) : Bytes :=
  let c := civil (t.sec + t.zone)
  dateText c.year c.month c.day

def daysIn (leap : Bool) (month : Nat) : Nat :=
  if leap && month == 2 then 29 else daysBefore.getD month 0 - daysBefore.getD (month - 1) 0

/-- `time.Parse("2006-01-02", date)`. -/
def parseDate : Bytes → Option (Nat × Nat × Nat)
  | [y₁, y₂, y₃, y₄, 45, m₁, m₂, 45, d₁, d₂] =>
    let y := decVal [y₁, y₂, y₃, y₄]
    let m := decVal [m₁, m₂]
    let d := decVal [d₁, d₂]
    if [y₁, y₂, y₃, y₄, m₁, m₂, d₁, d₂].all isDigit ∧ 1 ≤ m ∧ m ≤ 12 ∧ 1 ≤ d ∧
        d ≤ daysIn (isLeap y) m then
      some (y, m, d)
    else none
  | _ => none

/-- `priorDate`: the day before, or nothing when the text is no date. -/
def priorDate (date : Bytes) : Bytes :=
  match parseDate date with
  | none => []
  | some (y, m, d) =>
    if 1 < d then dateText y m (d - 1)
    else if 1 < m then dateText y (m - 1) (daysIn (isLeap y) (m - 1))
    else dateText (y - 1) 12 31

/-- `chain_date < before`. -/
def dateBefore (a b : Bytes) : Bool := decide (a < b)

/-- A tenant and a chain date. -/
abbrev Day : Type := Uuid × Bytes

/-- The day a row belongs to. -/
def dayOf (r : Record) : Day := (r.tenantID, r.chainDate)

/-! ## Manifests -/

/-- A Parquet file of a manifest. -/
structure ManifestFile where
  name : Bytes
  sha256 : Bytes
  rows : Nat
  occurredAtMin : Bytes
  occurredAtMax : Bytes
  deriving DecidableEq

/-- `Manifest`: the sealed document. -/
structure Manifest where
  tenantID : Bytes
  date : Bytes
  revision : Nat
  files : List ManifestFile
  chainHead : Bytes
  chainSeqRange : Nat × Nat
  prevManifestSHA256 : Bytes
  exporterVersion : Bytes
  sealedAt : Bytes
  deriving DecidableEq

/-- A line of indented JSON. -/
def jsonLine (depth : Nat) (s : Bytes) : Bytes := 10 :: (List.replicate depth 32 ++ s)

def jsonArray (depth : Nat) (items : List Bytes) : Bytes :=
  91 :: (List.intercalate [44] (items.map (jsonLine (depth + 1))) ++ jsonLine depth [93])

def jsonObject (depth : Nat) (fields : List (String × Bytes)) : Bytes :=
  123 :: (List.intercalate [44]
    (fields.map fun f => jsonLine (depth + 1) (quote (bytes f.1) ++ [58, 32] ++ f.2)) ++
      jsonLine depth [125])

def ManifestFile.json (f : ManifestFile) : Bytes :=
  jsonObject 2
    [("name", quote f.name), ("sha256", quote f.sha256), ("rows", itoa f.rows),
      ("occurred_at_min", quote f.occurredAtMin), ("occurred_at_max", quote f.occurredAtMax)]

/-- `json.MarshalIndent(man, "", " ")`. -/
def Manifest.json (m : Manifest) : Bytes :=
  jsonObject 0
    [("tenant_id", quote m.tenantID), ("date", quote m.date), ("revision", itoa m.revision),
      ("files", jsonArray 1 (m.files.map ManifestFile.json)), ("chain_head", quote m.chainHead),
      ("chain_seq_range", jsonArray 1 [itoa m.chainSeqRange.1, itoa m.chainSeqRange.2]),
      ("prev_manifest_sha256", quote m.prevManifestSHA256),
      ("exporter_version", quote m.exporterVersion), ("sealed_at", quote m.sealedAt)]

/-- A row of `export_manifests`. -/
structure ManifestRow where
  tenantID : Uuid
  chainDate : Bytes
  revision : Nat
  uri : Bytes
  manifestSHA256 : Bytes
  chainHead : Bytes
  prevManifestSHA : Bytes
  rowCount : Nat
  deriving DecidableEq

def ManifestRow.day (m : ManifestRow) : Day := (m.tenantID, m.chainDate)

/-- A row of `chain_heads`, without its key. -/
structure ChainHead where
  headHash : Bytes
  eventsCount : Nat
  sealedAt : Option Time
  deriving DecidableEq

/-! ## The stores -/

/-- An object of the bucket. -/
inductive Object where
  | parquet (rows : List Record)
  | manifest (m : Manifest)
  deriving DecidableEq

/-- What the ingest and the export share. -/
structure Stores where
  now : Time
  /-- `audit:chain:assign:<tenant>:<event>` -/
  assign : Uuid → Uuid → Option Link
  /-- `audit:chain:seq:<tenant>:<date>` -/
  seq : Day → Option Nat
  /-- `audit:chain:head:<tenant>:<date>` -/
  head : Day → Option Bytes
  /-- the `audit_events` rows, in the order they were inserted -/
  rows : List Record
  /-- the rows the ingest has built, with their chain positions -/
  pending : List Record
  heads : AList fun _ : Day => ChainHead
  manifests : List ManifestRow
  objects : Bytes → Option Object

namespace Stores

/-- Nothing is stored yet. -/
def empty (now : Time) : Stores :=
  { now, assign := fun _ _ => none, seq := fun _ => none, head := fun _ => none, rows := []
    pending := [], heads := ∅, manifests := [], objects := fun _ => none }

variable (s : Stores)

/-- `FROM audit_events FINAL WHERE tenant_id = ? AND chain_date = ?`. -/
def dayRows (day : Day) : List Record := (finalRows s.rows).filter fun r => dayOf r = day

/-- `ChainScan`. -/
def chainScan (day : Day) : List Record :=
  (s.dayRows day).insertionSort fun r r' => r.chainSeq ≤ r'.chainSeq

/-- `ChainTip`. -/
def chainTip (day : Day) : Option (Nat × Bytes) :=
  (s.chainScan day).getLast?.map fun r => (r.chainSeq, r.chainHash)

/-- `UpsertChainHead`; a sealed day stays sealed. -/
def upsertChainHead (day : Day) (headHash : Bytes) (count : Nat) : Stores :=
  { s with
    heads := s.heads.insert day
      ⟨headHash, count, (s.heads.lookup day).bind ChainHead.sealedAt⟩ }

/-- `SealChainHead`. -/
def sealChainHead (day : Day) : Stores :=
  match s.heads.lookup day with
  | none => s
  | some h => { s with heads := s.heads.insert day { h with sealedAt := some s.now } }

/-- The day is sealed. -/
def isSealed (day : Day) : Bool :=
  match s.heads.lookup day with
  | none => false
  | some h => h.sealedAt.isSome

/-- `LatestManifest`. -/
def latestManifest (day : Day) : Option ManifestRow :=
  (s.manifests.filter fun m => m.day = day).argmax ManifestRow.revision

/-- `InsertManifest`, unless the day has the revision already. -/
def insertManifest (m : ManifestRow) : Bool × Stores :=
  if s.manifests.any fun m' => m'.day = m.day ∧ m'.revision = m.revision then (false, s)
  else (true, { s with manifests := s.manifests ++ [m] })

/-- `PutWORM`. -/
def putWORM (key : Bytes) (o : Object) : Stores :=
  { s with objects := Function.update s.objects key (some o) }

end Stores

/-! ## `ExportDay` -/

/-- `tenant=<tenant>/date=<date>/`. -/
def dayKey (day : Day) : Bytes :=
  bytes "tenant=" ++ day.1.text ++ bytes "/date=" ++ day.2 ++ bytes "/"

def fileName (revision : Nat) : Bytes := bytes "events-" ++ pad 4 revision ++ bytes ".parquet"

def fileKey (day : Day) (revision : Nat) : Bytes := dayKey day ++ fileName revision

def manifestKey (day : Day) (revision : Nat) : Bytes :=
  dayKey day ++ (bytes "manifest-r" ++ pad 4 revision ++ bytes ".json")

/-! ## Keys -/

theorem slash_not_mem_fileName (revision : Nat) : (47 : UInt8) ∉ fileName revision := by
  have hpad : (47 : UInt8) ∉ pad 4 revision := fun h => absurd (isDigit_of_mem_pad h) (by decide)
  have htexts : (47 : UInt8) ∉ bytes "events-" ∧ (47 : UInt8) ∉ bytes ".parquet" := by decide
  simp only [fileName, List.mem_append, not_or]
  exact ⟨⟨htexts.1, hpad⟩, htexts.2⟩

theorem fileName_injective : Function.Injective fileName := by
  intro r r' h
  exact pad_injective 4 (List.append_cancel_left (List.append_cancel_right h))

variable {day : Day}

theorem fileKey_inj {day' : Day} {r r' : Nat} (h : fileKey day r = fileKey day' r') :
    day = day' ∧ r = r' := by
  have hslash : bytes "/" = [47] := rfl
  simp only [fileKey, dayKey, hslash, List.append_assoc _ ([47] : Bytes),
    List.singleton_append] at h
  obtain ⟨hday, hname⟩ := append_last_sep_inj (slash_not_mem_fileName r)
    (slash_not_mem_fileName r') h
  simp only [List.append_assoc] at hday
  obtain ⟨htenant, hdate⟩ := List.append_inj (List.append_cancel_left hday)
    (by rw [Uuid.length_text, Uuid.length_text])
  exact ⟨Prod.ext (Uuid.text_injective htenant) (List.append_cancel_left hdate),
    fileName_injective hname⟩

theorem manifestKey_ne_fileKey (day day' : Day) (r r' : Nat) :
    manifestKey day r ≠ fileKey day' r' := by
  intro h
  have hjson : (bytes ".json").getLast? = some 110 := rfl
  have hparquet : (bytes ".parquet").getLast? = some 116 := rfl
  have hlast := congrArg List.getLast? h
  simp only [manifestKey, fileKey, fileName, List.getLast?_append, hjson, hparquet,
    Option.some_or, Option.some.injEq] at hlast
  exact absurd hlast (by decide)

/-- `Exporter`: the digest, the encoding of the rows, and the bucket. -/
structure Exporter where
  sum256 : Bytes → Bytes
  parquet : List Record → Bytes
  bucket : Bytes

/-- The revision after the latest one. -/
def nextRevision (latest : Option ManifestRow) : Nat := (latest.map fun m => m.revision + 1).getD 1

/-- Where `ExportDay` gives up. -/
inductive ExportError where
  | chainScan
  | latestManifest
  | putParquet
  | putManifest
  | insertManifest
  | sealChainHead
  deriving DecidableEq

/-- `version`. -/
def version : Bytes := bytes "1.0.0"

/-- `Before`. -/
def earlier (a b : Time) : Bool := a.sec < b.sec || (a.sec = b.sec && a.nsec < b.nsec)

namespace Exporter

variable (x : Exporter)

/-- The digest of the manifest before; this day's prior revision when there is none. -/
def orOwnSHA (day : Day) (revision : Nat) (prior : Option ManifestRow) : Proc Stores Bytes :=
  let prevSHA := (prior.map ManifestRow.manifestSHA256).getD []
  if prevSHA = [] ∧ 1 < revision then do
    let own ← Proc.read fun s : Stores => s.latestManifest day
    pure ((own.join.map ManifestRow.manifestSHA256).getD [])
  else pure prevSHA

/-- The digest of the previous day's latest manifest, else of this day's prior revision. -/
def prevSHA (day : Day) (revision : Nat) : Proc Stores Bytes :=
  if priorDate day.2 ≠ [] then do
    let prior ← Proc.read fun s : Stores => s.latestManifest (day.1, priorDate day.2)
    orOwnSHA day revision prior.join
  else orOwnSHA day revision none

/-- The manifest of a revision with the rows `first :: rest`. -/
def manifest (day : Day) (revision : Nat) (first : Record) (rest : List Record)
    (head prevSHA : Bytes) (now : Time) : Manifest :=
  let times := rest.map Record.occurredAt
  let minTS := times.foldl (fun a t => if earlier t a then t else a) first.occurredAt
  let maxTS := times.foldl (fun a t => if earlier a t then t else a) first.occurredAt
  { tenantID := day.1.text
    date := day.2
    revision
    files := [
      { name := fileName revision
        sha256 := sha256Hex x.sum256 (x.parquet (first :: rest))
        rows := (first :: rest).length
        occurredAtMin := formatRFC3339Nano minTS.utc
        occurredAtMax := formatRFC3339Nano maxTS.utc }]
    chainHead := head
    chainSeqRange := (first.chainSeq, (rest.getLastD first).chainSeq)
    prevManifestSHA256 := prevSHA
    exporterVersion := version
    sealedAt := formatRFC3339Nano now.utc }

/-- What `InsertManifest` records of a manifest. -/
def row (day : Day) (man : Manifest) (rowCount : Nat) : ManifestRow :=
  { tenantID := day.1
    chainDate := day.2
    revision := man.revision
    uri := bytes "s3://" ++ x.bucket ++ bytes "/" ++ manifestKey day man.revision
    manifestSHA256 := sha256Hex x.sum256 man.json
    chainHead := man.chainHead
    prevManifestSHA := man.prevManifestSHA256
    rowCount }

/-- `ExportDay` from the manifest on: it is written last, and then the day is sealed. -/
def sealDay (day : Day) (revision : Nat) (first : Record) (rest : List Record)
    (head prevSHA : Bytes) : Proc Stores (Except ExportError (Option ManifestRow)) :=
  Proc.orFail .putManifest (Proc.exec fun s : Stores =>
    let man := x.manifest day revision first rest head prevSHA s.now
    (man, s.putWORM (manifestKey day revision) (.manifest man))) fun man =>
  Proc.orFail .insertManifest (Proc.exec fun s : Stores =>
    s.insertManifest (x.row day man (first :: rest).length)) fun inserted =>
  if inserted = false then pure (.error .insertManifest)
  else
    Proc.orFail .sealChainHead (Proc.exec fun s : Stores => ((), s.sealChainHead day)) fun _ =>
    pure (.ok (some (x.row day man (first :: rest).length)))

/-- `ExportDay` behind its scan. -/
def exportRows (day : Day) : List Record → Proc Stores (Except ExportError (Option ManifestRow))
  | [] => pure (.ok none)
  | first :: rest =>
    Proc.orFail .latestManifest (Proc.read fun s : Stores => s.latestManifest day) fun latest =>
    let revision := nextRevision latest
    Proc.orFail .putParquet (Proc.exec fun s : Stores =>
      ((), s.putWORM (fileKey day revision) (.parquet (first :: rest)))) fun _ => do
    let prevSHA ← prevSHA day revision
    -- The checkpoint goes before the last row.
    let checkpoint ← Proc.read fun s : Stores => s.heads.lookup day
    let head := (checkpoint.join.map ChainHead.headHash).getD (rest.getLastD first).chainHash
    x.sealDay day revision first rest head prevSHA

/-- `ExportDay`. -/
def exportDay (day : Day) : Proc Stores (Except ExportError (Option ManifestRow)) :=
  Proc.orFail .chainScan (Proc.read fun s : Stores => s.chainScan day) (x.exportRows day)

end Exporter

/-! ## Revisions -/

namespace Stores

variable {s : Stores} {day : Day}

variable {m : ManifestRow}

theorem revision_lt_next (hm : m ∈ s.manifests) (hday : m.day = day) :
    m.revision < nextRevision (s.latestManifest day) := by
  have hmem : m ∈ s.manifests.filter fun m => m.day = day := by
    rw [List.mem_filter, decide_eq_true_eq]
    exact ⟨hm, hday⟩
  cases hlatest : s.latestManifest day with
  | none =>
    rw [latestManifest, List.argmax_eq_none] at hlatest
    rw [hlatest] at hmem
    cases hmem
  | some l => exact Nat.lt_succ_of_le (List.le_of_mem_argmax hmem hlatest)

/-- The stores with one manifest more. -/
def addManifest (s : Stores) (m : ManifestRow) : Stores :=
  { s with manifests := s.manifests ++ [m] }

theorem insertManifest_next (hrev : m.revision = nextRevision (s.latestManifest m.day)) :
    s.insertManifest m = (true, s.addManifest m) := by
  refine if_neg fun hany => ?_
  obtain ⟨m', hm', hsame⟩ := List.any_eq_true.mp hany
  rw [decide_eq_true_eq] at hsame
  have hlt := revision_lt_next hm' hsame.1
  omega

theorem latestManifest_addManifest (hrev : m.revision = nextRevision (s.latestManifest m.day)) :
    (s.addManifest m).latestManifest m.day = some m := by
  have hfilter : ((s.addManifest m).manifests.filter fun m' => m'.day = m.day) =
      (s.manifests.filter fun m' => m'.day = m.day) ++ [m] := by
    simp [addManifest, List.filter_append]
  rw [latestManifest, hfilter, List.argmax_concat]
  cases hlatest : s.latestManifest m.day with
  | none =>
    rw [latestManifest] at hlatest
    rw [hlatest]
  | some l =>
    have hlt : l.revision < m.revision := by
      rw [hrev, hlatest]
      exact Nat.lt_succ_self _
    rw [latestManifest] at hlatest
    rw [hlatest]
    exact if_pos hlt

theorem latestManifest_addManifest_of_ne (hday : m.day ≠ day) :
    (s.addManifest m).latestManifest day = s.latestManifest day := by
  simp [latestManifest, addManifest, List.filter_append, hday]

@[simp] theorem objects_putWORM_self (s : Stores) (key : Bytes) (o : Object) :
    (s.putWORM key o).objects key = some o := Function.update_self ..

theorem objects_putWORM_of_ne {key key' : Bytes} (h : key' ≠ key) (o : Object) :
    (s.putWORM key o).objects key' = s.objects key' := Function.update_of_ne h _ _

@[simp] theorem objects_addManifest (s : Stores) (m : ManifestRow) :
    (s.addManifest m).objects = s.objects := rfl

@[simp] theorem objects_sealChainHead (s : Stores) (day : Day) :
    (s.sealChainHead day).objects = s.objects := by
  unfold sealChainHead
  split
  · rfl
  · rfl

end Stores

/-! ## One export -/

namespace Exporter

variable {x : Exporter}

theorem orOwnSHA_reads (day : Day) (revision : Nat) (prior : Option ManifestRow) :
    (orOwnSHA day revision prior).Reads := by
  unfold orOwnSHA
  dsimp only
  split
  · exact .bind (.read _) fun own => .pure _
  · exact .pure _

theorem prevSHA_reads (day : Day) (revision : Nat) : (prevSHA day revision).Reads := by
  unfold prevSHA
  split
  · exact .bind (.read _) fun prior => orOwnSHA_reads day revision prior.join
  · exact orOwnSHA_reads day revision none

/-- The head `ExportDay` writes into the manifest. -/
def headOf (s : Stores) (day : Day) (last : Record) : Bytes :=
  ((s.heads.lookup day).map ChainHead.headHash).getD last.chainHash

/-- The manifest of the next revision is recorded, and the day sealed. -/
theorem sealDay_alone {s : Stores} {revision : Nat}
    (hrev : revision = nextRevision (s.latestManifest day)) {first : Record} {rest : List Record}
    {head prevSHA : Bytes} {man : Manifest}
    (hman : man = x.manifest day revision first rest head prevSHA s.now) :
    (x.sealDay day revision first rest head prevSHA).alone s =
      (.ok (some (x.row day man (first :: rest).length)),
        ((s.putWORM (manifestKey day revision) (.manifest man)).addManifest
          (x.row day man (first :: rest).length)).sealChainHead day) := by
  subst hman
  have hinsert := Stores.insertManifest_next
    (s := s.putWORM (manifestKey day revision)
      (.manifest (x.manifest day revision first rest head prevSHA s.now)))
    (m := x.row day (x.manifest day revision first rest head prevSHA s.now)
      (first :: rest).length) hrev
  rw [sealDay, Proc.alone_orFail_exec, Proc.alone_orFail_exec, hinsert]
  rfl

theorem exportDay_alone_nil {s : Stores} (h : s.chainScan day = []) :
    (x.exportDay day).alone s = (.ok none, s) := by
  rw [exportDay, Proc.alone_orFail_read, h]
  rfl

/-- **One export.**  The day's rows are in the file of the next revision, and the manifest
has the head of the checkpoint, or of the last row when there is none. -/
theorem exportDay_alone_cons {s : Stores} {first : Record} {rest : List Record}
    (h : s.chainScan day = first :: rest) :
    ∃ man : Manifest, man.revision = nextRevision (s.latestManifest day) ∧
      man.chainHead = headOf s day (rest.getLastD first) ∧
      ((x.exportDay day).alone s).1 = .ok (some (x.row day man (first :: rest).length)) ∧
      ((x.exportDay day).alone s).2.objects (fileKey day man.revision) =
        some (.parquet (first :: rest)) ∧
      ((x.exportDay day).alone s).2.objects (manifestKey day man.revision) =
        some (.manifest man) := by
  have hscan : (x.exportDay day).alone s = (x.exportRows day (first :: rest)).alone s := by
    rw [exportDay, Proc.alone_orFail_read, h]
  have hrev : nextRevision (s.latestManifest day) =
      nextRevision ((s.putWORM (fileKey day (nextRevision (s.latestManifest day)))
        (.parquet (first :: rest))).latestManifest day) := rfl
  rw [hscan, exportRows]
  simp only [Proc.alone_orFail_read, Proc.alone_orFail_exec]
  rw [Proc.alone_bind, (prevSHA_reads _ _).alone, Proc.alone_read_bind, sealDay_alone hrev rfl]
  refine ⟨_, rfl, rfl, rfl, ?_, ?_⟩
  · rw [Stores.objects_sealChainHead, Stores.objects_addManifest,
      Stores.objects_putWORM_of_ne (manifestKey_ne_fileKey _ _ _ _).symm]
    exact Stores.objects_putWORM_self ..
  · rw [Stores.objects_sealChainHead, Stores.objects_addManifest]
    exact Stores.objects_putWORM_self ..

end Exporter

end Windrose.Audit.Export

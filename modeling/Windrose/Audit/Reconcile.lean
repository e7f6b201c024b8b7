/-
  Audit/Reconcile.lean --- the seal scheduler beside the ingest.

  Source: services/audit-service/internal/export/export.go (Scheduler,
  ReconcileAndExport, ExportDay), pgstore/pgstore.go (ListUnsealedDays), chstore/chstore.go
  (DistinctPriorDays), chain/chain.go (AppendBatch) and ingest/processor.go (HandleBatch).

  One scheduler runs its passes while any number of callers append to the chains and
  insert rows.  An append gives its events their positions, on the day it runs or, for
  an event that has one, the old one; the row is inserted at any time after that, and
  perhaps again.  A step of a pass is one round trip, so that the ingest comes in
  between any two of them.

  A merge in the background removes no row here: `DISTINCT` sees every inserted one.
-/
import Windrose.Foundation.Runs
import Windrose.Audit.Sealing

set_option autoImplicit false

namespace Windrose.Audit.Export

open Windrose.Foundation

/-! ## The ingest -/

namespace Stores

variable (s : Stores)

/-- What the chain of one day is stored in. -/
def day (day : Day) : Store :=
  { assign := s.assign day.1
    seq := s.seq day
    head := s.head day
    checkpoint := (s.heads.lookup day).map fun h => (h.headHash, h.eventsCount)
    rows := s.dayRows day }

/-- Put the chain of a day back; appends write no row. -/
def putDay (day : Day) (t : Store) : Stores :=
  let s' := { s with
    assign := Function.update s.assign day.1 t.assign
    seq := Function.update s.seq day t.seq
    head := Function.update s.head day t.head }
  match t.checkpoint with
  | none => s'
  | some (headHash, count) => s'.upsertChainHead day headHash count

/-- `AppendBatch` now; the rows of the events that have a position wait to be inserted. -/
def append (sum256 : Bytes → Bytes) (tenant : Uuid) (env : Uuid → Envelope) (es : List Uuid)
    (fate : Cmd → Fate) : Stores :=
  let m : Manager := ⟨sum256, tenant, formatDate s.now.utc, true⟩
  let out := (m.appendBatch (es.map (buildPending env))).run fate (s.day (tenant, m.date))
  let s' := s.putDay (tenant, m.date) out.2
  match out.1 with
  | none => s'
  | some links => { s' with
      pending := s'.pending ++ (es.zip links).map fun p => m.rowOf env p.1 p.2 }

/-- `InsertBatch`. -/
def insert (rs : List Record) : Stores := { s with rows := s.rows ++ rs }

/-! ## What the scheduler asks -/

/-- By ascending date. -/
def byDate (days : List Day) : List Day := days.insertionSort fun a b => dateBefore b.2 a.2 = false

/-- `ListUnsealedDays`. -/
def unsealedDays (before : Bytes) : List Day :=
  byDate ((s.heads.entries.filter fun e =>
    e.2.sealedAt.isNone && dateBefore e.1.2 before).map Sigma.fst)

/-- `DistinctPriorDays`. -/
def distinctPriorDays (before : Bytes) : List Day :=
  byDate ((s.rows.map dayOf).dedup.filter fun day => dateBefore day.2 before)

end Stores

/-! ## A pass -/

/-- Where the scheduler is in `ReconcileAndExport`. -/
inductive Pass where
  | idle
  /-- before `ListUnsealedDays` -/
  | listing (today : Bytes)
  /-- before `DistinctPriorDays` -/
  | scanning (today : Bytes) (days : List Day)
  /-- the cross-check: before `GetChainHead` of the next day -/
  | checking (today : Bytes) (days rest : List Day)
  /-- no checkpoint: before `ChainTip` -/
  | tipping (today : Bytes) (days : List Day) (day : Day) (rest : List Day)
  /-- before `UpsertChainHead` -/
  | recovering (today : Bytes) (days : List Day) (day : Day) (tip : Nat × Bytes)
      (rest : List Day)
  /-- the exports: before `ChainScan` of the next day -/
  | exporting (today : Bytes) (queue : List Day)
  /-- within `ExportDay` -/
  | sealing (today : Bytes) (day : Day)
      (p : Proc Stores (Except ExportError (Option ManifestRow))) (queue : List Day)

namespace Pass

/-- The effect of the next round trip. -/
def effect (s : Stores) : Pass → Stores
  | recovering _ _ day tip _ => s.upsertChainHead day tip.2 tip.1
  | sealing _ _ (.call effect _ _) _ => effect s
  | _ => s

/-- Where an answer leads; the days that are queued are the ones that were seen. -/
def next (x : Exporter) (s : Stores) : Pass → Pass
  | idle => idle
  | listing today => scanning today (s.unsealedDays today)
  | scanning today days => checking today days (s.distinctPriorDays today)
  | checking today days [] => exporting today days
  | checking today days (day :: rest) =>
    if day ∈ days then checking today days rest
    else
      match s.heads.lookup day with
      | none => tipping today days day rest
      | some h =>
        if h.sealedAt.isSome then checking today days rest
        else checking today (days ++ [day]) rest
  | tipping today days day rest =>
    match s.chainTip day with
    | none => checking today days rest
    | some tip => recovering today days day tip rest
  | recovering today days day _ rest => checking today (days ++ [day]) rest
  | exporting _ [] => idle
  | exporting today (day :: queue) => sealing today day (x.exportRows day (s.chainScan day)) queue
  | sealing today _ (.done _) queue => exporting today queue
  | sealing today day (.call _ next _) queue => sealing today day (next s) queue

/-- Where an error leads: it is logged, and the pass goes on. -/
def failed : Pass → Pass
  | listing today => scanning today []
  | scanning today days => checking today days []
  | checking today days (_ :: rest) => checking today days rest
  | tipping today days _ rest => checking today days rest
  | recovering today days _ _ rest => checking today days rest
  | exporting today (_ :: queue) => exporting today queue
  | sealing today day (.call _ _ failed) queue => sealing today day failed queue
  | p => p

/-- The day the pass began on. -/
def today? : Pass → Option Bytes
  | idle => none
  | listing today | scanning today _ | checking today _ _ | tipping today _ _ _
  | recovering today _ _ _ _ | exporting today _ | sealing today _ _ _ => some today

/-- The day is still to be scanned by this pass, as far as it knows. -/
def ahead (day : Day) : Pass → Prop
  | idle | listing _ | scanning _ _ => True
  | checking _ days rest => day ∈ days ∨ day ∈ rest
  | tipping _ days d rest | recovering _ days d _ rest => day ∈ days ∨ day = d ∨ day ∈ rest
  | exporting _ queue | sealing _ _ _ queue => day ∈ queue

instance (day : Day) : ∀ p, Decidable (ahead day p)
  | idle | listing _ | scanning _ _ => .isTrue trivial
  | checking _ _ _ => inferInstanceAs (Decidable (_ ∨ _))
  | tipping _ _ _ _ | recovering _ _ _ _ _ => inferInstanceAs (Decidable (_ ∨ _ ∨ _))
  | exporting _ queue | sealing _ _ _ queue => inferInstanceAs (Decidable (day ∈ queue))

end Pass

/-- The stores, and the scheduler. -/
structure System where
  stores : Stores
  pass : Pass

/-- The steps: time, the ingest, and the scheduler. -/
inductive Event where
  | clock (now : Time)
  | append (tenant : Uuid) (env : Uuid → Envelope) (es : List Uuid) (fate : Cmd → Fate)
  /-- the assignment of an event, or the counter and the head of a day, expires -/
  | expireAssign (tenant event : Uuid)
  | expireChain (day : Day)
  | insert (rs : List Record)
  | start
  | tick (fate : Fate)

/-- One step; rows are inserted only when they wait for it. -/
def step (x : Exporter) (sys : System) : Event → System
  | .clock now => { sys with stores := { sys.stores with now } }
  | .append tenant env es fate =>
    { sys with stores := sys.stores.append x.sum256 tenant env es fate }
  | .expireAssign tenant event =>
    { sys with stores := { sys.stores with
        assign := Function.update sys.stores.assign tenant
          (Function.update (sys.stores.assign tenant) event none) } }
  | .expireChain day =>
    { sys with stores := { sys.stores with
        seq := Function.update sys.stores.seq day none
        head := Function.update sys.stores.head day none } }
  | .insert rs =>
    if ∀ r ∈ rs, r ∈ sys.stores.pending then { sys with stores := sys.stores.insert rs }
    else sys
  | .start =>
    match sys.pass with
    | .idle => { sys with pass := .listing (formatDate sys.stores.now.utc) }
    | _ => sys
  | .tick .ok => ⟨sys.pass.effect sys.stores, sys.pass.next x sys.stores⟩
  | .tick .error => ⟨sys.stores, sys.pass.failed⟩
  | .tick .crash => ⟨sys.pass.effect sys.stores, .idle⟩

/-! ## Coverage -/

/-- The rows of a file. -/
def Stores.fileAt (s : Stores) (key : Bytes) : List Record :=
  match s.objects key with
  | some (.parquet rows) => rows
  | _ => []

/-- The row is in the file of the latest revision of its day. -/
def Exported (s : Stores) (r : Record) : Prop :=
  ∃ m ∈ s.latestManifest (dayOf r), r ∈ s.fileAt (fileKey (dayOf r) m.revision)

instance (s : Stores) (r : Record) : Decidable (Exported s r) :=
  inferInstanceAs (Decidable (∃ m ∈ s.latestManifest (dayOf r), _))

/-- Every stored row of the days before `today` is exported. -/
def Covered (s : Stores) (today : Bytes) : Prop :=
  ∀ r ∈ finalRows s.rows, dateBefore r.chainDate today = true → Exported s r

instance (s : Stores) (today : Bytes) : Decidable (Covered s today) :=
  inferInstanceAs (Decidable (∀ r ∈ finalRows s.rows, _))

/-- The rows that are new to the store belong to days that are not sealed, and that the pass
under way, if their days have ended for it, is still to scan. -/
def Timely (sys : System) : Event → Prop
  | .insert rs => ∀ r ∈ rs, r ∈ finalRows sys.stores.rows ∨
      sys.stores.isSealed (dayOf r) = false ∧ ∀ today ∈ sys.pass.today?,
        dateBefore r.chainDate today = true → sys.pass.ahead (dayOf r)
  | _ => True

instance (sys : System) : ∀ ev, Decidable (Timely sys ev)
  | .insert rs => inferInstanceAs (Decidable (∀ r ∈ rs, _ ∨ _ ∧ _))
  | .clock _ | .append _ _ _ _ | .expireAssign _ _ | .expireChain _ | .start | .tick _ =>
    .isTrue trivial

/-- The scheduler's round trips all answer. -/
def Answered : Event → Prop
  | .tick fate => fate = .ok
  | _ => True

instance : ∀ ev, Decidable (Answered ev)
  | .tick fate => inferInstanceAs (Decidable (fate = .ok))
  | .clock _ | .append _ _ _ _ | .expireAssign _ _ | .expireChain _ | .start | .insert _ =>
    .isTrue trivial

/-- The rows of one day are exported. -/
def CoveredDay (s : Stores) (day : Day) : Prop := ∀ r ∈ s.dayRows day, Exported s r

variable {s s' : Stores} {day : Day} {r : Record} {rows rs : List Record} {today : Bytes} {p : Pass}
  {days : List Day}

theorem mem_dayRows : r ∈ s.dayRows day ↔ r ∈ finalRows s.rows ∧ dayOf r = day := by
  rw [Stores.dayRows, List.mem_filter, decide_eq_true_eq]

theorem mem_chainScan : r ∈ s.chainScan day ↔ r ∈ s.dayRows day := List.mem_insertionSort _

theorem mem_finalRows_append (h : r ∈ finalRows (rows ++ rs)) : r ∈ finalRows rows ∨ r ∈ rs := by
  induction rows with
  | nil => exact .inr ((finalRows_sublist rs).mem h)
  | cons a rows ih =>
    rw [List.cons_append, finalRows] at h
    split at h
    · obtain hold | hnew := ih h
      · rw [finalRows]
        split
        · exact .inl hold
        · exact .inl (List.mem_cons_of_mem a hold)
      · exact .inr hnew
    · next hlast =>
      have hlast' : ¬ rows.any (fun r' => r'.key == a.key) = true := by
        intro hany
        rw [List.any_append, hany] at hlast
        exact hlast rfl
      rw [finalRows, if_neg hlast']
      obtain rfl | hrest := List.mem_cons.mp h
      · exact .inl List.mem_cons_self
      · exact (ih hrest).imp_left (List.mem_cons_of_mem a)

/-! ## What the ingest leaves alone -/

/-- The steps beside a pass do not touch the manifests and the bucket. -/
def Beside (s s' : Stores) : Prop := s'.manifests = s.manifests ∧ s'.objects = s.objects

theorem Beside.exported (h : Beside s s') : Exported s' r ↔ Exported s r := by
  simp only [Exported, Stores.latestManifest, Stores.fileAt, h.1, h.2]

/-- The same rows, manifests, objects and seals. -/
structure Alike (s s' : Stores) : Prop where
  beside : Beside s s'
  rows : s'.rows = s.rows
  isSealed : ∀ day, s'.isSealed day = s.isSealed day

theorem Stores.isSealed_upsertChainHead (s : Stores) (day day' : Day) (headHash : Bytes)
    (count : Nat) : (s.upsertChainHead day headHash count).isSealed day' = s.isSealed day' := by
  unfold Stores.isSealed Stores.upsertChainHead
  by_cases h : day' = day
  · subst h
    rw [AList.lookup_insert]
    cases s.heads.lookup day' with
    | none => rfl
    | some head => rfl
  · rw [AList.lookup_insert_ne h]

theorem alike_upsertChainHead (s : Stores) (day : Day) (headHash : Bytes) (count : Nat) :
    Alike s (s.upsertChainHead day headHash count) :=
  ⟨⟨rfl, rfl⟩, rfl, fun day' => s.isSealed_upsertChainHead day day' headHash count⟩

theorem alike_putDay (s : Stores) (day : Day) (t : Store) : Alike s (s.putDay day t) := by
  unfold Stores.putDay
  dsimp only
  split
  · exact ⟨⟨rfl, rfl⟩, rfl, fun _ => rfl⟩
  · next headHash count _ =>
    exact ⟨⟨rfl, rfl⟩, rfl, fun day' => Stores.isSealed_upsertChainHead _ day day' headHash count⟩

theorem alike_append (s : Stores) (sum256 : Bytes → Bytes) (tenant : Uuid)
    (env : Uuid → Envelope) (es : List Uuid) (fate : Cmd → Fate) :
    Alike s (s.append sum256 tenant env es fate) := by
  unfold Stores.append
  dsimp only
  split
  · exact alike_putDay s _ _
  · obtain ⟨hbeside, hrows, hsealed⟩ := alike_putDay s (tenant, formatDate s.now.utc)
      ((Manager.appendBatch ⟨sum256, tenant, formatDate s.now.utc, true⟩
        (es.map (buildPending env))).run fate (s.day (tenant, formatDate s.now.utc))).2
    exact ⟨hbeside, hrows, hsealed⟩

theorem Alike.coveredDay (h : Alike s s') (hc : CoveredDay s day) : CoveredDay s' day := by
  intro r hr
  rw [mem_dayRows, h.rows, ← mem_dayRows] at hr
  exact h.beside.exported.mpr (hc r hr)

/-! ## Within one export -/

/-- What holds while `ExportDay` works on the scanned rows of a day. -/
structure SealInv (today : Bytes) (day : Day) (queue : List Day) (rows : List Record)
    (s : Stores) : Prop where
  base : ∀ day', s.isSealed day' = true → CoveredDay s day'
  captured : ∀ r ∈ s.dayRows day, r ∈ rows
  owed : ∀ day', dateBefore day'.2 today = true →
    CoveredDay s day' ∨ day' = day ∨ day' ∈ queue

theorem SealInv.command {queue : List Day}
    (h : SealInv today day queue rows s) (hrows : s'.rows = s.rows)
    (hcovered : ∀ day', CoveredDay s day' → CoveredDay s' day')
    (hsealed : ∀ day', s'.isSealed day' = true → s.isSealed day' = true ∨ CoveredDay s' day') :
    SealInv today day queue rows s' := by
  refine ⟨fun day' hday' => ?_, fun r hr => ?_, fun day' hday' => ?_⟩
  · obtain hold | hnew := hsealed day' hday'
    · exact hcovered day' (h.base day' hold)
    · exact hnew
  · rw [mem_dayRows, hrows, ← mem_dayRows] at hr
    exact h.captured r hr
  · exact (h.owed day' hday').imp_left (hcovered day')

theorem fileAt_putWORM_of_ne {key key' : Bytes} (h : key' ≠ key) (o : Object) :
    (s.putWORM key o).fileAt key' = s.fileAt key' := by
  rw [Stores.fileAt, Stores.fileAt, Stores.objects_putWORM_of_ne h]

theorem coveredDay_putWORM {key : Bytes} (o : Object)
    (hkey : ∀ day, ∀ m ∈ s.latestManifest day, fileKey day m.revision ≠ key)
    (h : CoveredDay s day) : CoveredDay (s.putWORM key o) day := by
  intro r hr
  obtain ⟨m, hm, hfile⟩ := h r hr
  refine ⟨m, hm, ?_⟩
  rw [fileAt_putWORM_of_ne (hkey (dayOf r) m hm)]
  exact hfile

theorem fileKey_next_ne (s : Stores) (day : Day) : ∀ day', ∀ m ∈ s.latestManifest day',
      fileKey day' m.revision ≠ fileKey day (nextRevision (s.latestManifest day)) := by
  intro day' m hm heq
  obtain ⟨rfl, hrev⟩ := fileKey_inj heq
  rw [Option.mem_def.mp hm] at hrev
  exact absurd hrev (Nat.ne_of_lt (Nat.lt_succ_self _))

theorem exported_addManifest {m : ManifestRow}
    (hrev : m.revision = nextRevision (s.latestManifest m.day))
    (hday : dayOf r = m.day) (hfile : r ∈ s.fileAt (fileKey m.day m.revision)) :
    Exported (s.addManifest m) r := by
  refine ⟨m, ?_, ?_⟩
  · rw [hday]
    exact Stores.latestManifest_addManifest hrev
  · rw [hday]
    exact hfile

theorem coveredDay_addManifest {m : ManifestRow}
    (hrev : m.revision = nextRevision (s.latestManifest m.day))
    (hfile : ∀ r ∈ s.dayRows m.day, r ∈ s.fileAt (fileKey m.day m.revision))
    (h : CoveredDay s day) : CoveredDay (s.addManifest m) day := by
  intro r hr
  by_cases hday : m.day = dayOf r
  · exact exported_addManifest hrev hday.symm
      (hfile r (mem_dayRows.mpr ⟨(mem_dayRows.mp hr).1, hday.symm⟩))
  · obtain ⟨m', hm', hfile'⟩ := h r hr
    refine ⟨m', ?_, hfile'⟩
    rw [Stores.latestManifest_addManifest_of_ne hday]
    exact hm'

theorem isSealed_sealChainHead {day' : Day}
    (h : (s.sealChainHead day).isSealed day' = true) : s.isSealed day' = true ∨ day' = day := by
  by_cases hday : day' = day
  · exact .inr hday
  · left
    unfold Stores.sealChainHead at h
    split at h
    · exact h
    · rw [Stores.isSealed, AList.lookup_insert_ne hday] at h
      exact h

theorem beside_sealChainHead (s : Stores) (day : Day) : Beside s (s.sealChainHead day) := by
  unfold Stores.sealChainHead
  split
  · exact ⟨rfl, rfl⟩
  · exact ⟨rfl, rfl⟩

theorem rows_sealChainHead (s : Stores) (day : Day) : (s.sealChainHead day).rows = s.rows := by
  unfold Stores.sealChainHead
  split
  · rfl
  · rfl

/-- The rows are in the file of the revision to come. -/
def Filed (day : Day) (latest : Option ManifestRow) (rows : List Record) (s : Stores) : Prop :=
  s.latestManifest day = latest ∧ s.fileAt (fileKey day (nextRevision latest)) = rows

theorem stable_filed (day : Day) (latest : Option ManifestRow) (rows : List Record) :
    Proc.Stable Beside (Filed day latest rows) := by
  intro s t h hfiled
  rw [Filed, Stores.latestManifest, Stores.fileAt, h.1, h.2]
  exact hfiled

theorem stable_exported (rows : List Record) :
    Proc.Stable Beside fun s => ∀ r ∈ rows, Exported s r := by
  intro s t h hrows r hr
  exact h.exported.mpr (hrows r hr)

theorem stable_and {p : Prop} {P : Stores → Prop} (h : Proc.Stable Beside P) :
    Proc.Stable Beside fun s => p ∧ P s :=
  fun s t hst hp => ⟨hp.1, h s t hst hp.2⟩

section Ends

variable (x : Exporter) {today : Bytes} {day : Day} {queue : List Day}

theorem sealDay_ends (latest : Option ManifestRow) {first : Record} {rest : List Record}
    (hday : ∀ r ∈ first :: rest, dayOf r = day) (head prevSHA : Bytes) :
    Proc.Ends Beside (SealInv today day queue (first :: rest))
      (x.sealDay day (nextRevision latest) first rest head prevSHA)
      (Filed day latest (first :: rest)) fun _ s => CoveredDay s day := by
  refine Proc.Ends.orFail_exec
    (fun man s => man.revision = nextRevision latest ∧ Filed day latest (first :: rest) s)
    (fun man => stable_and (stable_filed _ _ _)) ?_ fun man => ?_
  · intro s hinv hfiled
    have hkey := fun day' m => (manifestKey_ne_fileKey day day' (nextRevision latest) m).symm
    refine ⟨hinv.command rfl
      (fun day' h => coveredDay_putWORM _ (fun day'' m _ => hkey day'' m.revision) h)
      fun day' h => .inl h, rfl, hfiled.1, ?_⟩
    rw [fileAt_putWORM_of_ne (hkey day _)]
    exact hfiled.2
  refine Proc.Ends.orFail_exec
    (fun inserted s => inserted = true ∧ ∀ r ∈ first :: rest, Exported s r)
    (fun inserted => stable_and (stable_exported _)) ?_ fun inserted => ?_
  · rintro s hinv ⟨hman, hlatest, hfile⟩
    have hrev : (x.row day man (first :: rest).length).revision =
        nextRevision (s.latestManifest day) := by
      rw [hlatest]
      exact hman
    have hfile' : s.fileAt (fileKey day (x.row day man (first :: rest).length).revision) =
        first :: rest := by
      rw [hrev, hlatest]
      exact hfile
    rw [Stores.insertManifest_next (m := x.row day man (first :: rest).length) hrev]
    refine ⟨hinv.command rfl (fun day' h => coveredDay_addManifest hrev (fun r hr => ?_) h)
      (fun day' h => .inl h), rfl, fun r hr => exported_addManifest hrev (hday r hr) ?_⟩
    · rw [show (x.row day man (first :: rest).length).day = day from rfl] at hr ⊢
      rw [hfile']
      exact hinv.captured r hr
    · rw [show (x.row day man (first :: rest).length).day = day from rfl, hfile']
      exact hr
  split
  · next hfalse => exact Proc.Ends.pure fun s _ h => absurd h.1 (by rw [hfalse]; decide)
  refine Proc.Ends.orFail_exec (fun _ s => ∀ r ∈ first :: rest, Exported s r)
    (fun _ => stable_exported _) ?_ fun _ => ?_
  · rintro s hinv ⟨-, hrows⟩
    have hbeside := beside_sealChainHead s day
    have hcovered : ∀ day', CoveredDay s day' → CoveredDay (s.sealChainHead day) day' := by
      intro day' h r hr
      rw [mem_dayRows, rows_sealChainHead, ← mem_dayRows] at hr
      exact hbeside.exported.mpr (h r hr)
    refine ⟨hinv.command (rows_sealChainHead s day) hcovered fun day' h => ?_,
      fun r hr => hbeside.exported.mpr (hrows r hr)⟩
    refine (isSealed_sealChainHead h).imp_right ?_
    rintro rfl
    exact hcovered _ fun r hr => hrows r (hinv.captured r hr)
  · exact Proc.Ends.pure fun s hinv hrows r hr => hrows r (hinv.captured r hr)

/-- **`ExportDay` behind its scan** covers the day, whatever comes in between. -/
theorem exportRows_ends (hday : ∀ r ∈ rows, dayOf r = day) :
    Proc.Ends Beside (SealInv today day queue rows) (x.exportRows day rows) (fun _ => True)
      fun _ s => CoveredDay s day := by
  cases rows with
  | nil => exact Proc.Ends.pure fun s hinv _ r hr => absurd (hinv.captured r hr) (by simp)
  | cons first rest =>
    refine Proc.Ends.orFail_read (fun latest s => s.latestManifest day = latest) ?_
      (fun s _ _ => rfl) fun latest => ?_
    · intro latest s t h hlatest
      rw [Stores.latestManifest, h.1]
      exact hlatest
    refine Proc.Ends.orFail_exec (fun _ => Filed day latest (first :: rest))
      (fun _ => stable_filed _ _ _) ?_ fun _ => ?_
    · intro s hinv hlatest
      subst hlatest
      refine ⟨hinv.command rfl
        (fun day' h => coveredDay_putWORM _ (fileKey_next_ne s day) h) fun day' h => .inl h,
        rfl, ?_⟩
      rw [Stores.fileAt, Stores.objects_putWORM_self]
    refine Proc.Ends.bind
      ((Exporter.prevSHA_reads day (nextRevision latest)).ends (stable_filed _ _ _))
      fun prevSHA => ?_
    refine Proc.Ends.read_bind (fun _ => Filed day latest (first :: rest))
      (fun _ => stable_filed _ _ _) (fun s _ h => h) fun checkpoint => ?_
    exact sealDay_ends x latest hday _ _

end Ends

/-! ## The invariant -/

/-- Different days before today. -/
def DaysOk (today : Bytes) (days : List Day) : Prop :=
  days.Nodup ∧ ∀ day ∈ days, dateBefore day.2 today = true

/-- The day is still to be scanned, or being exported. -/
def Pass.owes (day : Day) : Pass → Prop
  | .sealing _ d _ queue => day = d ∨ day ∈ queue
  | p => p.ahead day

/-- What the scheduler carries along. -/
def PassOk (s : Stores) : Pass → Prop
  | .idle | .listing _ => True
  | .scanning today days => DaysOk today days
  | .checking today days rest => DaysOk today days ∧ DaysOk today rest
  | .tipping today days day rest | .recovering today days day _ rest =>
    DaysOk today (days ++ [day]) ∧ DaysOk today rest
  | .exporting today queue => DaysOk today queue
  | .sealing today day p queue => DaysOk today (day :: queue) ∧ ∃ rows P,
      (∀ r ∈ s.dayRows day, r ∈ rows) ∧ Proc.Stable Beside P ∧ P s ∧
        Proc.Ends Beside (SealInv today day queue rows) p P fun _ s => CoveredDay s day

/-- **The invariant.**  Sealed days are covered, and so is every ended day that the pass
does not owe any more. -/
structure Inv (sys : System) : Prop where
  base : ∀ day, sys.stores.isSealed day = true → CoveredDay sys.stores day
  owed : ∀ today ∈ sys.pass.today?, ∀ day, dateBefore day.2 today = true →
    CoveredDay sys.stores day ∨ sys.pass.owes day
  pass : PassOk sys.stores sys.pass

theorem Pass.owes_of_ahead (h : p.ahead day) : p.owes day := by
  cases p with
  | sealing today d q queue => exact .inr h
  | idle | listing _ | scanning _ _ | checking _ _ _ | tipping _ _ _ _ | recovering _ _ _ _ _
  | exporting _ _ => exact h

theorem Inv.init (now : Time) : Inv ⟨Stores.empty now, .idle⟩ := by
  refine ⟨fun day h => ?_, fun today h => ?_, trivial⟩
  · cases h
  · cases h

theorem Inv.alike (h : Inv ⟨s, p⟩) (halike : Alike s s') : Inv ⟨s', p⟩ := by
  refine ⟨fun day hday => ?_, fun today htoday day hday => ?_, ?_⟩
  · exact halike.coveredDay (h.base day (by rw [← halike.isSealed]; exact hday))
  · exact (h.owed today htoday day hday).imp_left halike.coveredDay
  · have hpass := h.pass
    cases p with
    | sealing today day q queue =>
      obtain ⟨hdays, rows, P, hcaptured, hstable, hp, hends⟩ := hpass
      refine ⟨hdays, rows, P, fun r hr => ?_, hstable, hstable _ _ halike.beside hp, hends⟩
      rw [mem_dayRows, halike.rows, ← mem_dayRows] at hr
      exact hcaptured r hr
    | idle | listing _ | scanning _ _ | checking _ _ _ | tipping _ _ _ _
    | recovering _ _ _ _ _ | exporting _ _ => exact hpass

theorem Timely.dayRows (h : Timely ⟨s, p⟩ (.insert rs)) (hr : r ∈ (s.insert rs).dayRows day) :
    r ∈ s.dayRows day ∨ s.isSealed day = false ∧ ∀ today ∈ p.today?,
      dateBefore day.2 today = true → p.ahead day := by
  obtain ⟨hmem, rfl⟩ := mem_dayRows.mp hr
  obtain hold | hnew := mem_finalRows_append hmem
  · exact .inl (mem_dayRows.mpr ⟨hold, rfl⟩)
  · exact (h r hnew).imp_left fun hold => mem_dayRows.mpr ⟨hold, rfl⟩

theorem Inv.insert (h : Inv ⟨s, p⟩)
    (htimely : Timely ⟨s, p⟩ (.insert rs)) : Inv ⟨s.insert rs, p⟩ := by
  have hexported : ∀ r, Exported s r → Exported (s.insert rs) r := fun r hr => hr
  refine ⟨fun day hday r hr => ?_, fun today htoday day hday => ?_, ?_⟩
  · obtain hold | ⟨hunsealed, -⟩ := htimely.dayRows hr
    · exact hexported r (h.base day hday r hold)
    · rw [show s.isSealed day = true from hday] at hunsealed
      cases hunsealed
  · by_cases hahead : p.ahead day
    · exact .inr (Pass.owes_of_ahead hahead)
    · refine (h.owed today htoday day hday).imp_left fun hcovered r hr => ?_
      obtain hold | ⟨-, hnew⟩ := htimely.dayRows hr
      · exact hexported r (hcovered r hold)
      · exact absurd (hnew today htoday hday) hahead
  · have hpass := h.pass
    cases p with
    | sealing today day q queue =>
      obtain ⟨hdays, rows, P, hcaptured, hstable, hp, hends⟩ := hpass
      refine ⟨hdays, rows, P, fun r hr => ?_, hstable, hstable s _ ⟨rfl, rfl⟩ hp, hends⟩
      obtain hold | ⟨-, hnew⟩ := htimely.dayRows hr
      · exact hcaptured r hold
      · -- The day is being exported, and it is not queued once more.
        have hqueue : day ∈ queue := hnew today rfl (hdays.2 day List.mem_cons_self)
        exact absurd hqueue (List.nodup_cons.mp hdays.1).1
    | idle | listing _ | scanning _ _ | checking _ _ _ | tipping _ _ _ _
    | recovering _ _ _ _ _ | exporting _ _ => exact hpass

/-! ## The steps of the scheduler -/

theorem DaysOk.byDate (hnodup : days.Nodup)
    (hbefore : ∀ day ∈ days, dateBefore day.2 today = true) :
    DaysOk today (Stores.byDate days) := by
  have hperm : (Stores.byDate days).Perm days := List.perm_insertionSort _ days
  exact ⟨hperm.nodup_iff.mpr hnodup, fun day hday => hbefore day (hperm.subset hday)⟩

theorem daysOk_unsealedDays (s : Stores) (today : Bytes) : DaysOk today (s.unsealedDays today) := by
  refine .byDate ?_ fun day hday => ?_
  · exact (List.Sublist.map _ List.filter_sublist).nodup s.heads.keys_nodup
  · obtain ⟨e, he, rfl⟩ := List.mem_map.mp hday
    rw [List.mem_filter, Bool.and_eq_true] at he
    exact he.2.2

theorem daysOk_distinctPriorDays (s : Stores) (today : Bytes) :
    DaysOk today (s.distinctPriorDays today) := by
  refine .byDate ((List.nodup_dedup _).filter _) fun day hday => ?_
  exact (List.mem_filter.mp hday).2

theorem mem_distinctPriorDays (hr : r ∈ s.dayRows day) (hday : dateBefore day.2 today = true) :
    day ∈ s.distinctPriorDays today := by
  obtain ⟨hmem, rfl⟩ := mem_dayRows.mp hr
  refine (List.mem_insertionSort _).mpr (List.mem_filter.mpr ⟨?_, hday⟩)
  exact List.mem_dedup.mpr (List.mem_map.mpr ⟨r, (finalRows_sublist _).mem hmem, rfl⟩)

theorem DaysOk.concat (h : DaysOk today days)
    (hnew : day ∉ days) (hday : dateBefore day.2 today = true) : DaysOk today (days ++ [day]) := by
  refine ⟨List.nodup_append.mpr ⟨h.1, List.nodup_singleton day, ?_⟩, fun d hd => ?_⟩
  · rintro a ha b hb rfl
    exact hnew (List.mem_singleton.mp hb ▸ ha)
  · obtain hold | hnew := List.mem_append.mp hd
    · exact h.2 d hold
    · rw [List.mem_singleton.mp hnew]
      exact hday

theorem DaysOk.tail (h : DaysOk today (day :: days)) : DaysOk today days :=
  ⟨(List.nodup_cons.mp h.1).2, fun d hd => h.2 d (List.mem_cons_of_mem day hd)⟩

section Tick

variable {s : Stores} {today : Bytes} {days rest queue : List Day} {day : Day}

theorem Inv.skip (h : Inv ⟨s, .checking today days (day :: rest)⟩)
    (hday : day ∈ days ∨ CoveredDay s day) : Inv ⟨s, .checking today days rest⟩ := by
  refine ⟨h.base, fun t ht d hd => ?_, h.pass.1, h.pass.2.tail⟩
  obtain hcovered | hdays | hrest := h.owed t ht d hd
  · exact .inl hcovered
  · exact .inr (.inl hdays)
  · obtain rfl | hrest := List.mem_cons.mp hrest
    · exact hday.symm.imp_right .inl
    · exact .inr (.inr hrest)

theorem Inv.queueDay (hbase : ∀ d, s.isSealed d = true → CoveredDay s d)
    (howed : ∀ d, dateBefore d.2 today = true → CoveredDay s d ∨ d ∈ days ∨ d = day ∨ d ∈ rest)
    (hdays : DaysOk today (days ++ [day])) (hrest : DaysOk today rest) :
    Inv ⟨s, .checking today (days ++ [day]) rest⟩ := by
  refine ⟨hbase, fun t ht d hd => ?_, hdays, hrest⟩
  obtain rfl : today = t := Option.some.inj ht
  refine (howed d hd).imp_right ?_
  rintro (hold | rfl | hlater)
  · exact .inl (List.mem_append_left _ hold)
  · exact .inl (List.mem_append_right _ (List.mem_singleton_self _))
  · exact .inr hlater

theorem Inv.check (x : Exporter) (h : Inv ⟨s, .checking today days (day :: rest)⟩) :
    Inv ⟨s, Pass.next x s (.checking today days (day :: rest))⟩ := by
  have howed : ∀ d, dateBefore d.2 today = true →
      CoveredDay s d ∨ d ∈ days ∨ d = day ∨ d ∈ rest := by
    intro d hd
    refine (h.owed today rfl d hd).imp_right fun howes => ?_
    exact howes.imp_right List.mem_cons.mp
  rw [Pass.next]
  split
  · next hmem => exact h.skip (.inl hmem)
  · next hmem =>
    have hdays := h.pass.1.concat hmem (h.pass.2.2 day List.mem_cons_self)
    split
    · exact ⟨h.base, fun t ht d hd => by
        obtain rfl : today = t := Option.some.inj ht
        exact howed d hd, hdays, h.pass.2.tail⟩
    · next head hlookup =>
      split
      · next hsealed =>
        refine h.skip (.inr (h.base day ?_))
        rw [Stores.isSealed, hlookup]
        exact hsealed
      · exact Inv.queueDay h.base howed hdays h.pass.2.tail

theorem Inv.tip (x : Exporter) (h : Inv ⟨s, .tipping today days day rest⟩) :
    Inv ⟨s, Pass.next x s (.tipping today days day rest)⟩ := by
  rw [Pass.next]
  split
  · next htip =>
    have hempty : CoveredDay s day := by
      rw [Stores.chainTip, Option.map_eq_none_iff, List.getLast?_eq_none_iff] at htip
      intro r hr
      rw [← mem_chainScan, htip] at hr
      cases hr
    have hdays : DaysOk today days :=
      ⟨(List.nodup_append.mp h.pass.1.1).1, fun d hd => h.pass.1.2 d (List.mem_append_left _ hd)⟩
    refine ⟨h.base, fun t ht d hd => ?_, hdays, h.pass.2⟩
    obtain hcovered | hold | rfl | hlater := h.owed t ht d hd
    · exact .inl hcovered
    · exact .inr (.inl hold)
    · exact .inl hempty
    · exact .inr (.inr hlater)
  · exact ⟨h.base, h.owed, h.pass⟩

theorem Inv.beginExport (x : Exporter) (h : Inv ⟨s, .exporting today (day :: queue)⟩) :
    Inv ⟨s, .sealing today day (x.exportRows day (s.chainScan day)) queue⟩ := by
  refine ⟨h.base, fun t ht d hd => ?_, h.pass, s.chainScan day, fun _ => True,
    fun r hr => mem_chainScan.mpr hr, fun _ _ _ _ => trivial, trivial, ?_⟩
  · exact (h.owed t ht d hd).imp_right List.mem_cons.mp
  · exact exportRows_ends x fun r hr => (mem_dayRows.mp (mem_chainScan.mp hr)).2

theorem Inv.seal (x : Exporter) {p : Proc Stores (Except ExportError (Option ManifestRow))}
    (h : Inv ⟨s, .sealing today day p queue⟩) : Inv ⟨Pass.effect s (.sealing today day p queue),
      Pass.next x s (.sealing today day p queue)⟩ := by
  obtain ⟨hdays, rows, P, hcaptured, hstable, hp, hends⟩ := h.pass
  have hseal : SealInv today day queue rows s :=
    ⟨h.base, hcaptured, fun d hd => h.owed today rfl d hd⟩
  cases p with
  | done a =>
    have hcovered : CoveredDay s day := hends s hseal hp
    refine ⟨h.base, fun t ht d hd => ?_, hdays.tail⟩
    obtain hd | rfl | hqueue := h.owed t ht d hd
    · exact .inl hd
    · exact .inl hcovered
    · exact .inr hqueue
  | call effect next failed =>
    obtain ⟨hseal', P', hstable', hp', hends'⟩ := hends s hseal hp
    refine ⟨hseal'.base, fun t ht d hd => ?_, hdays, rows, P', hseal'.captured, hstable', hp',
      hends'⟩
    obtain rfl : today = t := Option.some.inj ht
    exact hseal'.owed d hd

theorem Inv.tick (x : Exporter) (h : Inv ⟨s, p⟩) : Inv ⟨p.effect s, p.next x s⟩ := by
  match p with
  | .idle => exact h
  | .listing today => exact ⟨h.base, fun t ht d hd => .inr trivial, daysOk_unsealedDays s today⟩
  | .scanning today days =>
    refine ⟨h.base, fun t ht d hd => ?_, h.pass, daysOk_distinctPriorDays s today⟩
    obtain rfl : today = t := Option.some.inj ht
    by_cases hnone : s.dayRows d = []
    · left
      intro r hr
      have hr' : r ∈ s.dayRows d := hr
      rw [hnone] at hr'
      cases hr'
    · obtain ⟨r, hr⟩ := List.exists_mem_of_ne_nil _ hnone
      exact .inr (.inr (mem_distinctPriorDays hr hd))
  | .checking today days [] =>
    refine ⟨h.base, fun t ht d hd => ?_, h.pass.1⟩
    refine (h.owed t ht d hd).imp_right ?_
    rintro (hdays | hnil)
    · exact hdays
    · cases hnil
  | .checking today days (day :: rest) => exact h.check x
  | .tipping today days day rest => exact h.tip x
  | .recovering today days day tip rest =>
    have halike := h.alike (alike_upsertChainHead s day tip.2 tip.1)
    exact Inv.queueDay halike.base (fun d hd => halike.owed today rfl d hd) halike.pass.1
      halike.pass.2
  | .exporting today [] =>
    refine ⟨h.base, fun t ht => ?_, trivial⟩
    cases ht
  | .exporting today (day :: queue) => exact h.beginExport x
  | .sealing today day q queue => exact h.seal x

theorem Inv.covered_of_end {x : Exporter} (h : Inv ⟨s, p⟩)
    (htoday : p.today? = some today) (hend : (p.next x s).today? = none) :
    Covered (p.effect s) today := by
  match p with
  | .idle => cases htoday
  | .exporting t [] =>
    intro r hr hbefore
    obtain hcovered | hnil := h.owed today htoday (dayOf r) hbefore
    · exact hcovered r (mem_dayRows.mpr ⟨hr, rfl⟩)
    · cases hnil
  | .listing _ => cases hend
  | .scanning _ _ => cases hend
  | .checking _ _ [] => cases hend
  | .checking _ days (day :: _) =>
    rw [Pass.next] at hend
    split at hend
    · cases hend
    · split at hend
      · cases hend
      · split at hend
        · cases hend
        · cases hend
  | .tipping _ _ _ _ =>
    rw [Pass.next] at hend
    split at hend
    · cases hend
    · cases hend
  | .recovering _ _ _ _ _ => cases hend
  | .exporting _ (_ :: _) => cases hend
  | .sealing _ _ (.done _) _ => cases hend
  | .sealing _ _ (.call _ _ _) _ => cases hend

end Tick

/-! ## Runs -/

theorem Inv.step (x : Exporter) {sys : System} (h : Inv sys) {ev : Event} (hanswered : Answered ev)
    (htimely : Timely sys ev) : Inv (step x sys ev) := by
  obtain ⟨s, p⟩ := sys
  cases ev with
  | clock now => exact h.alike ⟨⟨rfl, rfl⟩, rfl, fun _ => rfl⟩
  | append tenant env es fate => exact h.alike (alike_append s x.sum256 tenant env es fate)
  | expireAssign tenant event => exact h.alike ⟨⟨rfl, rfl⟩, rfl, fun _ => rfl⟩
  | expireChain day => exact h.alike ⟨⟨rfl, rfl⟩, rfl, fun _ => rfl⟩
  | insert rs =>
    rw [Export.step]
    split
    · exact h.insert htimely
    · exact h
  | start =>
    cases p with
    | idle => exact ⟨h.base, fun t ht d hd => .inr trivial, trivial⟩
    | listing _ | scanning _ _ | checking _ _ _ | tipping _ _ _ _ | recovering _ _ _ _ _
    | exporting _ _ | sealing _ _ _ _ => exact h
  | tick fate =>
    obtain rfl : fate = .ok := hanswered
    exact h.tick x

/-- **A pass covers the days before its own**, in a run whose passes do not fail and whose
rows come in time. -/
theorem pass_covers (x : Exporter) (now : Time) (events : List Event)
    (hanswered : ∀ ev ∈ events, Answered ev)
    (htimely : Each (step x) Timely ⟨Stores.empty now, .idle⟩ events) :
    ∀ done today, done ++ [.tick .ok] <+: events →
      (run (step x) ⟨Stores.empty now, .idle⟩ done).pass.today? = some today →
      (run (step x) ⟨Stores.empty now, .idle⟩ (done ++ [.tick .ok])).pass.today? = none →
      Covered (run (step x) ⟨Stores.empty now, .idle⟩ (done ++ [.tick .ok])).stores today := by
  intro done today hdone htoday hended
  have hinv : Inv (run (step x) ⟨Stores.empty now, .idle⟩ done) := by
    apply run_induction (P := fun _ sys => Inv sys) (Inv.init now) done
    intro before ev hbefore h
    have hbelow := hbefore.trans ((List.prefix_append done [.tick .ok]).trans hdone)
    refine h.step x (hanswered ev (hbelow.subset ?_)) (htimely before ev hbelow)
    exact List.mem_append_right _ (List.mem_singleton_self ev)
  rw [run_snoc] at hended ⊢
  exact hinv.covered_of_end htoday hended

/-! ## A row past midnight -/

/-- Noon of the sample day. -/
def sampleNow : Time := .ofSec 63919108800

/-- The two rows of the sample day. -/
def sampleRows : List Record :=
  [sampleRow 0,
    { sampleRow 0 with
      eventID := Uuid.ofByte 3
      chainSeq := 2
      chainHash := bytes "e82aa0b34b8c19dea2d19994af7d9ab8e623ef85e2c6e0f5f652e756c5e0d209" }]

/-- A pass that exports one day. -/
def samplePass : List Event := .start :: List.replicate 14 (.tick .ok)

/-- Both rows are inserted on their day, and a pass runs on the next one. -/
def timelyRun : List Event :=
  [.append (Uuid.ofByte 1) Manager.sampleEnv [Uuid.ofByte 2, Uuid.ofByte 3] Prog.noFault,
    .insert sampleRows, .clock sampleNoon] ++ samplePass

theorem pass_covers_timely : sampleRows ≠ [] ∧
      (run (step sampleExporter) ⟨Stores.empty sampleNow, .idle⟩ timelyRun).stores.rows =
        sampleRows ∧
      Covered (run (step sampleExporter) ⟨Stores.empty sampleNow, .idle⟩ timelyRun).stores
        (bytes "2026-07-09") :=
  ⟨by decide, by decide +kernel,
    pass_covers sampleExporter sampleNow timelyRun (by decide) (by decide +kernel)
      timelyRun.dropLast (bytes "2026-07-09") ⟨[], rfl⟩ (by decide +kernel)
      (by decide +kernel)⟩

/-- The insert of the second row is retried on the next day, after the pass; another pass
finds the day sealed. -/
def lateRun : List Event :=
  [.append (Uuid.ofByte 1) Manager.sampleEnv [Uuid.ofByte 2, Uuid.ofByte 3] Prog.noFault,
    .insert (sampleRows.take 1), .clock sampleNoon] ++ samplePass ++
    .insert (sampleRows.drop 1) :: .start :: List.replicate 5 (.tick .ok)

theorem pass_misses_late : ¬ ∀ done today, done ++ [.tick .ok] <+: lateRun →
      (run (step sampleExporter) ⟨Stores.empty sampleNow, .idle⟩ done).pass.today? =
        some today →
      (run (step sampleExporter) ⟨Stores.empty sampleNow, .idle⟩
        (done ++ [.tick .ok])).pass.today? = none →
      Covered (run (step sampleExporter) ⟨Stores.empty sampleNow, .idle⟩
        (done ++ [.tick .ok])).stores today := by
  intro h
  have hcovered := h lateRun.dropLast (bytes "2026-07-09") ⟨[], rfl⟩
    (by decide +kernel) (by decide +kernel)
  revert hcovered
  decide +kernel

end Windrose.Audit.Export

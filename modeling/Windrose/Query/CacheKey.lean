/-
  Query/CacheKey.lean --- what an equal cache key says about two plans.

  Source: services/query-service/internal/exec/plan.go (buildPlan, cacheKey) and
  broker.go (Run, the cache hit).

  What is shipped to the engine is more than that.  The fingerprint leaves the inline
  constants out, and neither the requested limit nor the caller class is in the key; a
  list of arguments is hashed without the Go types, or not at all, and a name may have the
  comma that joins the pins.  `Settled` says that two requests agree on these, and
  `cacheKey_sound_iff` that they are interchangeable exactly then.
-/
import Windrose.Foundation.Digest
import Windrose.Query.Plan

set_option autoImplicit false

namespace Windrose.Query

open Windrose.Foundation

/-! ## Texts of arguments -/

theorem isNumberByte_of_mem_formatInt {n : Int} {c : UInt8} (h : c ∈ formatInt n) :
    isNumberByte c = true := by
  have hdigits : c ∈ itoa n.natAbs → isNumberByte c = true := by
    intro hc
    rw [isNumberByte, isDigit_of_mem_itoa hc]
    rfl
  unfold formatInt at h
  split at h
  · rcases List.mem_cons.mp h with rfl | h
    · rfl
    · exact hdigits h
  · exact hdigits h

theorem formatInt_ne_nil (n : Int) : formatInt n ≠ [] := by
  unfold formatInt
  split
  · exact List.cons_ne_nil _ _
  · exact itoa_ne_nil _

theorem formatInt_injective : Function.Injective formatInt := by
  have hsign : ∀ n m : Nat, bytes "-" ++ itoa n ≠ itoa m := by
    intro n m h
    have hmem : (45 : UInt8) ∈ itoa m := by
      rw [← h]
      exact List.mem_cons_self
    exact absurd (isDigit_of_mem_itoa hmem) (by decide)
  intro n m h
  unfold formatInt at h
  split at h
  · split at h
    · have := itoa_injective (List.append_cancel_left h)
      omega
    · exact absurd h (hsign _ _)
  · split at h
    · exact absurd h.symm (hsign _ _)
    · have := itoa_injective h
      omega

/-- The text of an `int64` as a JSON number. -/
def intNumber (n : Int) : Number :=
  ⟨formatInt n, formatInt_ne_nil n, fun _ hc => isNumberByte_of_mem_formatInt hc⟩

theorem UtcTime.utc_eq (t : UtcTime) : t.1.utc = t.1 := by
  obtain ⟨⟨sec, nsec, hlt, zone⟩, hz⟩ := t
  cases hz
  rfl

theorem UtcTime.eq_of_instant {t t' : UtcTime} (h : t.1.instant = t'.1.instant) : t = t' := by
  obtain ⟨⟨sec, nsec, hlt, zone⟩, hz⟩ := t
  obtain ⟨⟨sec', nsec', hlt', zone'⟩, hz'⟩ := t'
  cases hz
  cases hz'
  obtain ⟨rfl, rfl⟩ := Prod.mk.inj h
  rfl

theorem formatRFC3339Nano_injective {t t' : UtcTime}
    (h : formatRFC3339Nano t.1 = formatRFC3339Nano t'.1) : t = t' := by
  rw [← t.utc_eq, ← t'.utc_eq] at h
  exact UtcTime.eq_of_instant (formatRFC3339Nano_utc_inj h)

theorem Arg.text_append_inj {a a' : Arg} {x y : Bytes} (hkind : a.kind = a'.kind)
    (hx : Json.Stops x) (hy : Json.Stops y) (h : a.text ++ x = a'.text ++ y) : a = a' ∧ x = y := by
  match a, a', hkind with
  | .int64 n, .int64 m, _ =>
    obtain ⟨hnum, hxy⟩ := Json.number_append_inj (n := intNumber n) (m := intNumber m) hx hy h
    exact ⟨congrArg Arg.int64 (formatInt_injective (congrArg Number.text hnum)), hxy⟩
  | .time t, .time t', _ =>
    obtain ⟨htext, hxy⟩ := quote_append_inj h
    exact ⟨congrArg Arg.time (formatRFC3339Nano_injective htext), hxy⟩
  | .json v, .json w, _ =>
    obtain ⟨rfl, hxy⟩ := Json.encode_append_inj v w x y hx hy h
    exact ⟨rfl, hxy⟩

theorem stops_marshalItems (args : List Arg) (x : Bytes) :
    Json.Stops (marshalItems false args ++ x) := by
  cases args with
  | nil => exact Json.stops_cons (by decide) _
  | cons a args => exact Json.stops_cons (by decide) _

theorem marshalItems_append_inj (first : Bool) {as bs : List Arg} {x y : Bytes}
    (hkind : as.map Arg.kind = bs.map Arg.kind)
    (h : marshalItems first as ++ x = marshalItems first bs ++ y) : as = bs ∧ x = y := by
  induction as generalizing first bs with
  | nil =>
    obtain rfl : bs = [] := List.map_eq_nil_iff.mp hkind.symm
    exact ⟨rfl, List.append_cancel_left h⟩
  | cons a as ih =>
    cases bs with
    | nil => cases hkind
    | cons b bs =>
      obtain ⟨hab, hrest⟩ := List.cons.inj hkind
      simp only [marshalItems, List.append_assoc] at h
      obtain ⟨rfl, hitems⟩ := Arg.text_append_inj hab (stops_marshalItems as x)
        (stops_marshalItems bs y) (List.append_cancel_left h)
      obtain ⟨rfl, hxy⟩ := ih false hrest hitems
      exact ⟨rfl, hxy⟩

/-- The arguments have the same Go types, place by place, and if they cannot be marshalled
they are the same. -/
def SameTypes (as bs : List Arg) : Prop :=
  as.map Arg.kind = bs.map Arg.kind ∧ (as.all Arg.marshals = false → as = bs)

theorem marshalArgs_of_marshals {as : List Arg} (h : as.all Arg.marshals = true) :
    ∃ c t, marshalArgs as = c :: t ∧ c ≠ 124 := by
  unfold marshalArgs
  rw [h]
  split <;> exact ⟨_, _, rfl, by decide⟩

/-- What the key holds of the arguments leaves their types open, and all of them when one
cannot be marshalled. -/
theorem args_eq_iff {as bs : List Arg} {x y : Bytes}
    (h : marshalArgs as ++ 124 :: x = marshalArgs bs ++ 124 :: y) : as = bs ↔ SameTypes as bs := by
  constructor
  · rintro rfl
    exact ⟨rfl, fun _ => rfl⟩
  · rintro ⟨hkind, hsame⟩
    cases has : as.all Arg.marshals with
    | false => exact hsame has
    | true =>
      cases as with
      | nil => exact (List.map_eq_nil_iff.mp hkind.symm).symm
      | cons a as =>
        cases bs with
        | nil => cases hkind
        | cons b bs =>
          cases hbs : (b :: bs).all Arg.marshals with
          | true =>
            simp only [marshalArgs, List.isEmpty_cons, has, hbs, if_true] at h
            exact (marshalItems_append_inj true hkind (List.cons.inj h).2).1
          | false =>
            obtain ⟨c, t, hc, hne⟩ := marshalArgs_of_marshals has
            have hnone : marshalArgs (b :: bs) = [] := by simp [marshalArgs, hbs]
            rw [hc, hnone] at h
            exact absurd (List.cons.inj h).1 hne

/-! ## Version pins -/

theorem pinText_injective : Function.Injective pinText := by
  have hat : ∀ v : Int, (64 : UInt8) ∉ formatInt v := by
    intro v h
    exact absurd (isNumberByte_of_mem_formatInt h) (by decide)
  intro p q h
  obtain ⟨hname, hversion⟩ := append_last_sep_inj (hat p.2) (hat q.2) h
  exact Prod.ext hname (formatInt_injective hversion)

/-- The pins of a list of datasets. -/
def pins (lower : Lower) (metas : List Meta) : List (Bytes × Int) := metas.map (Meta.pin lower)

/-- The name has the separator of the pins. -/
def hasComma (p : Bytes × Int) : Bool := p.1.contains 44

theorem pinText_ne_nil (p : Bytes × Int) : pinText p ≠ [] :=
  List.append_ne_nil_of_right_ne_nil _ (List.cons_ne_nil _ _)

theorem splitOn_pinText {p : Bytes × Int} (h : hasComma p = false) :
    (pinText p).splitOn 44 = [pinText p] := by
  refine List.splitOn_eq_singleton fun hcomma => ?_
  rcases List.mem_append.mp hcomma with hname | hrest
  · simp [hasComma, hname] at h
  · rcases List.mem_cons.mp hrest with h64 | hversion
    · exact absurd h64 (by decide)
    · exact absurd (isNumberByte_of_mem_formatInt hversion) (by decide)

theorem splitOn_join {ts : List Bytes} (hts : ts ≠ []) :
    ((bytes ",").intercalate ts).splitOn 44 = ts.flatMap (List.splitOn 44) := by
  induction ts with
  | nil => exact absurd rfl hts
  | cons t ts ih =>
    cases ts with
    | nil => simp
    | cons u ts =>
      rw [List.intercalate_cons_cons, List.flatMap_cons, ← ih (List.cons_ne_nil u ts),
        List.append_assoc]
      exact List.splitOn_append_cons_self t _

theorem pins_perm_iff {ps qs : List (Bytes × Int)}
    (h : (bytes ",").intercalate (sortStrings (ps.map pinText)) =
      (bytes ",").intercalate (sortStrings (qs.map pinText))) :
    ps.Perm qs ↔ (ps.filter hasComma).Perm (qs.filter hasComma) := by
  refine ⟨fun hperm => hperm.filter _, fun hcomma => ?_⟩
  have hsort : ∀ ps : List (Bytes × Int), (sortStrings (ps.map pinText)).Perm (ps.map pinText) :=
    fun ps => List.mergeSort_perm _ _
  have hnil : (bytes ",").intercalate (sortStrings (([] : List (Bytes × Int)).map pinText)) =
      [] := by
    simp [sortStrings]
  have hjoin : ∀ {ps : List (Bytes × Int)},
      (bytes ",").intercalate (sortStrings (ps.map pinText)) = [] → ps = [] := by
    intro ps hnil
    cases hs : sortStrings (ps.map pinText) with
    | nil => exact List.map_eq_nil_iff.mp (List.perm_nil.mp (hs ▸ (hsort ps).symm))
    | cons t ts =>
      obtain ⟨p, -, rfl⟩ := List.mem_map.mp ((hsort ps).mem_iff.mp (hs ▸ List.mem_cons_self))
      rw [hs] at hnil
      exact absurd hnil (by cases ts <;> simp [pinText_ne_nil])
  by_cases hps : ps = []
  · rw [hps] at h ⊢
    rw [hjoin (h.symm.trans hnil)]
  by_cases hqs : qs = []
  · exact absurd (hjoin (h.trans (hqs ▸ hnil))) hps
  have hne : ∀ {ps : List (Bytes × Int)}, ps ≠ [] → sortStrings (ps.map pinText) ≠ [] :=
    fun hps hnil => hps (List.map_eq_nil_iff.mp (List.perm_nil.mp (hnil ▸ (hsort _).symm)))
  have hpieces : ((ps.map pinText).flatMap (List.splitOn 44)).Perm
      ((qs.map pinText).flatMap (List.splitOn 44)) := by
    have hsplit := congrArg (List.splitOn 44) h
    rw [splitOn_join (hne hps), splitOn_join (hne hqs)] at hsplit
    exact ((hsort ps).symm.flatMap_right _).trans (hsplit ▸ (hsort qs).flatMap_right _)
  -- The pieces of the names without a comma are left when the others are taken away.
  have hparts : ∀ ps : List (Bytes × Int), ((ps.map pinText).flatMap (List.splitOn 44)).Perm
      (((ps.filter hasComma).map pinText).flatMap (List.splitOn 44) ++
        (ps.filter fun p => !hasComma p).map pinText) := by
    intro ps
    have hplain : ∀ ps : List (Bytes × Int), (∀ p ∈ ps, hasComma p = false) →
        (ps.map pinText).flatMap (List.splitOn 44) = ps.map pinText := by
      intro ps hps
      rw [List.flatMap_map, List.flatMap_congr fun p hp => splitOn_pinText (hps p hp)]
      exact List.flatMap_pure_eq_map pinText ps
    rw [← hplain (ps.filter fun p => !hasComma p) (by simp), ← List.flatMap_append,
      ← List.map_append]
    exact ((List.filter_append_perm hasComma ps).symm.map _).flatMap_right _
  have hrest := ((hparts ps).symm.trans hpieces).trans (hparts qs)
  have hplain := (List.perm_append_left_iff _).mp
    ((((hcomma.symm.map pinText).flatMap_right _).append_right _).trans hrest)
  exact (List.filter_append_perm hasComma ps).symm.trans ((hcomma.append
    ((List.map_perm_map_iff pinText_injective).mp hplain)).trans
      (List.filter_append_perm hasComma qs))

/-! ## What planning returns -/

variable {sql : Bytes}

theorem classify_parsed {lower : Lower} {pg : PgQuery} {cls : Classification}
    (h : classify lower pg sql = .ok cls) : (∃ stmts, pg.parse sql = .ok stmts) ∧
      cls.fingerprint = (pg.fingerprint sql).getD [] := by
  unfold classify at h
  split at h
  · cases h
  · next stmts hparse =>
    obtain ⟨rec, ctes, limit, fields, rfl, -, -⟩ := classifyTree_ok h
    simp only [classifyTree] at h
    split at h
    · cases h
    · cases h
      exact ⟨⟨_, hparse⟩, rfl⟩

namespace Planner

variable {b : Planner} {req : PlanRequest}

theorem prepare_classified {st : Statement} (h : b.prepare req = .ok st) :
    classify b.lower b.pg st.rewritten.sql = .ok st.classification := by
  unfold prepare at h
  obtain ⟨-, -, h⟩ := bind_eq_ok.mp h
  obtain ⟨bindings, -, h⟩ := bind_eq_ok.mp h
  obtain ⟨refs, -, h⟩ := bind_eq_ok.mp h
  obtain ⟨resolved, -, h⟩ := bind_eq_ok.mp h
  obtain ⟨rw, -, h⟩ := bind_eq_ok.mp h
  obtain ⟨cls, hcls, h⟩ := bind_eq_ok.mp h
  obtain ⟨found, -, h⟩ := bind_eq_ok.mp h
  obtain ⟨-, -, h⟩ := bind_eq_ok.mp h
  cases h
  exact hcls

theorem buildPlan_ok {p : Plan} (h : b.buildPlan req = .ok p) : b.prepare req = .ok p.statement ∧
      p.execSQL = shipped p.statement.rewritten.sql
        (injectedLimit p.statement.classification.hasOuterLimit req.caller req.limit) ∧
      p.cacheKey = cacheKey b.sum256 req.tenant p.statement.classification.fingerprint
        p.statement.rewritten.args ((pins b.lower p.statement.metas).map pinText) := by
  unfold buildPlan at h
  obtain ⟨st, hst, h⟩ := bind_eq_ok.mp h
  obtain ⟨limits, -, h⟩ := bind_eq_ok.mp h
  obtain ⟨decision, -, h⟩ := bind_eq_ok.mp h
  cases h
  refine ⟨hst, rfl, ?_⟩
  rw [pins, List.map_map]
  rfl

end Planner

theorem cacheKey_inj {sum256 : Bytes → Bytes} (hsum : Function.Injective sum256) {tenant : Uuid}
    {fp fp' : Bytes} (hfp : (124 : UInt8) ∉ fp) (hfp' : (124 : UInt8) ∉ fp') {args args' : List Arg}
    {ps qs : List Bytes}
    (h : cacheKey sum256 tenant fp args ps = cacheKey sum256 tenant fp' args' qs) :
    fp = fp' ∧ marshalArgs args ++ 124 :: (bytes ",").intercalate (sortStrings ps) =
      marshalArgs args' ++ 124 :: (bytes ",").intercalate (sortStrings qs) := by
  have htext : cacheKeyText tenant fp args ps = cacheKeyText tenant fp' args' qs :=
    hsum (hexEncode_injective h)
  unfold cacheKeyText at htext
  exact append_sep_inj hfp hfp' (List.cons.inj (List.append_cancel_left htext)).2

/-! ## What is read of a statement -/

/-- How the texts of statements are read: what the fingerprint is made of, and the inline
constants, which it leaves out. -/
structure Reader (S C : Type) where
  read : Bytes → Option (S × List C)
  /-- `SELECT * FROM (…) AS _wr_agent_guard LIMIT n`, but for the `n`. -/
  enclose : S → S
  limit : Int → C

namespace Reader

variable {S C : Type}

/-- The inline constants of a statement. -/
def constants (rd : Reader S C) (sql : Bytes) : Option (List C) := (rd.read sql).map Prod.snd

/-- What is relied on: a text that `pg_query` parses is a statement with a fingerprint of
hexadecimal digits, which tells apart what it is made of; and a guard around a statement
encloses it, unless the statement ends in a comment that swallows the bracket. -/
structure Reads (rd : Reader S C) (pg : PgQuery) : Prop where
  parsed : ∀ {sql stmts}, pg.parse sql = .ok stmts →
    (∃ r, rd.read sql = some r) ∧ ∃ fp, pg.fingerprint sql = some fp ∧ ∀ c ∈ fp, isHexDigit c = true
  fingerprint : ∀ {sql sql' r r'}, rd.read sql = some r → rd.read sql' = some r' →
    pg.fingerprint sql = pg.fingerprint sql' → r.1 = r'.1
  guarded : ∀ {sql r} (m : Int), rd.read sql = some r → rd.read (wrapWithLimit sql m) = none ∨
    rd.read (wrapWithLimit sql m) = some (rd.enclose r.1, r.2 ++ [rd.limit m])
  enclosed : ∀ s, rd.enclose s ≠ s

end Reader

/-! ## Interchangeable plans -/

/-- An engine: the results that a statement can have on its arguments and the
pinned dataset versions.  What is not read of a text does not matter to it, nor the order
of the pins. -/
structure Engine {S C : Type} (rd : Reader S C) (R : Type) where
  results : Bytes → List Arg → List (Bytes × Int) → Set R
  alike : ∀ {sql sql' : Bytes}, rd.read sql = rd.read sql' → results sql = results sql'
  unordered : ∀ (sql : Bytes) (args : List Arg) {ps qs : List (Bytes × Int)}, ps.Perm qs →
    results sql args ps = results sql args qs

/-- The engine that tells statements apart whenever it may. -/
def Reader.engine {S C : Type} (rd : Reader S C) : Engine rd (Option (S × List C)) where
  results sql _ _ := {rd.read sql}
  alike h := by rw [h]
  unordered _ _ _ _ _ := rfl

section Plans

variable {S C : Type} (rd : Reader S C) (lower : Lower)

/-- Two plans that denote one query on the same arguments and versions, so that a
stored result of the first is one the second could have produced. -/
structure Interchangeable (p q : Plan) : Prop where
  query : ∀ {R : Type} (e : Engine rd R), e.results p.execSQL = e.results q.execSQL
  args : p.statement.rewritten.args = q.statement.rewritten.args
  versions : (pins lower p.statement.metas).Perm (pins lower q.statement.metas)
  stored : ∀ {R : Type} (e : Engine rd R) (r : R),
    r ∈ e.results p.execSQL p.statement.rewritten.args (pins lower p.statement.metas) →
      r ∈ e.results q.execSQL q.statement.rewritten.args (pins lower q.statement.metas)

variable {rd lower}

theorem interchangeable_iff {p q : Plan} :
    Interchangeable rd lower p q ↔ rd.read p.execSQL = rd.read q.execSQL ∧
      p.statement.rewritten.args = q.statement.rewritten.args ∧
      (pins lower p.statement.metas).Perm (pins lower q.statement.metas) := by
  constructor
  · intro h
    have hquery := congrFun (congrFun (h.query rd.engine) []) []
    exact ⟨Set.singleton_injective hquery, h.args, h.versions⟩
  · rintro ⟨hread, hargs, hpins⟩
    refine ⟨fun e => e.alike hread, hargs, hpins, ?_⟩
    intro R e r hr
    rwa [e.alike hread, hargs, e.unordered _ _ hpins] at hr

/-! ## What two requests must share beside the key -/

/-- The limit that a request gets. -/
def PlanRequest.injectedLimit (r : PlanRequest) (st : Statement) : Option Int :=
  Planner.injectedLimit st.classification.hasOuterLimit r.caller r.limit

variable (rd lower) in
/-- What the key leaves open is settled: a LIMIT is put around both statements or around
none, the inline constants are the same, that of the LIMIT among them, the arguments have
the same types, and so are the pins whose names have a comma. -/
structure Settled (r r' : PlanRequest) (st st' : Statement) : Prop where
  guarded : (r.injectedLimit st).isSome = (r'.injectedLimit st').isSome
  constants : rd.constants (Planner.shipped st.rewritten.sql (r.injectedLimit st)) =
    rd.constants (Planner.shipped st'.rewritten.sql (r'.injectedLimit st'))
  args : SameTypes st.rewritten.args st'.rewritten.args
  versions : ((pins lower st.metas).filter hasComma).Perm ((pins lower st'.metas).filter hasComma)

/-- Statements with one fingerprint are read alike, as they are shipped, when a LIMIT is put
around both or none and their constants are the same. -/
theorem read_shipped_iff {pg : PgQuery} (hreads : rd.Reads pg) {sql sql' : Bytes} {s : S}
    {cs cs' : List C} (hread : rd.read sql = some (s, cs)) (hread' : rd.read sql' = some (s, cs'))
    (l l' : Option Int) :
    rd.read (Planner.shipped sql l) = rd.read (Planner.shipped sql' l') ↔
      l.isSome = l'.isSome ∧ rd.constants (Planner.shipped sql l) =
        rd.constants (Planner.shipped sql' l') := by
  unfold Reader.constants
  cases l with
  | none =>
    cases l' with
    | none => simp [Planner.shipped, hread, hread']
    | some n =>
      have hne := hreads.enclosed s
      rcases hreads.guarded n hread' with h | h
      · simp [Planner.shipped, hread, h]
      · simp [Planner.shipped, hread, h, hne.symm]
  | some m =>
    rcases hreads.guarded m hread with h | h
    all_goals cases l' with
    | none => simp [Planner.shipped, hread', h, hreads.enclosed s]
    | some n =>
      rcases hreads.guarded n hread' with h' | h' <;> simp [Planner.shipped, h, h']

/-- **Two plans of a tenant with one cache key are interchangeable exactly when
what the key leaves open is settled.** -/
theorem cacheKey_sound_iff (b : Planner) (hsum : Function.Injective b.sum256)
    (hreads : rd.Reads b.pg) (r r' : PlanRequest) (p p' : Plan) (hp : b.buildPlan r = .ok p)
    (hp' : b.buildPlan r' = .ok p') (htenant : r.tenant = r'.tenant)
    (hkey : p.cacheKey = p'.cacheKey) :
    Interchangeable rd b.lower p p' ↔ Settled rd b.lower r r' p.statement p'.statement := by
  obtain ⟨hprep, hexec, hk⟩ := Planner.buildPlan_ok hp
  obtain ⟨hprep', hexec', hk'⟩ := Planner.buildPlan_ok hp'
  obtain ⟨⟨_, hparse⟩, hcls⟩ := classify_parsed (Planner.prepare_classified hprep)
  obtain ⟨⟨_, hparse'⟩, hcls'⟩ := classify_parsed (Planner.prepare_classified hprep')
  obtain ⟨⟨⟨s, cs⟩, hread⟩, fp, hfp, hhex⟩ := hreads.parsed hparse
  obtain ⟨⟨⟨s', cs'⟩, hread'⟩, fp', hfp', hhex'⟩ := hreads.parsed hparse'
  rw [hfp, Option.getD_some] at hcls
  rw [hfp', Option.getD_some] at hcls'
  rw [hk, hk', htenant, hcls, hcls'] at hkey
  have hbar : ∀ {fp : Bytes}, (∀ c ∈ fp, isHexDigit c = true) → (124 : UInt8) ∉ fp :=
    fun hhex hmem => absurd (hhex 124 hmem) (by decide)
  obtain ⟨hprint, htext⟩ := cacheKey_inj hsum (hbar hhex) (hbar hhex') hkey
  obtain rfl : s = s' := hreads.fingerprint hread hread' (by rw [hfp, hfp', hprint])
  have hpins := fun hargs : p.statement.rewritten.args = p'.statement.rewritten.args =>
    pins_perm_iff (List.cons.inj (List.append_cancel_left (hargs ▸ htext))).2
  rw [interchangeable_iff, hexec, hexec']
  constructor
  · rintro ⟨hsame, hargs, hperm⟩
    obtain ⟨hguarded, hconstants⟩ := (read_shipped_iff hreads hread hread' _ _).mp hsame
    exact ⟨hguarded, hconstants, (args_eq_iff htext).mp hargs, (hpins hargs).mp hperm⟩
  · rintro ⟨hguarded, hconstants, htypes, hcomma⟩
    have hargs := (args_eq_iff htext).mpr htypes
    exact ⟨(read_shipped_iff hreads hread hread' _ _).mpr ⟨hguarded, hconstants⟩, hargs,
      (hpins hargs).mpr hcomma⟩

end Plans

/-! ## Statements with one constant -/

/-- The tree of `SELECT 1`; the constant's value is in no field that is read. -/
def constSelect : Node :=
  .selectStmt false [] none
    [.message (bytes "ResTarget") [.message (bytes "A_Const") [.message (bytes "Integer") []]]]

/-- A planner whose parser knows three statements and their fingerprint. -/
def plannerSample : Planner where
  lower := asciiLower
  pg := {
    parse := fun sql =>
      if sql ∈ [bytes "SELECT 1", bytes "select  1", bytes "SELECT 2"] then .ok [constSelect]
      else .error (bytes "syntax error")
    fingerprint := fun sql =>
      if sql ∈ [bytes "SELECT 1", bytes "select  1", bytes "SELECT 2"] then
        some (bytes "50fde20626009aba")
      else none }
  sum256 := digestTable [
    (bytes "00000000-0000-0000-0000-000000000001|50fde20626009aba|null|",
      [24, 141, 139, 188, 207, 149, 80, 96, 180, 73, 196, 6, 249, 70, 54, 67,
       174, 225, 250, 203, 188, 251, 134, 101, 209, 6, 189, 44, 148, 17, 164, 91])]
  resolve _ name _ := .error (eDatasetNotFound [.text (bytes "dataset "), .quoted name])
  autoMaterializeSchemas := []
  extraNamespaces _ := []
  estimate metas _ := defaultEstimate metas
  tenantLimits _ := .ok none
  healthy _ := true

/-- A user's request without parameters and limit. -/
def requestSample (sql : Bytes) : PlanRequest where
  tenant := .ofByte 1
  caller := .user
  sqlText := sql
  declared := false
  bindings := .ok fun _ => none
  binds := []
  engineHint := []
  limit := 0
  async := false

/-- The plan of such a request. -/
def planSample (sql : Bytes) : Plan where
  statement := ⟨⟨sql, [], []⟩, ⟨bytes "50fde20626009aba", [], [], false, []⟩, []⟩
  execSQL := sql
  estimate := ⟨0, 0, [], bytes "high", 0⟩
  route := ⟨.duckdb, bytes "small_interactive", [], []⟩
  ceilings := ⟨53687091200, 300, 1073741824, 5000000⟩
  exceeded := false
  cacheKey := cacheKey plannerSample.sum256 (.ofByte 1) (bytes "50fde20626009aba") [] []
  limitInjected := false
  dryRunForced := false

theorem buildPlan_sample (h : sql ∈ [bytes "SELECT 1", bytes "select  1", bytes "SELECT 2"]) :
    plannerSample.buildPlan (requestSample sql) = .ok (planSample sql) := by
  simp only [List.mem_cons, List.not_mem_nil, or_false] at h
  rcases h with rfl | rfl | rfl
  · rfl
  · rfl
  · rfl

theorem plannerSample_sum256_injective : Function.Injective plannerSample.sum256 :=
  digestTable_injective (by decide) (by decide)

/-- How the three statements are read. -/
def readerSample : Reader Nat Nat where
  read sql :=
    if sql ∈ [bytes "SELECT 1", bytes "select  1"] then some (0, [1])
    else if sql = bytes "SELECT 2" then some (0, [2])
    else none
  enclose := Nat.succ
  limit := Int.toNat

theorem reads_sample : readerSample.Reads plannerSample.pg where
  parsed {sql stmts} h := by
    have hhex : ∀ c ∈ bytes "50fde20626009aba", isHexDigit c = true := by decide +kernel
    have hmem : sql ∈ [bytes "SELECT 1", bytes "select  1", bytes "SELECT 2"] := by
      by_contra hne
      simp only [plannerSample, if_neg hne] at h
      cases h
    refine ⟨?_, _, if_pos hmem, hhex⟩
    simp only [List.mem_cons, List.not_mem_nil, or_false] at hmem
    rcases hmem with rfl | rfl | rfl <;> exact ⟨_, rfl⟩
  fingerprint {sql sql' r r'} h h' _ := by
    have hzero : ∀ {sql r}, readerSample.read sql = some r → r.1 = 0 := by
      intro sql r h
      simp only [readerSample] at h
      split at h
      · cases h; rfl
      · split at h <;> cases h
        rfl
    rw [hzero h, hzero h']
  guarded {sql r} m _ := by
    have hstart : (wrapWithLimit sql m).take 8 = bytes "SELECT *" := rfl
    have hne : ∀ text ∈ [bytes "SELECT 1", bytes "select  1", bytes "SELECT 2"],
        wrapWithLimit sql m ≠ text := by
      rintro text htext rfl
      revert hstart
      simp only [List.mem_cons, List.not_mem_nil, or_false] at htext
      rcases htext with htext | htext | htext <;> rw [htext] <;> decide
    simp only [List.forall_mem_cons] at hne
    left
    simp [readerSample, hne.1, hne.2.1, hne.2.2.1]
  enclosed := Nat.succ_ne_self

/-- Two spellings of one statement share their results. -/
theorem cacheKey_sound_spellings :
    Interchangeable readerSample asciiLower (planSample (bytes "SELECT 1"))
      (planSample (bytes "select  1")) :=
  (cacheKey_sound_iff plannerSample plannerSample_sum256_injective reads_sample
    (requestSample (bytes "SELECT 1")) (requestSample (bytes "select  1"))
    (planSample (bytes "SELECT 1")) (planSample (bytes "select  1"))
    (buildPlan_sample (by simp)) (buildPlan_sample (by simp)) rfl rfl).mpr
    ⟨rfl, by decide, ⟨rfl, nofun⟩, .refl _⟩

/-- Two statements that differ in a constant share their key. -/
theorem cacheKey_misses_constant : Function.Injective plannerSample.sum256 ∧
      readerSample.Reads plannerSample.pg ∧
      ∃ p p' : Plan, plannerSample.buildPlan (requestSample (bytes "SELECT 1")) = .ok p ∧
        plannerSample.buildPlan (requestSample (bytes "SELECT 2")) = .ok p' ∧
        p.cacheKey = p'.cacheKey ∧ ¬ Interchangeable readerSample asciiLower p p' := by
  refine ⟨plannerSample_sum256_injective, reads_sample, planSample (bytes "SELECT 1"),
    planSample (bytes "SELECT 2"), buildPlan_sample (by simp), buildPlan_sample (by simp), rfl, ?_⟩
  intro h
  have hread : readerSample.read (bytes "SELECT 1") = readerSample.read (bytes "SELECT 2") :=
    (interchangeable_iff.mp h).1
  exact absurd hread (by decide)

end Windrose.Query

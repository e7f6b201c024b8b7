/-
  Semantic/Text.lean --- the placeholders in the text of a query.

  Source: services/semantic-service/app/compiler/compiler.py (the texts that are put
  together), app/compiler/dialects.py, app/domain/expressions.py (render_ast).

  Names, numbers, words and quoted literals are quiet, so the placeholders of a text are
  those of its clauses, in their order (`shows_query`).
-/
import Windrose.Foundation.Placeholders
import Windrose.Semantic.Fanout

set_option autoImplicit false

namespace Windrose.Semantic

open Windrose.Foundation

/-! ## Words and names -/

variable {s : String}

theorem exists_char_of_mem_bytes {b : UInt8} (h : b ∈ bytes s) (hb : b.toNat < 128) :
    ∃ c ∈ s.toList, c.toNat = b.toNat := by
  rw [bytes_eq_flatMap, List.mem_flatMap] at h
  obtain ⟨c, hc, hbc⟩ := h
  refine ⟨c, hc, ?_⟩
  rcases utf8_cases c with ⟨hlt, heq⟩ | ⟨-, -, heq⟩ | ⟨-, -, heq⟩ | ⟨-, -, heq⟩
  · rw [heq, List.mem_singleton] at hbc
    rw [hbc, UInt8.toNat_ofNat']
    omega
  all_goals
    rw [heq] at hbc
    simp only [List.mem_cons, List.not_mem_nil, or_false] at hbc
    rcases hbc with rfl | hbc
    · rw [UInt8.toNat_ofNat'] at hb
      omega
  · rw [hbc, UInt8.toNat_ofNat'] at hb
    omega
  all_goals
    rcases hbc with rfl | hbc
    · rw [UInt8.toNat_ofNat'] at hb
      omega
  · rw [hbc, UInt8.toNat_ofNat'] at hb
    omega
  · rcases hbc with rfl | rfl
    · rw [UInt8.toNat_ofNat'] at hb
      omega
    · rw [UInt8.toNat_ofNat'] at hb
      omega

theorem Name.char_of_mem_bytes {n : Name} {b : UInt8} (hb : b ∈ n.bytes) (hlt : b.toNat < 128) :
    isNameChar (Char.ofNat b.toNat) = true ∨ Char.ofNat b.toNat = '\n' := by
  obtain ⟨c, hc, hcb⟩ := exists_char_of_mem_bytes hb hlt
  rw [← hcb, Char.ofNat_toNat]
  exact Name.mem_text hc

theorem Name.plain (n : Name) : Plain n.bytes := by
  have hmarks : ∀ k : UInt8, k ∈ [36, 39] →
      k.toNat < 128 ∧ ¬ (isNameChar (Char.ofNat k.toNat) = true ∨ Char.ofNat k.toNat = '\n') := by
    rw [List.forall_mem_cons, List.forall_mem_singleton]
    decide
  have hne : ∀ b ∈ n.bytes, ∀ k : UInt8, k ∈ [36, 39] → b ≠ k := by
    rintro b hb k hk rfl
    exact (hmarks b hk).2 (Name.char_of_mem_bytes hb (hmarks b hk).1)
  exact fun c hc => ⟨hne c hc 39 (by decide), hne c hc 36 (by decide)⟩

theorem plain_quote {t : Bytes} (h : Plain t) (d : Dialect) : Plain (d.quote t) := by
  have hmark : ∀ c ∈ d.quoting.1 :: d.quoting.2.1 :: d.quoting.2.2, c ≠ 39 ∧ c ≠ 36 := by
    have hall : (d.quoting.1 :: d.quoting.2.1 :: d.quoting.2.2).all (fun c => c ≠ 39 ∧ c ≠ 36) =
        true := by
      cases d <;> rfl
    simpa using hall
  intro c hc
  rw [Dialect.quote, List.mem_append, List.mem_cons, List.mem_flatMap, List.mem_singleton] at hc
  rcases hc with (rfl | ⟨k, hk, hc⟩) | rfl
  · exact hmark _ List.mem_cons_self
  · split at hc
    · exact hmark c (List.mem_cons_of_mem _ (List.mem_cons_of_mem _ hc))
    · rw [List.mem_singleton] at hc
      exact hc ▸ h k hk
  · exact hmark _ (List.mem_cons_of_mem _ List.mem_cons_self)

theorem quiet_bytes (s : String) (h : isQuiet false (bytes s) = true) : Quiet (bytes s) :=
  quiet_of_isQuiet h

theorem quiet_joined {sep : Bytes} (hsep : Quiet sep) {xs : List Bytes} (h : ∀ x ∈ xs, Quiet x) :
    Quiet (joined sep xs) := by
  cases xs with
  | nil => exact quiet_nil
  | cons x xs =>
    obtain ⟨hx, hxs⟩ := List.forall_mem_cons.mp h
    refine hx.append ?_
    clear h hx
    induction xs with
    | nil => exact quiet_nil
    | cons y ys ih =>
      obtain ⟨hy, hys⟩ := List.forall_mem_cons.mp hxs
      rw [List.flatMap_cons]
      exact (hsep.append hy).append (ih hys)

theorem shows_joined {sep : Bytes} (hsep : Quiet sep) (hdigit : ∀ u, NoDigit (sep ++ u))
    {xs : List Bytes} {nss : List (List Nat)} (h : List.Forall₂ Shows xs nss) :
    Shows (joined sep xs) nss.flatten := by
  have htail : ∀ {ys : List Bytes} {mss : List (List Nat)}, List.Forall₂ Shows ys mss →
      Shows (ys.flatMap fun y => sep ++ y) mss.flatten ∧
        ∀ t, NoDigit t → NoDigit ((ys.flatMap fun y => sep ++ y) ++ t) := by
    intro ys mss hys
    induction hys with
    | nil => exact ⟨quiet_nil.shows, fun t ht => ht⟩
    | cons hy _ ih =>
      rw [List.flatMap_cons, List.flatten_cons]
      refine ⟨(hsep.append_shows hy).append ih.1 ?_, fun t _ => ?_⟩
      · simpa using ih.2 [] (fun c hc => absurd hc (Option.not_mem_none c))
      · rw [List.append_assoc, List.append_assoc]
        exact hdigit _
  cases h with
  | nil => exact quiet_nil.shows
  | cons hx hxs =>
    refine hx.append (htail hxs).1 ?_
    simpa using (htail hxs).2 [] fun c hc => absurd hc (Option.not_mem_none c)

/-! ## Expressions -/

theorem Literal.quiet_render (v : Literal) : Quiet v.render := by
  cases v with
  | num v =>
    refine quiet_of_plain fun c hc => ?_
    have hok := v.ok c hc
    constructor
    · rintro rfl
      revert hok
      decide
    · rintro rfl
      revert hok
      decide
  | str v => exact quiet_quoted v
  | bool b => cases b <;> exact quiet_bytes _ rfl
  | null => exact quiet_bytes _ rfl

theorem quiet_dateTrunc (d : Dialect) (grain : TimeGrain) {e : Bytes} (he : Quiet e) :
    Quiet (d.dateTrunc grain e) := by
  have hgrain : Quiet (bytes grain.text) := by cases grain <;> exact quiet_bytes _ rfl
  have hquoted : ∀ g : TimeGrain, Quiet (bytes "date_trunc('" ++ bytes g.text ++ bytes "', ") := by
    intro g
    cases g <;> exact quiet_of_isQuiet rfl
  cases d with
  | bigquery =>
    exact (((quiet_bytes _ rfl).append he |>.append (quiet_bytes _ rfl)).append
      hgrain).append (quiet_bytes _ rfl)
  | synapse =>
    exact (((quiet_bytes _ rfl).append hgrain |>.append (quiet_bytes _ rfl)).append
      he).append (quiet_bytes _ rfl)
  | duckdb => exact ((hquoted grain).append he).append (quiet_bytes _ rfl)
  | trino => exact ((hquoted grain).append he).append (quiet_bytes _ rfl)
  | athena => exact ((hquoted grain).append he).append (quiet_bytes _ rfl)

section Expr

variable {γ : Type} {d : Dialect} {column : γ → Bytes}

mutual

theorem Expr.quiet_render {e : Expr γ} (h : ∀ c ∈ e.columns, Quiet (column c)) :
    Quiet (e.render d column) := by
  cases e with
  | col name => exact h name (List.mem_singleton_self name)
  | lit v => exact v.quiet_render
  | bin op l r =>
    rw [Expr.columns, List.forall_mem_append] at h
    have hop : Quiet (bytes op.text) := by cases op <;> exact quiet_bytes _ rfl
    rw [Expr.render]
    exact ((((((quiet_bytes "(" rfl).append (Expr.quiet_render h.1)).append
      (quiet_bytes " " rfl)).append hop).append (quiet_bytes " " rfl)).append
      (Expr.quiet_render h.2)).append (quiet_bytes ")" rfl)
  | func name args =>
    have hname : Quiet (bytes name.text) := by cases name <;> exact quiet_bytes _ rfl
    rw [Expr.render]
    exact ((hname.append (quiet_bytes "(" rfl)).append
      (quiet_joined (quiet_bytes ", " rfl) (Args.quiet_render h))).append
      (quiet_bytes ")" rfl)
  | cast e type =>
    have htype : Quiet (bytes type.text) := by cases type <;> exact quiet_bytes _ rfl
    rw [Expr.render]
    exact ((((quiet_bytes "CAST(" rfl).append (Expr.quiet_render (e := e) h)).append
      (quiet_bytes " AS " rfl)).append htype).append (quiet_bytes ")" rfl)
  | extract part e =>
    have hpart : Quiet (bytes part.text) := by cases part <;> exact quiet_bytes _ rfl
    rw [Expr.render]
    exact ((((quiet_bytes "extract(" rfl).append hpart).append
      (quiet_bytes " FROM " rfl)).append (Expr.quiet_render (e := e) h)).append
      (quiet_bytes ")" rfl)
  | dateTrunc grain e =>
    rw [Expr.render]
    exact quiet_dateTrunc d grain (Expr.quiet_render (e := e) h)
  | case c t rest =>
    rw [Expr.columns, List.forall_mem_append, List.forall_mem_append] at h
    rw [Expr.render]
    exact ((((quiet_bytes "CASE WHEN " rfl).append (Cond.quiet_render h.1.1)).append
      (quiet_bytes " THEN " rfl)).append (Expr.quiet_render h.1.2)).append
      (Branches.quiet_render h.2)

theorem Args.quiet_render {es : Args γ} (h : ∀ c ∈ es.columns, Quiet (column c)) :
    ∀ t ∈ es.render d column, Quiet t := by
  cases es with
  | nil => exact nofun
  | cons e es =>
    rw [Args.columns, List.forall_mem_append] at h
    exact List.forall_mem_cons.mpr ⟨Expr.quiet_render h.1, Args.quiet_render h.2⟩

theorem Cond.quiet_render {p : Cond γ} (h : ∀ c ∈ p.columns, Quiet (column c)) :
    Quiet (p.render d column) := by
  cases p with
  | isNull negated l =>
    cases negated with
    | false =>
      rw [Cond.render]
      exact (Expr.quiet_render (e := l) h).append (quiet_bytes _ rfl)
    | true =>
      rw [Cond.render]
      exact (Expr.quiet_render (e := l) h).append (quiet_bytes _ rfl)
  | cmp op l r =>
    rw [Cond.columns, List.forall_mem_append] at h
    have hop : Quiet (bytes op.text) := by cases op <;> exact quiet_bytes _ rfl
    rw [Cond.render]
    exact ((((Expr.quiet_render h.1).append (quiet_bytes " " rfl)).append hop).append
      (quiet_bytes " " rfl)).append (Expr.quiet_render h.2)
  | logic op l r =>
    rw [Cond.columns, List.forall_mem_append] at h
    have hop : Quiet (bytes op.text) := by cases op <;> exact quiet_bytes _ rfl
    rw [Cond.render]
    exact ((((((quiet_bytes "(" rfl).append (Cond.quiet_render h.1)).append
      (quiet_bytes " " rfl)).append hop).append (quiet_bytes " " rfl)).append
      (Cond.quiet_render h.2)).append (quiet_bytes ")" rfl)
  | not c =>
    rw [Cond.render]
    exact ((quiet_bytes "(NOT " rfl).append (Cond.quiet_render (p := c) h)).append
      (quiet_bytes ")" rfl)

theorem Branches.quiet_render {b : Branches γ} (h : ∀ c ∈ b.columns, Quiet (column c)) :
    Quiet (b.render d column) := by
  cases b with
  | done => exact quiet_bytes _ rfl
  | otherwise e =>
    rw [Branches.render]
    exact ((quiet_bytes " ELSE " rfl).append (Expr.quiet_render (e := e) h)).append
      (quiet_bytes " END" rfl)
  | when c t rest =>
    rw [Branches.columns, List.forall_mem_append, List.forall_mem_append] at h
    rw [Branches.render]
    exact ((((quiet_bytes " WHEN " rfl).append (Cond.quiet_render h.1.1)).append
      (quiet_bytes " THEN " rfl)).append (Expr.quiet_render h.1.2)).append
      (Branches.quiet_render h.2)

end

end Expr

/-! ## Tables -/

theorem noDigit_bytes (h : bytes s ≠ [] ∧ NoDigit (bytes s)) (u : Bytes) :
    NoDigit (bytes s ++ u) := by
  obtain ⟨hne, hs⟩ := h
  cases hb : bytes s with
  | nil => exact absurd hb hne
  | cons c t =>
    rw [hb] at hs
    exact hs

instance (t : Bytes) : Decidable (NoDigit t) :=
  decidable_of_iff (t.head?.all (!isDigit ·) = true) <| by
    cases t <;> simp [NoDigit]

theorem Entity.slug_plain (e : Entity) : ∀ c ∈ bytes e.slug, c ≠ 39 := by
  have hchars : ∀ c ∈ e.slug.toList, isTableChar c = true := by
    intro c hc
    rw [slug, String.toList_ofList] at hc
    have hok := e.table_ok
    rw [isTable, List.all_eq_true] at hok
    cases hlast : (e.table.toList.splitOn '.').getLast? with
    | none =>
      rw [List.getLastD_eq_getLast?, hlast] at hc
      cases hc
    | some part =>
      rw [List.getLastD_eq_getLast?, hlast] at hc
      have := hok part (List.mem_of_getLast? hlast)
      rw [Bool.and_eq_true, List.all_eq_true] at this
      exact this.2 c hc
  rintro c hc rfl
  obtain ⟨k, hk, hkc⟩ := exists_char_of_mem_bytes hc (by decide)
  have hquote : k = Char.ofNat 39 := by
    rw [← Char.ofNat_toNat k, hkc]
    rfl
  have := hchars k hk
  rw [hquote] at this
  exact absurd this (by decide)

theorem quiet_between {v : Bytes} (h : ∀ c ∈ v, c ≠ 39) : Quiet (39 :: v ++ [39]) := by
  have hsame : v.flatMap (fun c => if c = 39 then [39, 39] else [c]) = v := by
    induction v with
    | nil => rfl
    | cons c v ih =>
      obtain ⟨hc, hv⟩ := List.forall_mem_cons.mp h
      rw [List.flatMap_cons, if_neg hc, ih hv]
      rfl
  have := quiet_quoted v
  rwa [hsame] at this

theorem quiet_intText (n : Int) : Quiet (intText n) := by
  have hsign : ∀ b : Bool, Quiet (signText b) := by
    intro b
    cases b <;> exact quiet_of_isQuiet rfl
  exact (hsign _).append (quiet_itoa _)

theorem quiet_datasetRef (e : Entity) : Quiet (datasetRef e) := by
  have hopen : ∀ rest, bytes "\x7b\x7bdataset('" ++ bytes e.slug ++ rest =
      bytes "\x7b\x7bdataset(" ++ (39 :: bytes e.slug ++ rest) := by
    intro rest
    rw [List.append_assoc, show bytes "\x7b\x7bdataset('" = bytes "\x7b\x7bdataset(" ++
      [39] by decide,
      List.append_assoc]
    rfl
  have hend : ∀ t u : Bytes, 39 :: t ++ 39 :: u = (39 :: t ++ [39]) ++ u := by
    intro t u
    rw [List.append_assoc]
    rfl
  have hlatest : Quiet (bytes "\x7b\x7bdataset('" ++ bytes e.slug ++ bytes "')\x7d\x7d") := by
    rw [hopen, show bytes "')\x7d\x7d" = 39 :: bytes ")\x7d\x7d" by decide, hend]
    exact (quiet_bytes _ rfl).append
      ((quiet_between e.slug_plain).append (quiet_bytes _ rfl))
  unfold datasetRef
  split
  · next versionNo _ =>
    split
    · rw [hopen, show bytes "', version=" = 39 :: bytes ", version=" by decide, hend]
      exact (((quiet_bytes _ rfl).append ((quiet_between e.slug_plain).append
        (quiet_bytes _ rfl))).append (quiet_intText _)).append (quiet_bytes _ rfl)
    · exact hlatest
  · exact hlatest

/-! ## Columns and aggregates -/

section Columns

variable {d : Dialect}

theorem ColRef.quiet_render {c : ColRef} (h : Plain c.alias) : Quiet (c.render d) :=
  ((plain_quote h d).quiet.append (quiet_bytes "." rfl)).append (plain_quote c.column.plain d).quiet

theorem quiet_columns {e : Expr ColRef} (h : ∀ c ∈ e.columns, Plain c.alias) :
    Quiet (e.render d (ColRef.render d)) :=
  Expr.quiet_render fun c hc => ColRef.quiet_render (h c hc)

theorem FirstTemplate.quiet_render (t : FirstTemplate) {e order : Bytes} (he : Quiet e)
    (horder : Quiet order) : Quiet (t.render e order) := by
  cases t <;> exact ((((quiet_bytes _ rfl).append he).append (quiet_bytes _ rfl)).append
    horder).append (quiet_bytes _ rfl)

theorem AggCall.quiet_render {a : AggCall} (h : ∀ c ∈ a.columns, Plain c.alias) :
    Quiet (a.render d) := by
  cases a with
  | countAll => exact quiet_bytes _ rfl
  | countDistinct e =>
    exact ((quiet_bytes _ rfl).append (quiet_columns h)).append (quiet_bytes _ rfl)
  | first t e order =>
    rw [AggCall.columns, List.forall_mem_append] at h
    exact t.quiet_render (quiet_columns h.1)
      (ColRef.quiet_render (h.2 order (List.mem_singleton_self order)))
  | call agg e =>
    have hagg : Quiet (bytes agg.text) := by cases agg <;> exact quiet_bytes _ rfl
    exact ((hagg.append (quiet_bytes "(" rfl)).append (quiet_columns h)).append
      (quiet_bytes ")" rfl)

theorem quiet_aggregates {e : Expr AggCall} (h : ∀ c ∈ aggColumns e, Plain c.alias) :
    Quiet (e.render d (AggCall.render d)) :=
  Expr.quiet_render fun call hcall =>
    AggCall.quiet_render fun c hc => h c (List.mem_flatMap.mpr ⟨call, hcall, hc⟩)

theorem plain_cteName (i : Nat) : Plain (cteName i) := by
  intro c hc
  rcases List.mem_append.mp hc with hc | hc
  · have hall : (bytes "m").all (fun c => c ≠ 39 ∧ c ≠ 36) = true := rfl
    exact of_decide_eq_true (List.all_eq_true.mp hall c hc)
  · exact plain_itoa i c hc

theorem CteRef.quiet_render (c : CteRef) : Quiet (c.render d) :=
  ((plain_quote (plain_cteName c.cte) d).quiet.append (quiet_bytes "." rfl)).append
    (plain_quote c.column.plain d).quiet

theorem quiet_refs (e : Expr CteRef) : Quiet (e.render d (CteRef.render d)) :=
  Expr.quiet_render fun c _ => c.quiet_render

theorem Item.quiet_render {τ : Type} {column : τ → Bytes} {i : Item τ}
    (h : Quiet (i.expr.render d column)) : Quiet (i.render d column) :=
  (h.append (quiet_bytes " AS " rfl)).append (plain_quote i.name.plain d).quiet

/-! ## Clauses -/

theorem shows_placeholder (n : Nat) : Shows (placeholder n) [n] := shows_dollar n

theorem shows_between {t : Bytes} (ht : Quiet t) {u : String} (hs : isQuiet false (bytes s) = true)
    (hu : isQuiet false (bytes u) = true) (hdigit : bytes u ≠ [] ∧ NoDigit (bytes u)) {t' : Bytes}
    (ht' : Quiet t') (lo hi : Nat) :
    Shows (t ++ bytes s ++ placeholder lo ++ bytes u ++ t' ++ placeholder hi) [lo, hi] := by
  have hleft : Shows (t ++ bytes s ++ placeholder lo) [lo] :=
    (ht.append (quiet_bytes s hs)).append_shows (shows_placeholder lo)
  have hright : Shows (bytes u ++ (t' ++ placeholder hi)) [hi] :=
    (quiet_bytes u hu).append_shows (ht'.append_shows (shows_placeholder hi))
  have := hleft.append hright (noDigit_bytes hdigit _)
  simpa [List.append_assoc] using this

theorem Clause.shows_render {c : Clause} (h : ∀ col ∈ c.target.columns, Plain col.alias) :
    Shows (c.render d) c.placeholders := by
  have ht := quiet_columns (d := d) h
  cases c with
  | null t negated =>
    cases negated <;> exact (ht.append (quiet_bytes _ rfl)).shows
  | isIn t negated phs =>
    have hword : Quiet (if negated then bytes " NOT IN (" else bytes " IN (") := by
      cases negated <;> exact quiet_bytes _ rfl
    have hphs : List.Forall₂ Shows (phs.map placeholder) (phs.map ([·])) := by
      rw [List.forall₂_map_left_iff, List.forall₂_map_right_iff, List.forall₂_same]
      exact fun n _ => shows_placeholder n
    have hlist := shows_joined (quiet_bytes ", " rfl)
      (noDigit_bytes (by decide)) hphs
    rw [← List.flatMap_def, List.flatMap_singleton'] at hlist
    exact ((ht.append hword).append_shows hlist).append_quiet (quiet_bytes ")" rfl) (by decide)
  | between t lo hi =>
    have := shows_between ht (s := " BETWEEN ") (u := " AND ") (by decide) (by decide) (by decide)
      quiet_nil lo hi
    simpa [Clause.render, Clause.placeholders] using this
  | cmp t op ph =>
    have hop : Quiet (bytes op.text) := by cases op <;> exact quiet_bytes _ rfl
    exact (((ht.append (quiet_bytes " " rfl)).append hop).append
      (quiet_bytes " " rfl)).append_shows (shows_placeholder ph)
  | like t ph => exact (ht.append (quiet_bytes " LIKE " rfl)).append_shows (shows_placeholder ph)
  | range t lo hi =>
    have := shows_between ht (s := " >= ") (u := " AND ") (by decide) (by decide) (by decide)
      (ht.append (quiet_bytes " < " rfl)) lo hi
    simpa [Clause.render, Clause.placeholders, List.append_assoc] using this

theorem HavingClause.shows_render {τ : Type} {column : τ → Bytes} {h : HavingClause τ}
    (ht : Quiet (h.target.render d column)) : Shows (h.render d column) [h.ph] := by
  have hop : Quiet (bytes h.op.text) := by cases h.op <;> exact quiet_bytes _ rfl
  exact (((ht.append (quiet_bytes " " rfl)).append hop).append
    (quiet_bytes " " rfl)).append_shows (shows_placeholder h.ph)

theorem shows_whereRender (hs : isQuiet false (bytes s) = true) {clauses : List Bytes}
    {nss : List (List Nat)} (h : List.Forall₂ Shows clauses nss) :
    Shows (whereRender (bytes s) clauses) nss.flatten := by
  unfold whereRender
  split
  · next hnil =>
    subst hnil
    cases h
    exact quiet_nil.shows
  · exact (quiet_bytes s hs).append_shows
      (shows_joined (quiet_bytes " AND " rfl) (noDigit_bytes (by decide)) h)

theorem noDigit_whereRender (h : bytes s ≠ [] ∧ NoDigit (bytes s)) (clauses : List Bytes)
    {u : Bytes} (hu : NoDigit u) : NoDigit (whereRender (bytes s) clauses ++ u) := by
  unfold whereRender
  split
  · exact hu
  · rw [List.append_assoc]
    exact noDigit_bytes h _

/-! ## Scopes -/

/-- Every alias of a scope is plain. -/
structure PlainScope (f : From) (columns : List ColRef) : Prop where
  columns : ∀ c ∈ columns, Plain c.alias
  aliases : ∀ a ∈ f.aliases, Plain a

theorem Hop.quiet_render {h : Hop} (halias : Plain h.alias)
    (hon : ∀ p ∈ h.on, Plain p.1.alias ∧ Plain p.2.alias) : Quiet (h.render d) := by
  have hpairs : ∀ t ∈ h.on.map (onRender d), Quiet t := by
    intro t ht
    obtain ⟨p, hp, rfl⟩ := List.mem_map.mp ht
    exact ((ColRef.quiet_render (hon p hp).1).append (quiet_bytes " = " rfl)).append
      (ColRef.quiet_render (hon p hp).2)
  have hjoined := quiet_joined (quiet_bytes " AND " rfl) hpairs
  unfold Hop.render
  cases h.joinType <;>
    exact (((((quiet_bytes _ rfl).append (quiet_datasetRef h.entity)).append
      (quiet_bytes " " rfl)).append (plain_quote halias d).quiet).append
      (quiet_bytes " ON " rfl)).append hjoined

theorem From.quiet_render {f : From} (haliases : ∀ a ∈ f.aliases, Plain a)
    (hcolumns : ∀ c ∈ f.columns, Plain c.alias) : Quiet (f.render d) := by
  obtain ⟨hbase, hhops⟩ := List.forall_mem_cons.mp haliases
  refine quiet_joined (quiet_bytes " " rfl) (List.forall_mem_cons.mpr ⟨?_, fun t ht => ?_⟩)
  · exact ((quiet_datasetRef f.base).append (quiet_bytes " " rfl)).append
      (plain_quote hbase d).quiet
  · obtain ⟨h, hh, rfl⟩ := List.mem_map.mp ht
    refine Hop.quiet_render (hhops _ (List.mem_map_of_mem hh)) fun p hp => ?_
    have hmem : ∀ c ∈ [p.1, p.2], Plain c.alias := fun c hc =>
      hcolumns c (List.mem_flatMap.mpr ⟨h, hh, List.mem_flatMap.mpr ⟨p, hp, hc⟩⟩)
    exact ⟨hmem p.1 List.mem_cons_self, hmem p.2 (List.mem_cons_of_mem _ List.mem_cons_self)⟩

theorem GroupBy.quiet_render {g : GroupBy} (h : ∀ c ∈ g.columns, Plain c.alias) :
    Quiet (g.render d) ∧ NoDigit (g.render d) := by
  cases g with
  | none => exact ⟨quiet_nil, fun c hc => absurd hc (Option.not_mem_none c)⟩
  | ordinals n =>
    refine ⟨(quiet_bytes " GROUP BY " rfl).append (quiet_joined (quiet_bytes ", " rfl)
      fun t ht => ?_), noDigit_bytes (by decide) _⟩
    obtain ⟨i, -, rfl⟩ := List.mem_map.mp ht
    exact quiet_itoa (i + 1)
  | exprs keys =>
    refine ⟨(quiet_bytes " GROUP BY " rfl).append (quiet_joined (quiet_bytes ", " rfl)
      fun t ht => ?_), noDigit_bytes (by decide) _⟩
    obtain ⟨e, he, rfl⟩ := List.mem_map.mp ht
    exact quiet_columns fun c hc => h c (List.mem_flatMap.mpr ⟨e, he, hc⟩)

theorem Select.shows_render {s : Select} (h : PlainScope s.source s.columns) :
    Shows (s.render d) s.placeholders := by
  have hcolumns := h.columns
  simp only [Select.columns, List.forall_mem_append, List.forall_mem_flatMap] at hcolumns
  obtain ⟨⟨⟨⟨hdims, hmeasures⟩, hsource⟩, hfilters⟩, hgroupBy⟩ := hcolumns
  have hitems : ∀ t ∈ s.dims.map (Item.render d (ColRef.render d)) ++
      s.measures.map (Item.render d (AggCall.render d)), Quiet t := by
    rw [List.forall_mem_append]
    constructor
    · intro t ht
      obtain ⟨i, hi, rfl⟩ := List.mem_map.mp ht
      exact Item.quiet_render (quiet_columns (hdims i hi))
    · intro t ht
      obtain ⟨i, hi, rfl⟩ := List.mem_map.mp ht
      exact Item.quiet_render (quiet_aggregates (hmeasures i hi))
  have hclauses : List.Forall₂ Shows (s.filters.map (Clause.render d))
      (s.filters.map Clause.placeholders) := by
    rw [List.forall₂_map_left_iff, List.forall₂_map_right_iff, List.forall₂_same]
    exact fun c hc => Clause.shows_render (hfilters c hc)
  have hwhere := shows_whereRender (s := " WHERE ") (by decide) hclauses
  rw [← List.flatMap_def] at hwhere
  have hhead : Quiet (joined (bytes ", ") (s.dims.map (Item.render d (ColRef.render d)) ++
      s.measures.map (Item.render d (AggCall.render d))) ++ bytes " FROM " ++ s.source.render d) :=
    ((quiet_joined (quiet_bytes ", " rfl) hitems).append (quiet_bytes " FROM " rfl)).append
      (From.quiet_render h.aliases hsource)
  have hgroup := GroupBy.quiet_render (d := d) hgroupBy
  exact (hhead.append_shows hwhere).append_quiet hgroup.1 hgroup.2

/-! ## Queries -/

theorem Tail.quiet_prefixRender (t : Tail) : Quiet (t.prefixRender d) := by
  have hlimit : ∀ l : Limit, Quiet l.text := by
    intro l
    cases l with
    | bool => exact quiet_bytes _ rfl
    | int n => exact quiet_itoa n
  unfold Tail.prefixRender
  split
  · exact ((quiet_bytes "TOP " rfl).append (hlimit _)).append (quiet_bytes " " rfl)
  · exact quiet_nil

theorem Tail.quiet_render (t : Tail) : Quiet (t.render d) ∧ NoDigit (t.render d) := by
  have hlimit : ∀ l : Limit, Quiet l.text := by
    intro l
    cases l with
    | bool => exact quiet_bytes _ rfl
    | int n => exact quiet_itoa n
  have horder : ∀ b ∈ t.order.map orderRender, Quiet b := by
    intro b hb
    obtain ⟨o, -, rfl⟩ := List.mem_map.mp hb
    unfold orderRender
    split
    · exact (quiet_itoa _).append (quiet_bytes " DESC" rfl)
    · exact quiet_itoa _
  have hnil : NoDigit [] := fun c hc => absurd hc (Option.not_mem_none c)
  unfold Tail.render
  refine ⟨.append ?_ ?_, .append ?_ ?_⟩
  · split
    · exact quiet_nil
    · exact (quiet_bytes " ORDER BY " rfl).append
        (quiet_joined (quiet_bytes ", " rfl) horder)
  · split
    · exact quiet_nil
    · exact (quiet_bytes " LIMIT " rfl).append (hlimit _)
    · exact quiet_nil
  · split
    · exact hnil
    · exact noDigit_bytes (by decide) _
  · split
    · exact hnil
    · exact noDigit_bytes (by decide) _
    · exact hnil

theorem quiet_coalesceRender (refs : List CteRef) : Quiet (coalesceRender d refs) := by
  unfold coalesceRender
  split
  · exact CteRef.quiet_render _
  · refine ((quiet_bytes "coalesce(" rfl).append (quiet_joined (quiet_bytes ", " rfl)
      fun t ht => ?_)).append (quiet_bytes ")" rfl)
    obtain ⟨r, -, rfl⟩ := List.mem_map.mp ht
    exact r.quiet_render

theorem CteJoin.quiet_render (i : Nat) (j : CteJoin) : Quiet (j.render d i) := by
  cases j with
  | full on =>
    refine (((quiet_bytes "FULL JOIN " rfl).append (plain_quote (plain_cteName i) d).quiet).append
      (quiet_bytes " ON " rfl)).append (quiet_joined (quiet_bytes " AND " rfl)
      fun t ht => ?_)
    obtain ⟨p, -, rfl⟩ := List.mem_map.mp ht
    exact (p.1.quiet_render.append (quiet_bytes " = " rfl)).append (quiet_coalesceRender p.2)
  | cross => exact (quiet_bytes "CROSS JOIN " rfl).append (plain_quote (plain_cteName i) d).quiet

theorem Outer.shows_render (o : Outer) : Shows (o.render d) (o.filters.map HavingClause.ph) := by
  have hitems : ∀ t ∈ o.dims.map (fun i => coalesceRender d i.1 ++ bytes " AS " ++
      d.quote i.2.bytes) ++
      o.measures.map (Item.render d (CteRef.render d)), Quiet t := by
    rw [List.forall_mem_append]
    constructor
    · intro t ht
      obtain ⟨i, -, rfl⟩ := List.mem_map.mp ht
      exact ((quiet_coalesceRender i.1).append (quiet_bytes " AS " rfl)).append
        (plain_quote i.2.plain d).quiet
    · intro t ht
      obtain ⟨i, -, rfl⟩ := List.mem_map.mp ht
      exact Item.quiet_render (quiet_refs i.expr)
  have hjoins : ∀ t ∈ d.quote (cteName 0) ::
      o.joins.zipIdx.map (fun j => CteJoin.render d (j.2 + 1) j.1), Quiet t := by
    refine List.forall_mem_cons.mpr ⟨(plain_quote (plain_cteName 0) d).quiet, fun t ht => ?_⟩
    obtain ⟨j, -, rfl⟩ := List.mem_map.mp ht
    exact CteJoin.quiet_render _ _
  have hclauses : List.Forall₂ Shows (o.filters.map (HavingClause.render d (CteRef.render d)))
      (o.filters.map fun h => [h.ph]) := by
    rw [List.forall₂_map_left_iff, List.forall₂_map_right_iff, List.forall₂_same]
    exact fun h _ => HavingClause.shows_render (quiet_refs h.target)
  have hwhere := shows_whereRender (s := " WHERE ") (by decide) hclauses
  rw [← List.flatMap_def, ← List.map_eq_flatMap] at hwhere
  exact (((quiet_joined (quiet_bytes ", " rfl) hitems).append
    (quiet_bytes " FROM " rfl)).append (quiet_joined (quiet_bytes " " rfl) hjoins)).append_shows
    hwhere

theorem shows_ctes {ctes : List Select} (h : ∀ s ∈ ctes, PlainScope s.source s.columns) :
    Shows (joined (bytes ", ") (ctes.zipIdx.map (cteRender d)))
      (ctes.flatMap Select.placeholders) := by
  have hall : ∀ (ss : List Select) (n : Nat), (∀ s ∈ ss, PlainScope s.source s.columns) →
      List.Forall₂ Shows ((ss.zipIdx n).map (cteRender d)) (ss.map Select.placeholders) := by
    intro ss
    induction ss with
    | nil => exact fun n _ => .nil
    | cons s ss ih =>
      intro n hss
      obtain ⟨hs, hss⟩ := List.forall_mem_cons.mp hss
      refine .cons ?_ (ih (n + 1) hss)
      exact (((plain_quote (plain_cteName n) d).quiet.append
        (quiet_bytes " AS (SELECT " rfl)).append_shows (Select.shows_render hs)).append_quiet
        (quiet_bytes ")" rfl) (by decide)
  rw [List.flatMap_def]
  exact shows_joined (quiet_bytes ", " rfl) (noDigit_bytes (by decide)) (hall ctes 0 h)

/-- The placeholders of the text of a query are those of its clauses, in their order. -/
theorem Query.shows_render {q : Query} (h : ∀ scope ∈ q.scopes, PlainScope scope.1 scope.2) :
    Shows (q.render d) q.placeholders := by
  cases q with
  | single s having tail =>
    have hscope := h _ (List.mem_singleton_self _)
    obtain ⟨hcolumns, hhaving⟩ := List.forall_mem_append.mp hscope.columns
    rw [List.forall_mem_flatMap] at hhaving
    have hclauses : List.Forall₂ Shows (having.map (HavingClause.render d (AggCall.render d)))
        (having.map fun h => [h.ph]) := by
      rw [List.forall₂_map_left_iff, List.forall₂_map_right_iff, List.forall₂_same]
      exact fun h hh => HavingClause.shows_render (quiet_aggregates (hhaving h hh))
    have hwhere := shows_whereRender (s := " HAVING ") (by decide) hclauses
    rw [← List.flatMap_def, ← List.map_eq_flatMap] at hwhere
    have hselect : Shows (bytes "SELECT " ++ tail.prefixRender d ++ s.render d) s.placeholders :=
      ((quiet_bytes "SELECT " rfl).append tail.quiet_prefixRender).append_shows
        (Select.shows_render ⟨hcolumns, hscope.aliases⟩)
    have hnil : NoDigit [] := fun c hc => absurd hc (Option.not_mem_none c)
    have hnodigit : NoDigit (whereRender (bytes " HAVING ")
        (having.map (HavingClause.render d (AggCall.render d)))) := by
      simpa using noDigit_whereRender (s := " HAVING ") (by decide)
        (having.map (HavingClause.render d (AggCall.render d))) hnil
    exact (hselect.append hwhere hnodigit).append_quiet tail.quiet_render.1 tail.quiet_render.2
  | multi ctes outer tail =>
    have hctes : Shows (bytes "WITH " ++ joined (bytes ", ") (ctes.zipIdx.map (cteRender d)))
        (ctes.flatMap Select.placeholders) := by
      refine (quiet_bytes "WITH " rfl).append_shows (shows_ctes fun s hs => ?_)
      exact h (s.source, s.columns) (List.mem_map_of_mem hs)
    have houter : Shows (bytes " SELECT " ++ (tail.prefixRender d ++ outer.render d))
        (outer.filters.map HavingClause.ph) :=
      (quiet_bytes " SELECT " rfl).append_shows
        (tail.quiet_prefixRender.append_shows outer.shows_render)
    have := (hctes.append houter (noDigit_bytes (by decide) _)).append_quiet
      (tail.quiet_render (d := d)).1 tail.quiet_render.2
    simpa [Query.render, Query.placeholders, List.append_assoc] using this

end Columns

end Windrose.Semantic

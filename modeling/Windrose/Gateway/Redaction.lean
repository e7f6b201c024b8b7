/-
  Gateway/Redaction.lean --- what is left of a message when its entities are replaced.

  A place of a content is copied when it is in a piece that `_pii_pass` copies.  Two sweeps
  drop entities that overlap: that of `analyze`, which keeps the first and longest, and that
  of `_pii_pass`, which drops nothing more (`sortedEntities_eq`).  A match that is dropped
  begins within the entity that was kept before it, but may end behind it.  `Gapless` says
  when such a match is covered nevertheless, by the entities that are kept next.

  What is put in for an entity depends on its kind and on which entities have its text, and
  on nothing else of the text: `Numbered` is the invariant of two runs over messages that
  differ in the replaced texts only.
-/
import Windrose.Gateway.Pii

set_option autoImplicit false

namespace Windrose.Gateway

open Windrose.Foundation

/-! ## Places that are copied -/

/-- The place is in a copied piece. -/
def Copied (pieces : List Piece) (p : Nat) : Prop := ∃ s, .copied s ∈ pieces ∧ s.Has p

/-- Each entity begins behind the one before it. -/
def Spaced : Nat → List PIIEntity → Prop
  | _, [] => True
  | pos, e :: es => pos ≤ e.span.start ∧ e.span.start < e.span.stop ∧ Spaced e.span.stop es

variable {es : List PIIEntity} {pos lastEnd : Nat}

theorem Spaced.start_le (h : Spaced pos es) : ∀ e ∈ es, pos ≤ e.span.start := by
  induction es generalizing pos with
  | nil => exact nofun
  | cons e es ih =>
    obtain ⟨hstart, hstop, hrest⟩ := h
    intro e' he'
    obtain rfl | he' := List.mem_cons.mp he'
    · exact hstart
    · have := ih hrest e' he'
      omega

theorem spaced_withoutOverlaps
    (hes : ∀ e ∈ es, e.span.start < e.span.stop) : Spaced lastEnd (withoutOverlaps lastEnd es) := by
  induction es generalizing lastEnd with
  | nil => trivial
  | cons e es ih =>
    have hrest : ∀ e' ∈ es, e'.span.start < e'.span.stop := fun e' he' =>
      hes e' (List.mem_cons_of_mem e he')
    rw [withoutOverlaps]
    split_ifs with hkept
    · exact ⟨hkept, hes e List.mem_cons_self, ih hrest⟩
    · exact ih hrest

/-- What is copied is what no entity has. -/
theorem copied_iff {length : Nat} (r : Redactor) (h : Spaced pos es)
    (hstop : ∀ e ∈ es, e.span.stop ≤ length) (p : Nat) :
    Copied (redactEntities length es pos r).1 p ↔
      pos ≤ p ∧ p < length ∧ ∀ e ∈ es, ¬ e.span.Has p := by
  induction es generalizing pos r with
  | nil =>
    constructor
    · rintro ⟨s, hs, hp⟩
      obtain rfl := Piece.copied.inj (List.mem_singleton.mp hs)
      exact ⟨hp.1, hp.2, nofun⟩
    · rintro ⟨hpos, hlength, -⟩
      exact ⟨⟨pos, length⟩, List.mem_singleton_self _, hpos, hlength⟩
  | cons e es ih =>
    obtain ⟨hstart, hlong, hrest⟩ := h
    have hends : e.span.stop ≤ length := hstop e List.mem_cons_self
    rw [redactEntities, if_neg (Nat.not_lt.mpr hstart)]
    have hmore := ih { (r.placeholder e).2 with kinds := (r.placeholder e).2.kinds ++ [e.kind] }
      hrest fun e' he' => hstop e' (List.mem_cons_of_mem e he')
    constructor
    · rintro ⟨s, hs, hp⟩
      obtain hs | hs := List.mem_cons.mp hs
      · obtain rfl := Piece.copied.inj hs
        have hbefore : p < e.span.start := hp.2
        refine ⟨hp.1, by omega, fun e' he' hp' => ?_⟩
        obtain rfl | he' := List.mem_cons.mp he'
        · exact Nat.not_lt.mpr hp'.1 hbefore
        · have := hrest.start_le e' he'
          have := hp'.1
          omega
      · obtain hs | hs := List.mem_cons.mp hs
        · cases hs
        · obtain ⟨hpos, hlength, hnone⟩ := hmore.mp ⟨s, hs, hp⟩
          refine ⟨by omega, hlength, fun e' he' hp' => ?_⟩
          obtain rfl | he' := List.mem_cons.mp he'
          · exact Nat.not_lt.mpr hpos hp'.2
          · exact hnone e' he' hp'
    · rintro ⟨hpos, hlength, hnone⟩
      by_cases hbefore : p < e.span.start
      · exact ⟨⟨pos, e.span.start⟩, List.mem_cons_self, hpos, hbefore⟩
      · have hbehind : e.span.stop ≤ p := by
          by_contra hin
          exact hnone e List.mem_cons_self ⟨Nat.not_lt.mp hbefore, Nat.not_le.mp hin⟩
        obtain ⟨s, hs, hp⟩ := hmore.mpr ⟨hbehind, hlength,
          fun e' he' => hnone e' (List.mem_cons_of_mem e he')⟩
        exact ⟨s, List.mem_cons_of_mem _ (List.mem_cons_of_mem _ hs), hp⟩

/-! ## The entities that are kept -/

variable {e : PIIEntity}

section Entities

variable (t : CharTable) (content : List Char) (kinds : List String)

theorem mem_findAll (he : e ∈ findAll t content kinds) :
    e.text = slice content e.span ∧ e.span.start < e.span.stop ∧ e.span.stop ≤ content.length := by
  obtain ⟨kind, -, he⟩ := List.mem_flatMap.mp he
  rw [matchesOf] at he
  split at he
  · exact absurd he List.not_mem_nil
  · next pattern _ =>
    obtain ⟨he, -⟩ := List.mem_filter.mp he
    obtain ⟨s, hs, rfl⟩ := List.mem_map.mp he
    obtain ⟨-, hlong, hstop⟩ := pattern.finditer_bounds 0 none content 0 s hs
    exact ⟨rfl, hlong, by simpa using hstop⟩

/-- The matches as `analyze` sorts them. -/
def sortedMatches : List PIIEntity := (findAll t content kinds).insertionSort sooner

theorem mem_sortedMatches : e ∈ sortedMatches t content kinds ↔ e ∈ findAll t content kinds :=
  List.mem_insertionSort sooner

theorem sortedMatches_starts :
    (sortedMatches t content kinds).Pairwise fun a b => a.span.start ≤ b.span.start := by
  have htotal : Std.Total sooner := ⟨fun a b => by unfold sooner; omega⟩
  have htrans : IsTrans PIIEntity sooner := ⟨fun a b c hab hbc => by unfold sooner at *; omega⟩
  refine (List.pairwise_insertionSort sooner (findAll t content kinds)).imp ?_
  intro a b hab
  unfold sooner at hab
  omega

theorem mem_withoutOverlaps (he : e ∈ withoutOverlaps lastEnd es) : e ∈ es := by
  induction es generalizing lastEnd with
  | nil => exact he
  | cons e' es ih =>
    rw [withoutOverlaps] at he
    split_ifs at he
    · obtain rfl | he := List.mem_cons.mp he
      · exact List.mem_cons_self
      · exact List.mem_cons_of_mem e' (ih he)
    · exact List.mem_cons_of_mem e' (ih he)

theorem spaced_analyze : Spaced 0 (analyze t content kinds) :=
  spaced_withoutOverlaps fun _ he =>
    (mem_findAll t content kinds ((mem_sortedMatches t content kinds).mp he)).2.1

theorem Spaced.pairwise (h : Spaced pos es) :
    es.Pairwise fun a b => a.span.start ≤ b.span.start := by
  induction es generalizing pos with
  | nil => exact .nil
  | cons e es ih =>
    obtain ⟨-, hlong, hrest⟩ := h
    refine .cons (fun e' he' => ?_) (ih hrest)
    have := hrest.start_le e' he'
    omega

theorem sortedEntities_eq : sortedEntities t content kinds = analyze t content kinds :=
  (spaced_analyze t content kinds).pairwise.insertionSort_eq

theorem mem_sortedEntities (he : e ∈ sortedEntities t content kinds) :
    e.text = slice content e.span ∧ e.span.stop ≤ content.length := by
  rw [sortedEntities_eq] at he
  have hfound := mem_findAll t content kinds
    ((mem_sortedMatches t content kinds).mp (mem_withoutOverlaps he))
  exact ⟨hfound.1, hfound.2.2⟩

end Entities

/-! ## Matches that are dropped -/

/-- The matches, in order, behind the end of the entity that was kept last and up to where
dropped ones reach: a match that is dropped ends with the entity it begins in, or the
entities that are kept next go on there without a gap up to its end. -/
def Gapless : Nat → Nat → List PIIEntity → Prop
  | lastEnd, reach, [] => reach ≤ lastEnd
  | lastEnd, reach, e :: found =>
    if lastEnd ≤ e.span.start then
      (lastEnd < reach → e.span.start = lastEnd) ∧ Gapless e.span.stop reach found
    else Gapless lastEnd (max reach e.span.stop) found

instance decidableGapless : ∀ lastEnd reach found, Decidable (Gapless lastEnd reach found)
  | lastEnd, reach, [] => inferInstanceAs (Decidable (reach ≤ lastEnd))
  | lastEnd, reach, e :: found =>
    if h : lastEnd ≤ e.span.start then
      have := decidableGapless e.span.stop reach found
      decidable_of_iff
        ((lastEnd < reach → e.span.start = lastEnd) ∧ Gapless e.span.stop reach found)
        (by rw [Gapless, if_pos h])
    else
      have := decidableGapless lastEnd (max reach e.span.stop) found
      decidable_of_iff (Gapless lastEnd (max reach e.span.stop) found) (by rw [Gapless, if_neg h])

/-- The matches are covered exactly when there is no gap. -/
theorem gapless_iff {reach : Nat} {found : List PIIEntity}
    (hlong : ∀ e ∈ found, e.span.start < e.span.stop)
    (hsorted : found.Pairwise fun a b => a.span.start ≤ b.span.start) :
    Gapless lastEnd reach found ↔
      (∀ p, lastEnd ≤ p → p < reach → ∃ k ∈ withoutOverlaps lastEnd found, k.span.Has p) ∧
        ∀ e ∈ found, ∀ p, e.span.Has p → lastEnd ≤ p →
          ∃ k ∈ withoutOverlaps lastEnd found, k.span.Has p := by
  induction found generalizing lastEnd reach with
  | nil =>
    constructor
    · intro h
      exact ⟨fun p hp hreach => absurd (Nat.lt_of_lt_of_le hreach h) (Nat.not_lt.mpr hp), nofun⟩
    · rintro ⟨hreach, -⟩
      by_contra hgap
      obtain ⟨k, hk, -⟩ := hreach lastEnd (le_refl _) (Nat.not_le.mp hgap)
      exact absurd hk List.not_mem_nil
  | cons e found ih =>
    obtain ⟨hfirst, hsorted⟩ := List.pairwise_cons.mp hsorted
    have hrest : ∀ e' ∈ found, e'.span.start < e'.span.stop := fun e' he' =>
      hlong e' (List.mem_cons_of_mem e he')
    have he := hlong e List.mem_cons_self
    rw [Gapless, withoutOverlaps]
    split_ifs with hkept
    · have hspaced : Spaced e.span.stop (withoutOverlaps e.span.stop found) :=
        spaced_withoutOverlaps hrest
      -- behind the entity that is kept, only those after it count
      have hbehind : ∀ p, e.span.stop ≤ p →
          ((∃ k ∈ e :: withoutOverlaps e.span.stop found, k.span.Has p) ↔
            ∃ k ∈ withoutOverlaps e.span.stop found, k.span.Has p) := by
        intro p hp
        constructor
        · rintro ⟨k, hk, hhas⟩
          obtain rfl | hk := List.mem_cons.mp hk
          · exact absurd hhas.2 (Nat.not_lt.mpr hp)
          · exact ⟨k, hk, hhas⟩
        · rintro ⟨k, hk, hhas⟩
          exact ⟨k, List.mem_cons_of_mem e hk, hhas⟩
      rw [ih hrest hsorted]
      constructor
      · rintro ⟨hadjoin, hreach, hfound⟩
        refine ⟨fun p hp hpr => ?_, fun e' he' p hhas hp => ?_⟩
        · by_cases hin : p < e.span.stop
          · have := hadjoin (by omega)
            exact ⟨e, List.mem_cons_self, by omega, hin⟩
          · exact (hbehind p (Nat.not_lt.mp hin)).mpr (hreach p (Nat.not_lt.mp hin) hpr)
        · by_cases hin : p < e.span.stop
          · have hstart : e.span.start ≤ p := by
              obtain rfl | he' := List.mem_cons.mp he'
              · exact hhas.1
              · exact (hfirst e' he').trans hhas.1
            exact ⟨e, List.mem_cons_self, hstart, hin⟩
          · obtain rfl | he' := List.mem_cons.mp he'
            · exact absurd hhas.2 hin
            · exact (hbehind p (Nat.not_lt.mp hin)).mpr
                (hfound e' he' p hhas (Nat.not_lt.mp hin))
      · rintro ⟨hreach, hfound⟩
        refine ⟨fun hgap => ?_, fun p hp hpr => ?_, fun e' he' p hhas hp => ?_⟩
        · obtain ⟨k, hk, hhas⟩ := hreach lastEnd (le_refl _) hgap
          obtain rfl | hk := List.mem_cons.mp hk
          · exact le_antisymm hhas.1 hkept
          · have := hspaced.start_le k hk
            have := hhas.1
            omega
        · exact (hbehind p hp).mp (hreach p (by omega) hpr)
        · exact (hbehind p hp).mp
            (hfound e' (List.mem_cons_of_mem e he') p hhas (by omega))
    · rw [ih hrest hsorted]
      constructor
      · rintro ⟨hreach, hfound⟩
        refine ⟨fun p hp hpr => hreach p hp (lt_max_of_lt_left hpr), fun e' he' p hhas hp => ?_⟩
        obtain rfl | he' := List.mem_cons.mp he'
        · exact hreach p hp (lt_max_of_lt_right hhas.2)
        · exact hfound e' he' p hhas hp
      · rintro ⟨hreach, hfound⟩
        refine ⟨fun p hp hpr => ?_, fun e' he' => hfound e' (List.mem_cons_of_mem e he')⟩
        obtain hpr | hpr := lt_max_iff.mp hpr
        · exact hreach p hp hpr
        · exact hfound e List.mem_cons_self p ⟨by omega, hpr⟩ hp

/-! ## Every match is covered -/

section Messages

variable (t : CharTable) (kinds : List String)

/-- What `_pii_pass` makes of a content. -/
def pieces (content : List Char) (r : Redactor) : List Piece :=
  (redactEntities content.length (sortedEntities t content kinds) 0 r).1

/-- No place within a match is copied. -/
def Covered (content : List Char) (r : Redactor) : Prop :=
  ∀ e ∈ findAll t content kinds, ∀ p, e.span.Has p → ¬ Copied (pieces t kinds content r) p

theorem covered_iff (content : List Char) (r : Redactor) :
    Covered t kinds content r ↔ Gapless 0 0 (sortedMatches t content kinds) := by
  have hcopied : ∀ p, Copied (pieces t kinds content r) p ↔
      p < content.length ∧
        ∀ e ∈ withoutOverlaps 0 (sortedMatches t content kinds), ¬ e.span.Has p := by
    intro p
    have hspaced := spaced_analyze t content kinds
    rw [← sortedEntities_eq] at hspaced
    rw [pieces, copied_iff r hspaced (fun e he => (mem_sortedEntities t content kinds he).2) p,
      sortedEntities_eq]
    exact ⟨fun h => h.2, fun h => ⟨Nat.zero_le p, h⟩⟩
  have hlong : ∀ e ∈ sortedMatches t content kinds, e.span.start < e.span.stop := fun _ he =>
    (mem_findAll t content kinds ((mem_sortedMatches t content kinds).mp he)).2.1
  rw [gapless_iff hlong (sortedMatches_starts t content kinds)]
  constructor
  · intro h
    refine ⟨fun p _ hp => absurd hp (Nat.not_lt_zero p), fun e he p hp _ => ?_⟩
    have hfound := (mem_sortedMatches t content kinds).mp he
    have hlength := (mem_findAll t content kinds hfound).2.2
    by_contra hnone
    refine h e hfound p hp ((hcopied p).mpr ⟨Nat.lt_of_lt_of_le hp.2 hlength, fun k hk hhas => ?_⟩)
    exact hnone ⟨k, hk, hhas⟩
  · rintro ⟨-, h⟩ e he p hp hcopy
    obtain ⟨k, hk, hhas⟩ := h e ((mem_sortedMatches t content kinds).mpr he) p hp (Nat.zero_le p)
    exact ((hcopied p).mp hcopy).2 k hk hhas

/-- `msg["content"]` is a text. -/
def HasContent (msg : Fields) (content : String) : Prop := msg.get "content" = .str content

variable {msg : Fields} {r : Redactor}

theorem HasContent.lookup {content : String} (h : HasContent msg content) :
    List.lookup "content" msg = some (.str content) := by
  unfold HasContent Fields.get at h
  cases hl : List.lookup "content" msg with
  | none =>
    rw [hl] at h
    cases h
  | some v =>
    rw [hl] at h
    exact congrArg some h

theorem hasContent_setItem (msg : Fields) (content : String) :
    HasContent (setItem msg "content" (.str content)) content := by
  rw [HasContent, Fields.get, lookup_setItem]
  rfl

theorem joined_whole (content : String) :
    joined content.toList [.copied ⟨0, content.length⟩] = content := by
  have hwhole : slice content.toList ⟨0, content.length⟩ = content.toList := by
    rw [slice, List.drop_zero, ← String.length_toList, List.take_length]
  rw [joined, List.flatMap_singleton, Piece.text, hwhole, String.ofList_toList]

theorem redactMessage_content {content : String} (h : HasContent msg content) (r : Redactor) :
    HasContent (redactMessage t kinds msg r).1
      (joined content.toList (pieces t kinds content.toList r)) := by
  rw [redactMessage, h]
  dsimp only
  split_ifs with hnone
  · rw [pieces, hnone, redactEntities, String.length_toList, joined_whole]
    exact h
  · rw [String.length_toList.symm]
    exact hasContent_setItem msg _

theorem redactMessages_get {messages : List Fields} {n : Nat} (h : messages[n]? = some msg) :
    (redactMessages t kinds messages r).1[n]? =
      some (redactMessage t kinds msg (redactMessages t kinds (messages.take n) r).2).1 := by
  induction messages generalizing n r with
  | nil => cases h
  | cons m messages ih =>
    cases n with
    | zero =>
      obtain rfl := Option.some.inj h
      rfl
    | succ n => exact ih h

/-! ## What is put in -/

/-- The two contents differ in the texts of the entities only. -/
structure SameShape (was now : List Char) : Prop where
  length : now.length = was.length
  entities : List.Forall₂ (fun e e' => e'.kind = e.kind ∧ e'.span = e.span)
    (sortedEntities t was kinds) (sortedEntities t now kinds)
  others : ∀ p, (∀ e ∈ sortedEntities t was kinds, ¬ e.span.Has p) → now[p]? = was[p]?

/-- The two messages differ in the texts of the entities only. -/
def AlikeMessage (msg msg' : Fields) : Prop :=
  match msg.get "content" with
  | .str c => ∃ c', msg' = setItem msg "content" (.str c') ∧ SameShape t kinds c.toList c'.toList
  | _ => msg' = msg

/-- One text is replaced where the other is. -/
def Swapped (messages messages' : List Fields) (a b : List Char) : Prop :=
  ∃ p ∈ messages.zip messages', ∃ c c', HasContent p.1 c ∧ HasContent p.2 c' ∧
    ∃ e ∈ sortedEntities t c.toList kinds, a = slice c.toList e.span ∧ b = slice c'.toList e.span

/-- The messages differ in the texts of the entities only, and these are equal in the same
places. -/
structure Alike (messages messages' : List Fields) : Prop where
  shape : List.Forall₂ (AlikeMessage t kinds) messages messages'
  pattern : ∀ a b a' b', Swapped t kinds messages messages' a b →
    Swapped t kinds messages messages' a' b' → (a = a' ↔ b = b')

/-- The texts of the one run stand for those of the other. -/
structure Numbered (R : List Char → List Char → Prop) (r r' : Redactor) : Prop where
  counters : r'.counters = r.counters
  byValue : List.Forall₂ (fun x y => R x.1 y.1 ∧ y.2 = x.2) r.byValue r'.byValue

variable {r' : Redactor}

section Numbering

variable {t kinds} {R : List Char → List Char → Prop}
variable (hR : ∀ a b a' b', R a b → R a' b' → (a = a' ↔ b = b'))

include hR in
theorem Numbered.lookup (h : Numbered R r r') {a b : List Char} (hab : R a b) :
    r'.byValue.lookup b = r.byValue.lookup a := by
  obtain ⟨-, hvalues⟩ := h
  generalize r.byValue = values, r'.byValue = values' at hvalues
  induction hvalues with
  | nil => rfl
  | @cons x y xs ys hxy _ ih =>
    obtain ⟨u, p⟩ := x
    obtain ⟨v, q⟩ := y
    obtain ⟨huv, rfl⟩ := hxy
    have hsame := hR a b u v hab huv
    rw [List.lookup_cons, List.lookup_cons]
    by_cases ha : a = u
    · rw [beq_iff_eq.mpr ha, beq_iff_eq.mpr (hsame.mp ha)]
    · rw [beq_false_of_ne ha, beq_false_of_ne (mt hsame.mpr ha)]
      exact ih

include hR in
theorem Numbered.placeholder (h : Numbered R r r') {e' : PIIEntity}
    (hkind : e'.kind = e.kind) (htext : R e.text e'.text) :
    (r'.placeholder e').1 = (r.placeholder e).1 ∧
      Numbered R (r.placeholder e).2 (r'.placeholder e').2 := by
  have hlookup := h.lookup hR htext
  cases hfound : r.byValue.lookup e.text with
  | some p =>
    rw [Redactor.placeholder, Redactor.placeholder, hlookup, hfound]
    exact ⟨rfl, h⟩
  | none =>
    rw [Redactor.placeholder, Redactor.placeholder, hlookup, hfound]
    dsimp only
    rw [hkind, h.counters]
    refine ⟨rfl, rfl, ?_⟩
    dsimp only
    rw [setItem_new hfound, setItem_new (hlookup.trans hfound)]
    exact List.rel_append h.byValue (.cons ⟨htext, rfl⟩ .nil)

include hR in
theorem Numbered.redactEntities (length : Nat) {es' : List PIIEntity}
    (hes : List.Forall₂ (fun e e' => (e'.kind = e.kind ∧ e'.span = e.span) ∧ R e.text e'.text)
      es es') (pos : Nat) (h : Numbered R r r') :
    (redactEntities length es' pos r').1 = (redactEntities length es pos r).1 ∧
      Numbered R (redactEntities length es pos r).2 (redactEntities length es' pos r').2 := by
  induction hes generalizing pos r r' with
  | nil => exact ⟨rfl, h⟩
  | @cons e e' es es' he _ ih =>
    obtain ⟨⟨hkind, hspan⟩, htext⟩ := he
    rw [Gateway.redactEntities, Gateway.redactEntities, hspan]
    split_ifs with hover
    · exact ih pos h
    · obtain ⟨hput, hnext⟩ := h.placeholder hR hkind htext
      have hcounted : Numbered R
          { (r.placeholder e).2 with kinds := (r.placeholder e).2.kinds ++ [e.kind] }
          { (r'.placeholder e').2 with kinds := (r'.placeholder e').2.kinds ++ [e'.kind] } :=
        ⟨hnext.counters, hnext.byValue⟩
      obtain ⟨hpieces, hlast⟩ := ih e.span.stop hcounted
      dsimp only at hpieces hlast ⊢
      rw [hput, hpieces]
      exact ⟨rfl, hlast⟩

end Numbering

theorem slice_congr {was now : List Char} {s : Span} (h : ∀ p, s.Has p → now[p]? = was[p]?) :
    slice now s = slice was s := by
  apply List.ext_getElem?
  intro i
  rw [slice, slice, List.getElem?_drop, List.getElem?_drop, List.getElem?_take, List.getElem?_take]
  split_ifs with hin
  · exact h _ ⟨Nat.le_add_right _ _, hin⟩
  · rfl

theorem SameShape.joined_eq {c c' : List Char} (h : SameShape t kinds c c') (r : Redactor) :
    joined c' (pieces t kinds c r) = joined c (pieces t kinds c r) := by
  have hspaced := spaced_analyze t c kinds
  rw [← sortedEntities_eq] at hspaced
  rw [joined, joined]
  refine congrArg String.ofList (List.flatMap_congr fun piece hpiece => ?_)
  cases piece with
  | placeholder p => rfl
  | copied s =>
    refine slice_congr fun p hp => h.others p ?_
    exact ((copied_iff r hspaced (fun e he => (mem_sortedEntities t c kinds he).2) p).mp
      ⟨s, hpiece, hp⟩).2.2

/-- Messages that differ in the replaced texts only are redacted alike. -/
theorem redactMessages_alike {messages messages' : List Fields} {R : List Char → List Char → Prop}
    (hR : ∀ a b a' b', R a b → R a' b' → (a = a' ↔ b = b'))
    (hmessages : List.Forall₂ (AlikeMessage t kinds) messages messages')
    (hswapped : ∀ a b, Swapped t kinds messages messages' a b → R a b) (h : Numbered R r r') :
    (redactMessages t kinds messages' r').1 = (redactMessages t kinds messages r).1 := by
  induction hmessages generalizing r r' with
  | nil => rfl
  | @cons msg msg' messages messages' hmsg hmore ih =>
    have hrest : ∀ a b, Swapped t kinds messages messages' a b → R a b := by
      rintro a b ⟨p, hp, hswap⟩
      exact hswapped a b ⟨p, List.mem_cons_of_mem _ hp, hswap⟩
    suffices hfirst : (redactMessage t kinds msg' r').1 = (redactMessage t kinds msg r).1 ∧
        Numbered R (redactMessage t kinds msg r).2 (redactMessage t kinds msg' r').2 by
      rw [redactMessages, redactMessages, hfirst.1, ih hrest hfirst.2]
    cases hcontent : msg.get "content" with
    | str c =>
      rw [AlikeMessage, hcontent] at hmsg
      obtain ⟨c', rfl, hshape⟩ := hmsg
      have hcontent' : HasContent (setItem msg "content" (.str c')) c' := hasContent_setItem msg c'
      have hentities : List.Forall₂ (fun e e' => (e'.kind = e.kind ∧ e'.span = e.span) ∧
          R e.text e'.text) (sortedEntities t c.toList kinds)
          (sortedEntities t c'.toList kinds) := by
        refine List.forall₂_iff_get.mpr ⟨hshape.entities.length_eq, fun i hi hi' => ?_⟩
        have hsame := hshape.entities.get hi hi'
        refine ⟨hsame, hswapped _ _ ⟨(msg, setItem msg "content" (.str c')),
          List.mem_cons_self, c, c', hcontent, hcontent', _, List.get_mem _ ⟨i, hi⟩, ?_, ?_⟩⟩
        · exact (mem_sortedEntities t c.toList kinds (List.get_mem _ ⟨i, hi⟩)).1
        · rw [← hsame.2]
          exact (mem_sortedEntities t c'.toList kinds (List.get_mem _ ⟨i, hi'⟩)).1
      have hget : Fields.get (setItem msg "content" (.str c')) "content" = .str c' := hcontent'
      rw [redactMessage, redactMessage, hcontent, hget]
      dsimp only
      by_cases hnone : sortedEntities t c.toList kinds = []
      · have hnone' : sortedEntities t c'.toList kinds = [] := by
          have hlength := hentities.length_eq
          rw [hnone] at hlength
          exact List.length_eq_zero_iff.mp hlength.symm
        have hsame : c' = c := by
          refine String.toList_injective (List.ext_getElem? fun p => hshape.others p ?_)
          rw [hnone]
          exact nofun
        rw [if_pos hnone, if_pos hnone', hsame, setItem_self (HasContent.lookup hcontent)]
        exact ⟨rfl, h⟩
      · have hsome' : sortedEntities t c'.toList kinds ≠ [] := by
          intro hnone'
          have hlength := hentities.length_eq
          rw [hnone'] at hlength
          exact hnone (List.length_eq_zero_iff.mp hlength)
        rw [if_neg hnone, if_neg hsome', setItem_setItem]
        have hlength : c'.length = c.length := by
          rw [← String.length_toList, ← String.length_toList, hshape.length]
        obtain ⟨hpieces, hnext⟩ := Numbered.redactEntities hR c.length hentities 0 h
        rw [hlength, hpieces]
        refine ⟨?_, hnext⟩
        have hjoined := hshape.joined_eq t kinds r
        rw [pieces, String.length_toList] at hjoined
        rw [hjoined]
    | null | bool _ | num _ | arr _ | obj _ =>
      rw [AlikeMessage, hcontent] at hmsg
      rw [hmsg, redactMessage, redactMessage, hcontent]
      exact ⟨rfl, h⟩

end Messages

/-! ## The pass -/

/-- No place within a match is copied to the redacted content. -/
def Covers (t : CharTable) (cfg : PiiConfig) (messages : List Fields) : Prop :=
  ∀ (n : Nat) (msg : Fields) (content : String), messages[n]? = some msg → HasContent msg content →
    ∃ msg' r, (piiPass t cfg messages).1[n]? = some msg' ∧
      HasContent msg' (joined content.toList (pieces t cfg.kinds content.toList r)) ∧
      Covered t cfg.kinds content.toList r

theorem covers_iff (t : CharTable) {cfg : PiiConfig} (hmode : cfg.mode ≠ "off")
    (messages : List Fields) : Covers t cfg messages ↔
      ∀ msg ∈ messages, ∀ content, HasContent msg content →
        Gapless 0 0 (sortedMatches t content.toList cfg.kinds) := by
  have hpass : (piiPass t cfg messages).1 = (redactMessages t cfg.kinds messages {}).1 := by
    rw [piiPass, if_neg hmode]
  constructor
  · intro h msg hmsg content hcontent
    obtain ⟨n, hn⟩ := List.mem_iff_getElem?.mp hmsg
    obtain ⟨_, r, -, -, hcovered⟩ := h n msg content hn hcontent
    exact (covered_iff t cfg.kinds content.toList r).mp hcovered
  · intro h n msg content hn hcontent
    refine ⟨_, _, hpass ▸ redactMessages_get t cfg.kinds hn,
      redactMessage_content t cfg.kinds hcontent _, ?_⟩
    exact (covered_iff t cfg.kinds content.toList _).mpr
      (h msg (List.mem_iff_getElem?.mpr ⟨n, hn⟩) content hcontent)

/-- **Redaction covers every match** exactly when no match reaches out of the entities that
are kept; and what it makes of the messages never depends on the texts it replaces. -/
theorem redaction_covers_iff (t : CharTable) {cfg : PiiConfig} (hmode : cfg.mode ≠ "off")
    (messages : List Fields) :
    (Covers t cfg messages ∧ ∀ messages', Alike t cfg.kinds messages messages' →
        (piiPass t cfg messages').1 = (piiPass t cfg messages).1) ↔
      ∀ msg ∈ messages, ∀ content, HasContent msg content →
        Gapless 0 0 (sortedMatches t content.toList cfg.kinds) := by
  rw [← covers_iff t hmode]
  refine and_iff_left fun messages' halike => ?_
  rw [piiPass, piiPass, if_neg hmode, if_neg hmode]
  exact redactMessages_alike t cfg.kinds halike.pattern halike.shape (fun _ _ h => h)
    ⟨rfl, .nil⟩

/-! ## A telephone number and an address -/

/-- The number ends where the address goes on. -/
def overlapping : List Fields := [[("role", .str "user"), ("content", .str "(123)4567890a@b.cc")]]

/-- Apart from each other. -/
def apart : List Fields := [[("role", .str "user"), ("content", .str "(123)4567890 a@b.cc")]]

def bothKinds : PiiConfig := { entities := ["PHONE", "EMAIL"] }

theorem redaction_covers_apart : Covers asciiTable bothKinds apart ∧
      ∀ messages', Alike asciiTable bothKinds.kinds apart messages' →
        (piiPass asciiTable bothKinds messages').1 = (piiPass asciiTable bothKinds apart).1 := by
  refine (redaction_covers_iff asciiTable (by decide) apart).mpr fun msg hmsg content hcontent => ?_
  obtain rfl := List.mem_singleton.mp hmsg
  obtain rfl : "(123)4567890 a@b.cc" = content := Json.str.inj hcontent
  decide +kernel

/-- The end of the address is copied. -/
theorem redaction_leaks : ¬ Covers asciiTable bothKinds overlapping ∧
      (piiPass asciiTable bothKinds overlapping).1 =
        [[("role", .str "user"), ("content", .str "<PII:PHONE:1>a@b.cc")]] := by
  refine ⟨fun hcovers => ?_, rfl⟩
  have hgapless := (covers_iff asciiTable (by decide) overlapping).mp hcovers _
    (List.mem_singleton_self _) "(123)4567890a@b.cc" rfl
  exact absurd hgapless (by decide +kernel)

end Windrose.Gateway

/-
  Query/Trino.lean --- the translation to Trino's markers.

  Source: services/query-service/internal/engine/trino.go (dollarPlaceholder,
  trinoize).

  `trinoize` replaces every `$n` of the text by `?`, wherever it stands.  Its
  comment says that only the placeholder token is rewritten, and a placeholder
  is a token only outside literals, quoted identifiers, comments and
  dollar-quoted strings.  `sqlRule` cuts a text into these regions by the
  lexical rules of `scan`; it never fails.
-/
import Windrose.Query.Rewrite

set_option autoImplicit false

namespace Windrose.Query

open Windrose.Foundation

/-! ## The translation -/

/-- One turn of the search for the regular expression `\$(\d+)`: the digits of a
match, or one byte that starts none. -/
def dollarStep : Bytes → Except Empty (Option Bytes × Nat)
  | [] => .ok (none, 1)
  | c :: s =>
    if c = 36 ∧ s.takeWhile isDigit ≠ [] then
      .ok (some (s.takeWhile isDigit), 1 + (s.takeWhile isDigit).length)
    else .ok (none, 1)

variable {s : Bytes} {k : Nat} {qs : List (Option Bytes × Bytes)}

theorem dollarStep_progress {t : Option Bytes} (hne : s ≠ [])
    (h : dollarStep s = .ok (t, k)) : 0 < k ∧ k ≤ s.length := by
  cases s with
  | nil => exact absurd rfl hne
  | cons c s =>
    have hlen := length_takeWhile_le isDigit s
    rw [dollarStep] at h
    by_cases hc : c = 36 ∧ s.takeWhile isDigit ≠ []
    · rw [if_pos hc] at h
      cases h
      rw [List.length_cons]
      omega
    · rw [if_neg hc] at h
      cases h
      simp

/-- `dollarPlaceholder`. -/
def dollarPlaceholder : Rule UInt8 Empty (Option Bytes) where
  step := dollarStep
  progress hne h := dollarStep_progress hne h

/-- The argument a match stands for. -/
def argAt {V : Type} (args : List V) (digits : Bytes) : Option V :=
  match atoi digits with
  | some (n + 1) => args[n]?
  | _ => none

/-- `ReplaceAllStringFunc`, match by match; the first match out of range is the
error. -/
def trinoizeLoop {V : Type} (args : List V) :
    List (Option Bytes × Bytes) → Except Bytes (Bytes × List V)
  | [] => .ok ([], [])
  | (none, w) :: ps =>
    match trinoizeLoop args ps with
    | .error e => .error e
    | .ok (text, expanded) => .ok (w ++ text, expanded)
  | (some digits, w) :: ps =>
    match argAt args digits with
    | none =>
      .error (bytes "trino: placeholder " ++ w ++ bytes " out of range (have " ++
        itoa args.length ++ bytes " args)")
    | some v =>
      match trinoizeLoop args ps with
      | .error e => .error e
      | .ok (text, expanded) => .ok (bytes "?" ++ text, v :: expanded)

/-- `trinoize`. -/
def trinoize {V : Type} (sqlText : Bytes) (args : List V) : Except Bytes (Bytes × List V) :=
  trinoizeLoop args (dollarPlaceholder.pieces sqlText)

/-! ## The regions of a text -/

/-- What a piece of a text is: a literal, quoted identifier, comment or
dollar-quoted string; a placeholder token; a marker; or a byte of code. -/
inductive Region where
  | inert
  | positional (digits : Bytes)
  | marker
  | plain
  deriving DecidableEq

/-- The region at a dollar sign, from behind it.  A dollar-quoted string that is
not closed extends to the end. -/
def regionDollar (s : Bytes) : Region × Nat :=
  if s.takeWhile isDigit ≠ [] then
    (.positional (s.takeWhile isDigit), 1 + (s.takeWhile isDigit).length)
  else
    match s.dropWhile isIdentChar with
    | [] => (.plain, 1)
    | c :: body =>
      if c = 36 then
        match index ([36] ++ s.takeWhile isIdentChar ++ [36]) body with
        | none => (.inert, 1 + s.length)
        | some k => (.inert, 1 + (s.takeWhile isIdentChar).length + 1 + k +
            ((s.takeWhile isIdentChar).length + 2))
      else (.plain, 1)

/-- The region at the start of a text. -/
def regionStep : Bytes → Region × Nat
  | [] => (.plain, 1)
  | c :: s =>
    if c = 39 then (.inert, 1 + skipQuoted 39 s)
    else if c = 34 then (.inert, 1 + skipQuoted 34 s)
    else if c = 45 ∧ s.head? = some 45 then (.inert, ((c :: s).takeWhile (· != 10)).length)
    else if c = 47 ∧ s.head? = some 42 then (.inert, 2 + skipBlock 1 s.tail)
    else if c = 36 then regionDollar s
    else if c = 63 then (.marker, 1)
    else (.plain, 1)

theorem regionDollar_progress (s : Bytes) :
    0 < (regionDollar s).2 ∧ (regionDollar s).2 ≤ s.length + 1 := by
  have hdigits := length_takeWhile_le isDigit s
  have hsplit : (s.takeWhile isIdentChar).length + (s.dropWhile isIdentChar).length = s.length := by
    rw [← List.length_append, List.takeWhile_append_dropWhile]
  unfold regionDollar
  split
  · exact ⟨by omega, by omega⟩
  · split
    · exact ⟨by omega, by omega⟩
    · rename_i c body hbody
      rw [hbody, List.length_cons] at hsplit
      split
      · split
        · exact ⟨by omega, by omega⟩
        · rename_i k hk
          have := index_le hk
          simp only [List.length_append, List.length_singleton] at this
          exact ⟨by omega, by omega⟩
      · exact ⟨by omega, by omega⟩

theorem regionStep_progress (hne : s ≠ []) :
    0 < (regionStep s).2 ∧ (regionStep s).2 ≤ s.length := by
  cases s with
  | nil => exact absurd rfl hne
  | cons c s =>
    have hquote := skipQuoted_le 39 s
    have hdquote := skipQuoted_le 34 s
    simp only [regionStep, List.length_cons]
    split
    · exact ⟨by omega, by omega⟩
    split
    · exact ⟨by omega, by omega⟩
    split
    · rename_i hc
      exact ⟨by rw [hc.1]; simp, length_takeWhile_le (· != 10) (c :: s)⟩
    split
    · rename_i hc
      have hblock := skipBlock_le 1 s.tail
      rw [List.length_tail] at hblock
      have hpos : 0 < s.length := List.length_pos_iff.mpr (fun hs => by simp [hs] at hc)
      exact ⟨by omega, by omega⟩
    split
    · exact regionDollar_progress s
    split
    · exact ⟨by omega, by omega⟩
    · exact ⟨by omega, by omega⟩

/-- The regions of a text, by the lexical rules of `scan`. -/
def sqlRule : Rule UInt8 Empty Region where
  step s := .ok (regionStep s)
  progress hne h := by
    have hstep := regionStep_progress hne
    rw [Except.ok.inj h] at hstep
    exact hstep

/-! ## A region does not depend on what follows it

Up to what its lookahead can see: whether the text ends, the next byte, and for
a lone dollar sign the first byte behind the identifier that follows. -/

variable {f : Region}

section Local

variable {s s' : Bytes}

theorem skipQuoted_pos {q : UInt8} (hne : s ≠ []) : 0 < skipQuoted q s := by
  match s, hne with
  | [_], _ => exact Nat.one_pos
  | c :: c' :: s, _ =>
    unfold skipQuoted
    split
    · split <;> omega
    · omega

theorem skipBlock_pos {d : Nat} (hne : s ≠ []) : 0 < skipBlock (d + 1) s := by
  match s, hne with
  | [_], _ => exact Nat.one_pos
  | c :: c' :: s, _ =>
    unfold skipBlock
    split
    · omega
    · split <;> omega

theorem skipQuoted_append {q : UInt8} (hnil : s = [] → s' = [])
    (hq : s'.head? = some q → s.head? = some q) :
    ∀ x : Bytes, skipQuoted q (x ++ s) = x.length → skipQuoted q (x ++ s') = x.length
  | [], h => by
    have hs : s = [] := by
      by_contra hne
      have := skipQuoted_pos (q := q) hne
      rw [List.nil_append, List.length_nil] at h
      omega
    rw [hnil hs]
    rfl
  | [c], h => by
    cases hs : s with
    | nil =>
      rw [hnil hs]
      rfl
    | cons d t =>
      rw [hs, List.singleton_append, skipQuoted] at h
      by_cases hc : c = q
      · rw [if_pos hc] at h
        cases hs' : s' with
        | nil => rfl
        | cons d' t' =>
          have hd' : d' ≠ q := by
            rintro rfl
            have hd := hq (by rw [hs']; rfl)
            rw [hs] at hd
            rw [if_pos (Option.some.inj hd)] at h
            simp only [List.length_singleton] at h
            omega
          rw [List.singleton_append, skipQuoted, if_pos hc, if_neg hd']
          rfl
      · rw [if_neg hc] at h
        have := skipQuoted_pos (q := q) (List.cons_ne_nil d t)
        simp only [List.length_singleton] at h
        omega
  | c :: c' :: x, h => by
    simp only [List.cons_append, skipQuoted, List.length_cons] at h ⊢
    by_cases hc : c = q
    · rw [if_pos hc] at h ⊢
      by_cases hc' : c' = q
      · rw [if_pos hc'] at h ⊢
        have := skipQuoted_append hnil hq x (by omega)
        omega
      · rw [if_neg hc'] at h
        omega
    · rw [if_neg hc] at h ⊢
      have := skipQuoted_append hnil hq (c' :: x)
          (by simp only [List.cons_append, List.length_cons]; omega)
      simp only [List.cons_append, List.length_cons] at this
      omega

theorem skipBlock_append (hnil : s = [] → s' = []) :
    ∀ (x : Bytes) (d : Nat), skipBlock d (x ++ s) = x.length → skipBlock d (x ++ s') = x.length
  | [], 0, _ => by simp [skipBlock]
  | c :: x, 0, h => by simp [skipBlock] at h
  | [], d + 1, h => by
    have hs : s = [] := by
      by_contra hne
      have := skipBlock_pos (d := d) hne
      rw [List.nil_append, List.length_nil] at h
      omega
    rw [hnil hs]
    rfl
  | [c], d + 1, h => by
    cases hs : s with
    | nil =>
      rw [hnil hs]
      rfl
    | cons c' t =>
      -- A comment that goes on takes more than this byte.
      have := skipBlock_pos (d := d) (List.cons_ne_nil c' t)
      simp only [hs, List.singleton_append, skipBlock, List.length_singleton] at h
      split at h
      · omega
      · split at h
        · omega
        · omega
  | c :: c' :: x, d + 1, h => by
    simp only [List.cons_append, skipBlock, List.length_cons] at h ⊢
    by_cases hopen : c = 47 ∧ c' = 42
    · rw [if_pos hopen] at h ⊢
      have := skipBlock_append hnil x (d + 2) (by omega)
      omega
    · rw [if_neg hopen] at h ⊢
      by_cases hclose : c = 42 ∧ c' = 47
      · rw [if_pos hclose] at h ⊢
        have := skipBlock_append hnil x d (by omega)
        omega
      · rw [if_neg hclose] at h ⊢
        have := skipBlock_append hnil (c' :: x) (d + 1)
          (by simp only [List.cons_append, List.length_cons]; omega)
        simp only [List.cons_append, List.length_cons] at this
        omega

theorem isPrefixOf_append {pat y : Bytes} (hlen : pat.length ≤ y.length) :
    pat.isPrefixOf (y ++ s) = pat.isPrefixOf (y ++ s') := by
  rw [Bool.eq_iff_iff, List.isPrefixOf_iff_prefix, List.isPrefixOf_iff_prefix,
    List.prefix_iff_eq_take, List.prefix_iff_eq_take, List.take_append_of_le_length hlen,
    List.take_append_of_le_length hlen]

theorem index_append {pat : Bytes} (hpat : pat ≠ []) :
    ∀ {x : Bytes} {k : Nat}, index pat (x ++ s) = some k → k + pat.length ≤ x.length →
      index pat (x ++ s') = some k := by
  intro x
  induction x with
  | nil =>
    intro k _ hle
    have := List.length_pos_iff.mpr hpat
    rw [List.length_nil] at hle
    omega
  | cons c x ih =>
    intro k h hle
    have hpre : pat.isPrefixOf (c :: x ++ s) = pat.isPrefixOf (c :: x ++ s') :=
      isPrefixOf_append (by omega)
    rw [List.cons_append, index, ← List.cons_append] at h ⊢
    rw [← hpre]
    split at h
    · rename_i hyes
      rw [if_pos hyes]
      exact h
    · rename_i hno
      rw [if_neg hno]
      obtain ⟨j, hj, rfl⟩ := Option.map_eq_some_iff.mp h
      rw [List.length_cons] at hle
      rw [ih hj (by omega)]
      rfl

theorem regionDollar_append_inert (hnil : s = [] → s' = []) {x : Bytes}
    (h : regionDollar (x ++ s) = (.inert, 1 + x.length)) :
    regionDollar (x ++ s') = (.inert, 1 + x.length) := by
  by_cases hs : s = []
  · rw [hnil hs, ← hs]
    exact h
  unfold regionDollar at h
  split at h
  · cases h
  rename_i hdigits
  split at h
  · cases h
  rename_i c body hbody
  split at h
  · rename_i hc
    have htext := List.takeWhile_append_dropWhile (p := isIdentChar) (l := x ++ s)
    rw [hbody, hc] at htext
    split at h
    · -- The string is not closed: nothing follows it.
      have hlen := (Prod.mk.inj h).2
      rw [List.length_append] at hlen
      exact absurd (List.length_eq_zero_iff.mp (by omega)) hs
    · rename_i k hk
      have hlen := (Prod.mk.inj h).2
      obtain ⟨tag, htag⟩ : ∃ tag, tag = (x ++ s).takeWhile isIdentChar := ⟨_, rfl⟩
      have hidents : ∀ a ∈ tag, isIdentChar a = true :=
        fun a ha => List.all_eq_true.mp List.all_takeWhile a (htag ▸ ha)
      rw [← htag] at htext hk hlen
      -- The opening tag and the string lie inside the piece.
      have hopen : tag ++ [36] <+: x := by
        have hwhole : tag ++ [36] <+: x ++ s := ⟨body, by rw [List.append_assoc]; exact htext⟩
        refine List.prefix_of_prefix_length_le hwhole (List.prefix_append x s) ?_
        rw [List.length_append, List.length_singleton]
        omega
      obtain ⟨body₀, rfl⟩ := hopen
      have hbody₀ : body = body₀ ++ s := by
        rw [List.append_assoc, List.append_assoc] at htext
        exact (List.cons.inj (List.append_cancel_left htext)).2
      have htake : (tag ++ [36] ++ body₀ ++ s').takeWhile isIdentChar = tag := by
        rw [List.append_assoc, List.append_assoc, List.takeWhile_append_of_pos hidents,
          List.singleton_append, List.takeWhile_cons, if_neg (by decide), List.append_nil]
      have hdrop : (tag ++ [36] ++ body₀ ++ s').dropWhile isIdentChar = 36 :: (body₀ ++ s') := by
        rw [List.append_assoc, List.append_assoc, List.dropWhile_append_of_pos hidents,
          List.singleton_append, List.dropWhile_cons, if_neg (by decide)]
      have hnodigit : (tag ++ [36] ++ body₀ ++ s').takeWhile isDigit = [] := by
        rw [not_not] at hdigits
        rw [← List.isEmpty_iff] at hdigits ⊢
        cases htagc : tag with
        | nil => rfl
        | cons a tag =>
          rw [htagc] at hdigits
          simpa [List.takeWhile_cons] using hdigits
      have hfound : index ([36] ++ tag ++ [36]) (body₀ ++ s') = some k := by
        rw [hbody₀] at hk
        have hpat : ([36] ++ tag ++ [36] : Bytes).length = tag.length + 2 := by
          rw [List.length_append, List.length_append, List.length_singleton]
          omega
        refine index_append (List.append_ne_nil_of_right_ne_nil _ (List.cons_ne_nil _ _)) hk ?_
        rw [hpat]
        rw [List.length_append, List.length_append, List.length_singleton] at hlen
        omega
      unfold regionDollar
      rw [if_neg (not_not.mpr hnodigit), hdrop]
      simp only [if_true, htake, hfound]
      rw [← hlen]
  · cases h

/-- What a region can see of the text behind it agrees, up to a marker in place
of another byte. -/
structure SameAhead (s s' : Bytes) : Prop where
  nil : s = [] → s' = []
  head : ∀ d, d ≠ 63 → s'.head? = some d → s.head? = some d
  newline : s.head? = some 10 → s'.head? = some 10
  tag : (s.dropWhile isIdentChar).head? ≠ some 36 → (s'.dropWhile isIdentChar).head? ≠ some 36

theorem takeWhile_isDigit_eq_nil :
    s.takeWhile isDigit = [] ↔ ∀ d, s.head? = some d → isDigit d = false := by
  cases s with
  | nil => simp
  | cons c s => cases h : isDigit c <;> simp [h]

theorem SameAhead.refl (s : Bytes) : SameAhead s s :=
  ⟨fun h => h, fun _ _ h => h, fun h => h, fun h => h⟩

theorem takeWhile_line_eq_nil : s.takeWhile (· != 10) = [] ↔ s = [] ∨ s.head? = some 10 := by
  cases s with
  | nil => simp
  | cons c s => by_cases h : c = 10 <;> simp [h]

theorem takeWhile_line_append (hahead : SameAhead s s') {y : Bytes}
    (h : ((y ++ s).takeWhile (· != 10)).length = y.length) :
    s.takeWhile (· != 10) = [] ∧ ((y ++ s').takeWhile (· != 10)).length = y.length := by
  have htake : (y ++ s).takeWhile (· != 10) = y := by
    have hpre := List.prefix_iff_eq_take.mp (List.takeWhile_prefix (· != 10) (l := y ++ s))
    rw [h, List.take_left] at hpre
    exact hpre
  have hall : ∀ a ∈ y, (a != 10) = true := by
    intro a ha
    rw [← htake] at ha
    exact List.all_eq_true.mp List.all_takeWhile a ha
  rw [List.takeWhile_append_of_pos hall] at htake
  have hstop : s.takeWhile (· != 10) = [] := by
    have hlen := congrArg List.length htake
    rw [List.length_append] at hlen
    exact List.length_eq_zero_iff.mp (by omega)
  refine ⟨hstop, ?_⟩
  have hstop' : s'.takeWhile (· != 10) = [] := by
    rw [takeWhile_line_eq_nil] at hstop ⊢
    exact hstop.imp hahead.nil hahead.newline
  rw [List.takeWhile_append_of_pos hall, hstop', List.append_nil]

theorem regionDollar_ne_marker : (regionDollar s).1 ≠ .marker := by
  unfold regionDollar
  split
  · simp
  · split
    · simp
    · split
      · split <;> simp
      · simp

theorem regionDollar_append_plain (hahead : SameAhead s s') (h : (regionDollar s).1 = .plain) :
    regionDollar s' = (.plain, 1) := by
  unfold regionDollar at h
  split at h
  · cases h
  rename_i hdigits
  have hhead : (s.dropWhile isIdentChar).head? ≠ some 36 := by
    intro heq
    split at h
    · rename_i hbody
      rw [hbody] at heq
      cases heq
    · rename_i c body hbody
      rw [hbody] at heq
      rw [if_pos (Option.some.inj heq)] at h
      split at h
      · cases h
      · cases h
  have hdigits' : s'.takeWhile isDigit = [] := by
    rw [not_not, takeWhile_isDigit_eq_nil] at hdigits
    rw [takeWhile_isDigit_eq_nil]
    intro d hd
    by_cases hmark : d = 63
    · rw [hmark]
      rfl
    · exact hdigits d (hahead.head d hmark hd)
  have htag := hahead.tag hhead
  unfold regionDollar
  rw [if_neg (not_not.mpr hdigits')]
  split
  · rfl
  · rename_i c body hbody
    rw [if_neg]
    rintro rfl
    rw [hbody] at htag
    exact htag rfl

/-- **A region that is no placeholder is the same in front of a text that looks
the same.** -/
theorem regionStep_append (hahead : SameAhead s s') {w : Bytes} (hw : w ≠ [])
    (hf : ∀ ds, f ≠ .positional ds) (h : regionStep (w ++ s) = (f, w.length)) :
    regionStep (w ++ s') = (f, w.length) := by
  obtain ⟨c, x, rfl⟩ := List.exists_cons_of_ne_nil hw
  have hhead : ∀ d, d ≠ 63 → (x ++ s').head? = some d → (x ++ s).head? = some d := by
    intro d hd
    cases x with
    | nil => exact hahead.head d hd
    | cons a x => exact fun h => h
  simp only [List.cons_append, regionStep, List.length_cons] at h ⊢
  by_cases hquote : c = 39
  · rw [if_pos hquote] at h ⊢
    obtain ⟨rfl, hlen⟩ := Prod.mk.inj h
    rw [skipQuoted_append hahead.nil (hahead.head 39 (by decide)) x (by omega), Nat.add_comm]
  rw [if_neg hquote] at h ⊢
  by_cases hdquote : c = 34
  · rw [if_pos hdquote] at h ⊢
    obtain ⟨rfl, hlen⟩ := Prod.mk.inj h
    rw [skipQuoted_append hahead.nil (hahead.head 34 (by decide)) x (by omega), Nat.add_comm]
  rw [if_neg hdquote] at h ⊢
  by_cases hline : c = 45 ∧ (x ++ s).head? = some 45
  · rw [if_pos hline] at h
    obtain ⟨rfl, hlen⟩ := Prod.mk.inj h
    obtain ⟨hstop, hlen'⟩ := takeWhile_line_append (y := c :: x) hahead hlen
    have hnext : (x ++ s').head? = some 45 := by
      cases x with
      | nil =>
        rcases takeWhile_line_eq_nil.mp hstop with hnil | hnl
        · rw [hnil] at hline
          exact absurd hline.2 (by simp)
        · rw [List.nil_append, hnl] at hline
          exact absurd hline.2 (by decide)
      | cons a x => exact hline.2
    rw [if_pos ⟨hline.1, hnext⟩]
    exact congrArg (Prod.mk _) hlen'
  rw [if_neg hline] at h
  rw [if_neg fun hc => hline ⟨hc.1, hhead 45 (by decide) hc.2⟩]
  by_cases hblock : c = 47 ∧ (x ++ s).head? = some 42
  · rw [if_pos hblock] at h
    obtain ⟨rfl, hlen⟩ := Prod.mk.inj h
    cases x with
    | nil =>
      rw [List.length_nil] at hlen
      omega
    | cons a x =>
      rw [if_pos ⟨hblock.1, hblock.2⟩]
      rw [List.cons_append, List.tail_cons, List.length_cons] at hlen
      rw [List.cons_append, List.tail_cons, skipBlock_append hahead.nil x 1 (by omega),
        List.length_cons]
      exact congrArg (Prod.mk _) (by omega)
  rw [if_neg hblock] at h
  rw [if_neg fun hc => hblock ⟨hc.1, hhead 42 (by decide) hc.2⟩]
  by_cases hdollar : c = 36
  · rw [if_pos hdollar] at h ⊢
    cases f with
    | inert =>
      rw [Nat.add_comm] at h ⊢
      exact regionDollar_append_inert hahead.nil h
    | positional ds => exact absurd rfl (hf ds)
    | marker => exact absurd (congrArg Prod.fst h) regionDollar_ne_marker
    | plain =>
      have hplain : (regionDollar (x ++ s)).1 = .plain := congrArg Prod.fst h
      have hone := regionDollar_append_plain (.refl (x ++ s)) hplain
      obtain rfl : x = [] := by
        rw [h] at hone
        have hlen := (Prod.mk.inj hone).2
        exact List.length_eq_zero_iff.mp (by omega)
      exact regionDollar_append_plain hahead hplain
  rw [if_neg hdollar] at h ⊢
  exact h

end Local

/-! ## The translated text -/

/-- A placeholder token becomes a marker; every other piece stays. -/
def toTrino : Region × Bytes → Region × Bytes
  | (.positional _, _) => (.marker, bytes "?")
  | p => p

/-- The text with its placeholder tokens replaced. -/
def translate (ps : List (Region × Bytes)) : Bytes := (ps.map toTrino).flatMap Prod.snd

theorem translate_cons (p : Region × Bytes) (ps : List (Region × Bytes)) :
    translate (p :: ps) = (toTrino p).2 ++ translate ps := by
  rw [translate, List.map_cons, List.flatMap_cons, translate]

theorem toTrino_of_ne (hf : ∀ ds, f ≠ .positional ds) (w : Bytes) : toTrino (f, w) = (f, w) := by
  cases f with
  | positional ds => exact absurd rfl (hf ds)
  | inert => rfl
  | marker => rfl
  | plain => rfl

theorem regionDollar_positional {ds : Bytes} (h : regionDollar s = (.positional ds, k)) :
    ds = s.takeWhile isDigit ∧ ds ≠ [] ∧ k = 1 + ds.length := by
  unfold regionDollar at h
  split at h
  · rename_i hdigits
    cases h
    exact ⟨rfl, hdigits, rfl⟩
  · split at h
    · cases h
    · split at h
      · split at h
        · cases h
        · cases h
      · cases h

theorem regionStep_positional {c : UInt8} {ds : Bytes}
    (h : regionStep (c :: s) = (.positional ds, k)) :
    c = 36 ∧ ds = s.takeWhile isDigit ∧ ds ≠ [] ∧ k = 1 + ds.length := by
  simp only [regionStep] at h
  split at h
  · cases h
  split at h
  · cases h
  split at h
  · cases h
  split at h
  · cases h
  split at h
  · rename_i hc
    exact ⟨hc, regionDollar_positional h⟩
  split at h
  · cases h
  · cases h

theorem regionStep_ident {c : UInt8} (hc : isIdentChar c = true) (s : Bytes) :
    regionStep (c :: s) = (.plain, 1) := by
  have hne : ∀ d, isIdentChar d = false → c ≠ d := by
    rintro d hd rfl
    rw [hc] at hd
    cases hd
  simp only [regionStep]
  rw [if_neg (hne 39 (by decide)), if_neg (hne 34 (by decide)),
    if_neg fun h => hne 45 (by decide) h.1, if_neg fun h => hne 47 (by decide) h.1,
    if_neg (hne 36 (by decide)), if_neg (hne 63 (by decide))]

theorem head?_translate (ps : List (Region × Bytes))
    (hne : s ≠ []) (hstep : regionStep s = (f, k)) :
    (translate ((f, s.take k) :: ps)).head? = some 63 ∧ s.head? = some 36 ∨
    (translate ((f, s.take k) :: ps)).head? = s.head? := by
  obtain ⟨c, s, rfl⟩ := List.exists_cons_of_ne_nil hne
  rw [translate_cons]
  by_cases hf : ∃ ds, f = .positional ds
  · obtain ⟨ds, rfl⟩ := hf
    obtain ⟨rfl, -⟩ := regionStep_positional hstep
    exact .inl ⟨rfl, rfl⟩
  · have hk := regionStep_progress hne
    rw [hstep] at hk
    obtain ⟨j, rfl⟩ : ∃ j, k = j + 1 := ⟨k - 1, by omega⟩
    rw [toTrino_of_ne fun ds h => hf ⟨ds, h⟩]
    exact .inr rfl

variable {ps : List (Region × Bytes)}

theorem sameAhead_translate (hlex : sqlRule.Lexes s ps) : SameAhead s (translate ps) := by
  induction hlex with
  | nil => exact .refl []
  | @cons s f k ps hne hstep hrest ih =>
    have hstep' : regionStep s = (f, k) := Except.ok.inj hstep
    have hhead := head?_translate ps hne hstep'
    refine ⟨fun h => absurd h hne, fun d hd hhd => ?_, fun hnl => ?_, fun htag => ?_⟩
    · rcases hhead with ⟨hmark, -⟩ | hsame
      · rw [hmark] at hhd
        exact absurd (Option.some.inj hhd).symm hd
      · rw [← hsame]
        exact hhd
    · rcases hhead with ⟨-, hdollar⟩ | hsame
      · rw [hdollar] at hnl
        exact absurd hnl (by decide)
      · rw [hsame]
        exact hnl
    · obtain ⟨c, s, rfl⟩ := List.exists_cons_of_ne_nil hne
      cases hc : isIdentChar c with
      | true =>
        rw [regionStep_ident hc] at hstep'
        cases hstep'
        rw [translate_cons, List.dropWhile_cons, if_pos hc] at *
        show ((c :: translate ps).dropWhile isIdentChar).head? ≠ some 36
        rw [List.dropWhile_cons, if_pos hc]
        exact ih.tag htag
      | false =>
        rw [List.dropWhile_cons, if_neg (by simp [hc])] at htag
        -- The translated text starts with this byte or with a marker.
        have hstart : ∀ d t, translate ((f, (c :: s).take k) :: ps) = d :: t →
            isIdentChar d = false ∧ d ≠ 36 := by
          intro d t hdt
          rw [hdt] at hhead
          rcases hhead with ⟨hmark, -⟩ | hsame
          · rw [Option.some.inj hmark]
            exact ⟨by decide, by decide⟩
          · rw [Option.some.inj hsame]
            exact ⟨hc, fun h => htag (by rw [h]; rfl)⟩
        cases htext : translate ((f, (c :: s).take k) :: ps) with
        | nil => simp
        | cons d t =>
          obtain ⟨hd, hne36⟩ := hstart d t htext
          rw [List.dropWhile_cons, if_neg (by simp [hd])]
          exact fun h => hne36 (Option.some.inj h)

theorem lexes_translate (hlex : sqlRule.Lexes s ps) :
    sqlRule.Lexes (translate ps) (ps.map toTrino) := by
  induction hlex with
  | nil => exact .nil
  | @cons s f k ps hne hstep hrest ih =>
    have hstep' : regionStep s = (f, k) := Except.ok.inj hstep
    have hk := regionStep_progress hne
    rw [hstep'] at hk
    have hlen : (s.take k).length = k := List.length_take_of_le hk.2
    have hw : s.take k ≠ [] := fun h => by rw [h, List.length_nil] at hlen; omega
    have hfirst : regionStep ((toTrino (f, s.take k)).2 ++ translate ps) =
        ((toTrino (f, s.take k)).1, (toTrino (f, s.take k)).2.length) := by
      by_cases hf : ∃ ds, f = .positional ds
      · obtain ⟨ds, rfl⟩ := hf
        rfl
      · have hf' : ∀ ds, f ≠ .positional ds := fun ds h => hf ⟨ds, h⟩
        rw [toTrino_of_ne hf']
        refine regionStep_append (sameAhead_translate hrest) hw hf' ?_
        rw [List.take_append_drop, hstep', hlen]
    have hne' : (toTrino (f, s.take k)).2 ≠ [] := by
      cases f with
      | positional ds => exact List.cons_ne_nil _ _
      | inert => exact hw
      | marker => exact hw
      | plain => exact hw
    have hrest' : sqlRule.Lexes (((toTrino (f, s.take k)).2 ++ translate ps).drop
        (toTrino (f, s.take k)).2.length) (ps.map toTrino) := by
      rw [List.drop_left]
      exact ih
    have hcons := Rule.Lexes.cons
      (List.append_ne_nil_of_left_ne_nil hne' (translate ps)) (congrArg Except.ok hfirst) hrest'
    rw [List.take_left] at hcons
    rw [translate_cons]
    exact hcons

/-! ## Matches and tokens -/

/-- The digits of the placeholder tokens, in order. -/
def positionals (ps : List (Region × Bytes)) : List Bytes :=
  ps.filterMap fun p =>
    match p.1 with
    | .positional ds => some ds
    | _ => none

theorem positionals_positional (ds w : Bytes) (ps : List (Region × Bytes)) :
    positionals ((.positional ds, w) :: ps) = ds :: positionals ps := rfl

theorem positionals_of_ne (hf : ∀ ds, f ≠ .positional ds) (w : Bytes)
    (ps : List (Region × Bytes)) : positionals ((f, w) :: ps) = positionals ps := by
  cases f with
  | positional ds => exact absurd rfl (hf ds)
  | inert => rfl
  | marker => rfl
  | plain => rfl

/-- The digits of the matches of the regular expression, in order. -/
def dollarMatches (text : Bytes) : List Bytes := (dollarPlaceholder.pieces text).filterMap Prod.fst

/-- How many dollar signs have a digit behind them. -/
def matchCount : Bytes → Nat
  | [] => 0
  | c :: s => (if c = 36 ∧ s.takeWhile isDigit ≠ [] then 1 else 0) + matchCount s

theorem matchCount_le_append (w s : Bytes) : matchCount s ≤ matchCount (w ++ s) := by
  induction w with
  | nil => exact Nat.le_refl _
  | cons c w ih =>
    rw [List.cons_append, matchCount]
    omega

theorem matchCount_takeWhile_digits (s : Bytes) :
    matchCount (s.dropWhile isDigit) = matchCount s := by
  induction s with
  | nil => rfl
  | cons c s ih =>
    rw [List.dropWhile_cons]
    split
    · rename_i hdigit
      have hc : c ≠ 36 := by
        rintro rfl
        exact absurd hdigit (by decide)
      rw [ih, matchCount, if_neg fun h => hc h.1, Nat.zero_add]
    · rfl

theorem drop_takeWhile_digits (c : UInt8) (s : Bytes) :
    (c :: s).drop (1 + (s.takeWhile isDigit).length) = s.dropWhile isDigit := by
  have hsplit := List.takeWhile_append_dropWhile (p := isDigit) (l := s)
  calc (c :: s).drop (1 + (s.takeWhile isDigit).length)
      = s.drop (s.takeWhile isDigit).length := by rw [Nat.add_comm, List.drop_succ_cons]
    _ = (s.takeWhile isDigit ++ s.dropWhile isDigit).drop (s.takeWhile isDigit).length := by
        rw [hsplit]
    _ = s.dropWhile isDigit := List.drop_left

theorem length_dollarMatches
    (hlex : dollarPlaceholder.Lexes s qs) : (qs.filterMap Prod.fst).length = matchCount s := by
  induction hlex with
  | nil => rfl
  | @cons s t k qs hne hstep hrest ih =>
    obtain ⟨c, s, rfl⟩ := List.exists_cons_of_ne_nil hne
    have hstep' : dollarStep (c :: s) = .ok (t, k) := hstep
    rw [dollarStep] at hstep'
    rw [matchCount]
    by_cases hmatch : c = 36 ∧ s.takeWhile isDigit ≠ []
    · rw [if_pos hmatch] at hstep' ⊢
      cases hstep'
      rw [drop_takeWhile_digits, matchCount_takeWhile_digits] at ih
      show (s.takeWhile isDigit :: qs.filterMap Prod.fst).length = _
      rw [List.length_cons, ih, Nat.add_comm]
    · rw [if_neg hmatch] at hstep' ⊢
      cases hstep'
      show (qs.filterMap Prod.fst).length = _
      rw [ih, Nat.zero_add, List.drop_one, List.tail_cons]

theorem length_positionals_le
    (hlex : sqlRule.Lexes s ps) : (positionals ps).length ≤ matchCount s := by
  induction hlex with
  | nil => exact Nat.le_refl _
  | @cons s f k ps hne hstep hrest ih =>
    have hle := matchCount_le_append (s.take k) (s.drop k)
    rw [List.take_append_drop] at hle
    cases f with
    | positional ds =>
      obtain ⟨c, s, rfl⟩ := List.exists_cons_of_ne_nil hne
      obtain ⟨rfl, rfl, hds, rfl⟩ := regionStep_positional (Except.ok.inj hstep)
      rw [drop_takeWhile_digits, matchCount_takeWhile_digits] at ih
      rw [matchCount, if_pos ⟨rfl, hds⟩, positionals_positional, List.length_cons, Nat.add_comm]
      exact Nat.add_le_add_left ih 1
    | inert => exact Nat.le_trans ih hle
    | marker => exact Nat.le_trans ih hle
    | plain => exact Nat.le_trans ih hle

/-- What `trinoize` writes for a piece. -/
def marked (q : Option Bytes × Bytes) : Bytes :=
  match q.1 with
  | some _ => bytes "?"
  | none => q.2

theorem dollarPlaceholder_copies (hlex : dollarPlaceholder.Lexes s qs) :
    ∀ w : Bytes, matchCount (w ++ s) = matchCount s →
      dollarPlaceholder.Lexes (w ++ s) (w.map (fun c => (none, [c])) ++ qs) := by
  intro w
  induction w with
  | nil => exact fun _ => hlex
  | cons c w ih =>
    intro hcount
    have hle := matchCount_le_append w s
    rw [List.cons_append, matchCount] at hcount
    have hno : ¬ (c = 36 ∧ (w ++ s).takeWhile isDigit ≠ []) := by
      intro hmatch
      rw [if_pos hmatch] at hcount
      omega
    have hstep : dollarPlaceholder.step (c :: (w ++ s)) = .ok (none, 1) := by
      show dollarStep (c :: (w ++ s)) = .ok (none, 1)
      rw [dollarStep, if_neg hno]
    exact .cons (List.cons_ne_nil c _) hstep (ih (by rw [if_neg hno] at hcount; omega))

theorem flatMap_marked_copies (w : Bytes) :
    (w.map fun c => ((none : Option Bytes), [c])).flatMap marked = w := by
  induction w with
  | nil => rfl
  | cons c w ih => rw [List.map_cons, List.flatMap_cons, ih]; rfl

theorem filterMap_fst_copies (w : Bytes) :
    (w.map fun c => ((none : Option Bytes), [c])).filterMap Prod.fst = [] := by
  induction w with
  | nil => rfl
  | cons c w ih => exact ih

/-- **Where all matches are tokens** the search sees the tokens and nothing
else. -/
theorem dollarPlaceholder_of_count (hlex : sqlRule.Lexes s ps) :
    (positionals ps).length = matchCount s →
      ∃ qs, dollarPlaceholder.Lexes s qs ∧ qs.filterMap Prod.fst = positionals ps ∧
        qs.flatMap marked = translate ps := by
  induction hlex with
  | nil => exact fun _ => ⟨[], .nil, rfl, rfl⟩
  | @cons s f k ps hne hstep hrest ih =>
    intro hcount
    have hbound := length_positionals_le hrest
    by_cases hf : ∃ ds, f = .positional ds
    · obtain ⟨ds, rfl⟩ := hf
      obtain ⟨c, s, rfl⟩ := List.exists_cons_of_ne_nil hne
      obtain ⟨rfl, rfl, hds, rfl⟩ := regionStep_positional (Except.ok.inj hstep)
      rw [drop_takeWhile_digits, matchCount_takeWhile_digits] at ih hbound
      rw [matchCount, if_pos ⟨rfl, hds⟩, positionals_positional, List.length_cons] at hcount
      obtain ⟨qs, hqs, htokens, htext⟩ := ih (by omega)
      refine ⟨(some (s.takeWhile isDigit), (36 :: s).take (1 + (s.takeWhile isDigit).length)) :: qs,
        .cons hne ?_ ?_, ?_, ?_⟩
      · show dollarStep (36 :: s) = _
        rw [dollarStep, if_pos ⟨rfl, hds⟩]
      · rw [drop_takeWhile_digits]
        exact hqs
      · rw [positionals_positional, ← htokens]
        rfl
      · rw [List.flatMap_cons, htext, translate_cons]
        rfl
    · have hf' : ∀ ds, f ≠ .positional ds := fun ds h => hf ⟨ds, h⟩
      have hle := matchCount_le_append (s.take k) (s.drop k)
      rw [List.take_append_drop] at hle
      rw [positionals_of_ne hf'] at hcount ⊢
      obtain ⟨qs, hqs, htokens, htext⟩ := ih (by omega)
      have hcopy := dollarPlaceholder_copies hqs (s.take k) (by
        rw [List.take_append_drop]
        omega)
      rw [List.take_append_drop] at hcopy
      refine ⟨_, hcopy, ?_, ?_⟩
      · rw [List.filterMap_append, filterMap_fst_copies, List.nil_append, htokens]
      · rw [List.flatMap_append, flatMap_marked_copies, htext, translate_cons, toTrino_of_ne hf']

/-! ## The translation is faithful exactly where the two views agree -/

section Faithful

variable {V : Type}

theorem trinoizeLoop_ok_iff {args : List V} {text : Bytes} {expanded : List V} :
    trinoizeLoop args qs = .ok (text, expanded) ↔
      text = qs.flatMap marked ∧ (qs.filterMap Prod.fst).map (argAt args) = expanded.map some := by
  induction qs generalizing text expanded with
  | nil =>
    constructor
    · intro h
      cases h
      exact ⟨rfl, rfl⟩
    · rintro ⟨rfl, hargs⟩
      rw [List.map_eq_nil_iff.mp hargs.symm]
      rfl
  | cons q qs ih =>
    obtain ⟨found, w⟩ := q
    cases found with
    | none =>
      rw [trinoizeLoop]
      constructor
      · intro h
        cases hloop : trinoizeLoop args qs with
        | error e => rw [hloop] at h; cases h
        | ok r =>
          obtain ⟨text', expanded'⟩ := r
          rw [hloop] at h
          cases h
          obtain ⟨rfl, hargs⟩ := ih.mp hloop
          exact ⟨rfl, hargs⟩
      · rintro ⟨rfl, hargs⟩
        rw [ih.mpr ⟨rfl, hargs⟩]
        rfl
    | some ds =>
      rw [trinoizeLoop]
      constructor
      · intro h
        cases harg : argAt args ds with
        | none => rw [harg] at h; cases h
        | some v =>
          rw [harg] at h
          cases hloop : trinoizeLoop args qs with
          | error e => simp only [hloop] at h; cases h
          | ok r =>
            obtain ⟨text', expanded'⟩ := r
            simp only [hloop] at h
            cases h
            obtain ⟨rfl, hargs⟩ := ih.mp hloop
            refine ⟨rfl, ?_⟩
            show argAt args ds :: _ = _
            rw [harg, hargs]
            rfl
      · rintro ⟨rfl, hargs⟩
        have hargs' : argAt args ds :: (qs.filterMap Prod.fst).map (argAt args) =
            expanded.map some := hargs
        cases expanded with
        | nil => cases hargs'
        | cons v expanded =>
          obtain ⟨harg, hrest⟩ := List.cons.inj hargs'
          simp only [harg, ih.mpr ⟨rfl, hrest⟩]
          rfl

theorem map_eq_map_some {A B : Type} {f : A → Option B} {l : List A} (h : ∀ a ∈ l, f a ≠ none) :
    l.map f = (l.filterMap f).map some := by
  induction l with
  | nil => rfl
  | cons a l ih =>
    obtain ⟨b, hb⟩ := Option.ne_none_iff_exists'.mp (h a List.mem_cons_self)
    rw [List.map_cons, List.filterMap_cons_some hb, List.map_cons,
      ih fun x hx => h x (List.mem_cons_of_mem a hx), hb]

/-- How many markers a text has outside literals, quoted identifiers and
comments. -/
def markerCount (ps : List (Region × Bytes)) : Nat := ps.countP fun p => p.1 = .marker

/-- The translation keeps the bindings: the regions of the text are those of the
input with its placeholder tokens turned into markers; there is one argument for
each marker, and the argument of the `k`-th marker is the one that the `k`-th
placeholder token names. -/
structure TrinoFaithful (sqlText : Bytes) (args : List V) (text : Bytes) (expanded : List V) :
    Prop where
  regions : sqlRule.pieces text = (sqlRule.pieces sqlText).map toTrino
  markers : markerCount (sqlRule.pieces text) = expanded.length
  bound : expanded.map some = (positionals (sqlRule.pieces sqlText)).map (argAt args)

/-- Some `$n` of the text, wherever it stands, names no argument; or every `$n` of
the text is a placeholder token and the text has no marker of its own. -/
def TrinoSafe (sqlText : Bytes) (args : List V) : Prop :=
  (∃ ds ∈ dollarMatches sqlText, argAt args ds = none) ∨
  (dollarMatches sqlText = positionals (sqlRule.pieces sqlText) ∧
    markerCount (sqlRule.pieces sqlText) = 0)

theorem markerCount_toTrino (ps : List (Region × Bytes)) :
    markerCount (ps.map toTrino) = markerCount ps + (positionals ps).length := by
  induction ps with
  | nil => rfl
  | cons p ps ih =>
    obtain ⟨f, w⟩ := p
    unfold markerCount at ih ⊢
    cases f with
    | positional ds =>
      rw [List.map_cons, List.countP_cons, List.countP_cons, ih, positionals_positional,
        List.length_cons]
      simp [toTrino]
      omega
    | marker =>
      rw [List.map_cons, List.countP_cons, List.countP_cons, ih,
        positionals_of_ne (fun _ => by simp)]
      simp [toTrino]
      omega
    | inert =>
      rw [List.map_cons, List.countP_cons, List.countP_cons, ih,
        positionals_of_ne (fun _ => by simp)]
      simp [toTrino]
    | plain =>
      rw [List.map_cons, List.countP_cons, List.countP_cons, ih,
        positionals_of_ne (fun _ => by simp)]
      simp [toTrino]

theorem dollarMatches_eq_of_length {sqlText : Bytes}
    (h : (dollarMatches sqlText).length = (positionals (sqlRule.pieces sqlText)).length) :
    dollarMatches sqlText = positionals (sqlRule.pieces sqlText) ∧
      (dollarPlaceholder.pieces sqlText).flatMap marked = translate (sqlRule.pieces sqlText) := by
  have hlex := sqlRule.lexes_pieces sqlText
  have hcount := length_dollarMatches (dollarPlaceholder.lexes_pieces sqlText)
  obtain ⟨qs, hqs, htokens, htext⟩ := dollarPlaceholder_of_count hlex (by rw [← h, ← hcount]; rfl)
  rw [dollarMatches, hqs.pieces_eq]
  exact ⟨htokens, htext⟩

/-- **The translation preserves the bindings exactly on safe texts.** -/
theorem trinoize_faithful_iff (sqlText : Bytes) (args : List V) :
    (∀ text expanded, trinoize sqlText args = .ok (text, expanded) →
      TrinoFaithful sqlText args text expanded) ↔ TrinoSafe sqlText args := by
  constructor
  · intro hall
    by_cases hrange : ∃ ds ∈ dollarMatches sqlText, argAt args ds = none
    · exact .inl hrange
    · -- Every match names an argument, so there is a result.
      obtain ⟨expanded, hexpanded⟩ : ∃ expanded : List V,
          (dollarMatches sqlText).map (argAt args) = expanded.map some := by
        refine ⟨_, map_eq_map_some fun ds hds hnone => hrange ⟨ds, hds, hnone⟩⟩
      have hok : trinoize sqlText args =
          .ok ((dollarPlaceholder.pieces sqlText).flatMap marked, expanded) :=
        trinoizeLoop_ok_iff.mpr ⟨rfl, hexpanded⟩
      obtain ⟨hregions, hmarkers, hbound⟩ := hall _ _ hok
      have hlen : (dollarMatches sqlText).length =
          (positionals (sqlRule.pieces sqlText)).length := by
        have h₁ := congrArg List.length hexpanded
        have h₂ := congrArg List.length hbound
        simp only [List.length_map] at h₁ h₂
        omega
      refine .inr ⟨(dollarMatches_eq_of_length hlen).1, ?_⟩
      rw [hregions, markerCount_toTrino] at hmarkers
      have h₂ := congrArg List.length hbound
      simp only [List.length_map] at h₂
      omega
  · rintro (⟨ds, hds, hnone⟩ | ⟨hmatches, hmarkers⟩) text expanded hok
    · obtain ⟨-, hargs⟩ := trinoizeLoop_ok_iff.mp hok
      have hmem : (none : Option V) ∈ expanded.map some := by
        rw [← hargs, ← hnone]
        exact List.mem_map_of_mem hds
      simp at hmem
    · obtain ⟨rfl, hargs⟩ := trinoizeLoop_ok_iff.mp hok
      have htext := (dollarMatches_eq_of_length (congrArg List.length hmatches)).2
      have hregions : sqlRule.pieces ((dollarPlaceholder.pieces sqlText).flatMap marked) =
          (sqlRule.pieces sqlText).map toTrino := by
        rw [htext]
        exact (lexes_translate (sqlRule.lexes_pieces sqlText)).pieces_eq
      have hbound : expanded.map some = (positionals (sqlRule.pieces sqlText)).map
          (argAt args) := by
        rw [← hmatches]
        exact hargs.symm
      refine ⟨hregions, ?_, hbound⟩
      rw [hregions, markerCount_toTrino, hmarkers, Nat.zero_add]
      have h := congrArg List.length hbound
      simp only [List.length_map] at h
      exact h.symm

/-- A rewritten text with `$1` inside a literal: the literal is changed, and the
one placeholder gets two arguments. -/
theorem trinoize_changes_literal :
    rewrite (bytes "SELECT '$1', :x") (sampleBindings 7 []) (fun _ => none) =
      .ok ⟨bytes "SELECT '$1', $1", [7], [bytes "x"]⟩ ∧
    trinoize (bytes "SELECT '$1', $1") [7] = .ok (bytes "SELECT '?', ?", [7, 7]) ∧
    ¬ TrinoFaithful (bytes "SELECT '$1', $1") [7] (bytes "SELECT '?', ?") [7, 7] := by
  refine ⟨by decide, by decide, fun h => ?_⟩
  have hmarkers := h.markers
  exact absurd hmarkers (by decide)

end Faithful

end Windrose.Query

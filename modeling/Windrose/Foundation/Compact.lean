/-
  Foundation/Compact.lean --- JSON texts that an encoder passes on.

  A raw JSON text that is encoded once more loses its white space outside the strings, and
  what a page could take for markup or for the end of a line is written as an escape.  Which
  texts stay as they are is `compact_eq_self_iff`; each is one line (`Tight.unbroken`).
-/
import Mathlib.Data.List.Infix
import Windrose.Foundation.Bytes

set_option autoImplicit false

namespace Windrose.Foundation.Compact

/-! ## The scanner -/

/-- Where the scanner of a JSON text is. -/
inductive Mode where
  | outside
  | inside
  | escaped
  deriving DecidableEq

def Mode.next : Mode → UInt8 → Mode
  | .outside, c => if c = 34 then .inside else .outside
  | .inside, c => if c = 34 then .outside else if c = 92 then .escaped else .inside
  | .escaped, _ => .inside

def isSpace (c : UInt8) : Bool := c == 9 || c == 10 || c == 13 || c == 32

/-- What every JSON text has: the scanner sees no control character in a string. -/
def scansFrom (m : Mode) : Bytes → Bool
  | [] => true
  | c :: t => (m = .outside || 32 ≤ c) && scansFrom (m.next c) t

def scans (t : Bytes) : Bool := scansFrom .outside t

/-! ## The encoder -/

/-- A character of markup. -/
def isMarkup (c : UInt8) : Bool := c == 60 || c == 62 || c == 38

/-- The text starts with U+2028 or with U+2029. -/
def isSeparator (t : Bytes) : Bool := [226, 128, 168].isPrefixOf t || [226, 128, 169].isPrefixOf t

/-- `appendCompact` with `escape`.  A separator is written when its first byte is read, and
`skip` of its bytes are still to come. -/
def compactFrom (m : Mode) (skip : Nat) : Bytes → Bytes
  | [] => []
  | c :: t =>
    if 0 < skip then compactFrom (m.next c) (skip - 1) t
    else if isMarkup c then bytes "\\u00" ++ hexByte c ++ compactFrom (m.next c) 0 t
    else if isSeparator (c :: t) then
      bytes "\\u202" ++ [hexDigit ((t.getD 1 0).toNat % 16)] ++ compactFrom (m.next c) 2 t
    else if m = .outside ∧ isSpace c = true then compactFrom (m.next c) 0 t
    else c :: compactFrom (m.next c) 0 t

def compact (t : Bytes) : Bytes := compactFrom .outside 0 t

example : compact (bytes "[1,\n \"a <\"]") = bytes "[1,\"a \\u003c\"]" := by decide

theorem length_compactFrom_le (m : Mode) (skip : Nat) (t : Bytes) :
    (compactFrom m skip t).length ≤ 6 * t.length := by
  have hmarkup : (bytes "\\u00").length = 4 := by decide
  have hseparator : (bytes "\\u202").length = 5 := by decide
  induction t generalizing m skip with
  | nil => exact Nat.le_refl _
  | cons c t ih =>
    rw [compactFrom, List.length_cons]
    split_ifs
    · have := ih (m.next c) (skip - 1)
      omega
    · have := ih (m.next c) 0
      simp only [List.length_append, hmarkup, hexByte, List.length_cons, List.length_nil]
      omega
    · have := ih (m.next c) 2
      simp only [List.length_append, hseparator, List.length_cons, List.length_nil]
      omega
    · have := ih (m.next c) 0
      omega
    · have := ih (m.next c) 0
      rw [List.length_cons]
      omega

theorem length_compact_le (t : Bytes) : (compact t).length ≤ 6 * t.length :=
  length_compactFrom_le .outside 0 t

/-! ## Texts that stay as they are -/

/-- There is no white space outside the strings. -/
def gaplessFrom (m : Mode) : Bytes → Bool
  | [] => true
  | c :: t => !(m = .outside && isSpace c) && gaplessFrom (m.next c) t

/-- A text in which the encoder finds nothing to drop and nothing to escape. -/
structure Tight (m : Mode) (t : Bytes) : Prop where
  gapless : gaplessFrom m t = true
  markup : ∀ c ∈ t, isMarkup c = false
  separators : ∀ s, s <:+ t → isSeparator s = false

variable {t : Bytes}

variable {c : UInt8} {m : Mode}

theorem gaplessFrom_cons : gaplessFrom m (c :: t) = true ↔
      ¬ (m = .outside ∧ isSpace c = true) ∧ gaplessFrom (m.next c) t = true := by
  rw [gaplessFrom, Bool.and_eq_true, Bool.not_eq_true', ← Bool.not_eq_true, Bool.and_eq_true,
    decide_eq_true_iff]

theorem tight_cons : Tight m (c :: t) ↔
      ¬ (m = .outside ∧ isSpace c = true) ∧ isMarkup c = false ∧ isSeparator (c :: t) = false ∧
        Tight (m.next c) t := by
  constructor
  · intro h
    obtain ⟨hspace, hgapless⟩ := gaplessFrom_cons.mp h.gapless
    refine ⟨hspace, h.markup c List.mem_cons_self, h.separators _ List.suffix_rfl, hgapless,
      fun d hd => h.markup d (List.mem_cons_of_mem c hd), fun s hs => ?_⟩
    exact h.separators s (hs.trans (List.suffix_cons c t))
  · rintro ⟨hspace, hmarkup, hsep, h⟩
    refine ⟨gaplessFrom_cons.mpr ⟨hspace, h.gapless⟩,
      List.forall_mem_cons.mpr ⟨hmarkup, h.markup⟩, fun s hs => ?_⟩
    obtain rfl | hs := List.suffix_cons_iff.mp hs
    · exact hsep
    · exact h.separators s hs

theorem not_isSpace_head {u : Bytes} (h : compactFrom .outside 0 t = c :: u) :
    isSpace c = false := by
  induction t with
  | nil => exact absurd h (List.cons_ne_nil c u).symm
  | cons d t ih =>
    rw [compactFrom, if_neg (Nat.lt_irrefl 0)] at h
    split_ifs at h with hmarkup hsep hspace
    · obtain ⟨rfl, -⟩ := List.cons_eq_cons.mp h
      decide
    · obtain ⟨rfl, -⟩ := List.cons_eq_cons.mp h
      decide
    · have hquote : d ≠ 34 := by
        rintro rfl
        exact absurd hspace.2 (by decide)
      rw [Mode.next, if_neg hquote] at h
      exact ih h
    · obtain ⟨rfl, -⟩ := List.cons_eq_cons.mp h
      simpa using hspace

/-- A text is passed on as it is when there is nothing to drop and nothing to escape, and
only then: what the encoder would write for its first byte is not that byte. -/
theorem compactFrom_eq_self_iff (m : Mode) (t : Bytes) : compactFrom m 0 t = t ↔ Tight m t := by
  induction t generalizing m with
  | nil =>
    refine ⟨fun _ => ⟨rfl, nofun, fun s hs => ?_⟩, fun _ => rfl⟩
    rw [List.suffix_nil.mp hs]
    rfl
  | cons c t ih =>
    rw [compactFrom, if_neg (Nat.lt_irrefl 0), tight_cons]
    split_ifs with hmarkup hsep hspace
    · refine iff_of_false (fun h => ?_) (fun h => Bool.false_ne_true (h.2.1.symm.trans hmarkup))
      obtain ⟨rfl, -⟩ := List.cons_eq_cons.mp h
      exact absurd hmarkup (by decide)
    · refine iff_of_false (fun h => ?_) (fun h => Bool.false_ne_true (h.2.2.1.symm.trans hsep))
      obtain ⟨rfl, -⟩ := List.cons_eq_cons.mp h
      exact absurd hsep (by simp [isSeparator])
    · refine iff_of_false (fun h => ?_) (fun h => h.1 hspace)
      obtain ⟨rfl, hc⟩ := hspace
      have hquote : c ≠ 34 := by
        rintro rfl
        exact absurd hc (by decide)
      rw [Mode.next, if_neg hquote] at h
      exact Bool.false_ne_true ((not_isSpace_head h).symm.trans hc)
    · rw [List.cons_inj_right, ih]
      exact ⟨fun h => ⟨hspace, by simpa using hmarkup, by simpa using hsep, h⟩, fun h => h.2.2.2⟩

theorem compact_eq_self_iff (t : Bytes) : compact t = t ↔ Tight .outside t :=
  compactFrom_eq_self_iff .outside t

theorem Tight.unbroken (ht : Tight m t) (hscan : scansFrom m t = true) :
    10 ∉ t ∧ 13 ∉ t := by
  induction t generalizing m with
  | nil => exact ⟨List.not_mem_nil, List.not_mem_nil⟩
  | cons c t ih =>
    obtain ⟨hspace, -, -, ht⟩ := tight_cons.mp ht
    rw [scansFrom, Bool.and_eq_true, Bool.or_eq_true, decide_eq_true_iff, decide_eq_true_iff]
      at hscan
    have hrest := ih ht hscan.2
    have hc : c ≠ 10 ∧ c ≠ 13 := by
      constructor <;> rintro rfl
      · exact hscan.1.elim (fun h => hspace ⟨h, rfl⟩) (fun h => absurd h (by decide))
      · exact hscan.1.elim (fun h => hspace ⟨h, rfl⟩) (fun h => absurd h (by decide))
    exact ⟨List.not_mem_cons_of_ne_of_not_mem hc.1.symm hrest.1,
      List.not_mem_cons_of_ne_of_not_mem hc.2.symm hrest.2⟩

end Windrose.Foundation.Compact

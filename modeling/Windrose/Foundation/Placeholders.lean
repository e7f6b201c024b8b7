/-
  Foundation/Placeholders.lean --- the placeholders of a SQL text.

  A placeholder is `$` and digits, outside of string literals.  A literal stands between
  quotes, and a quote in it is written twice, so that it is enough to count quotes.

  A quiet text has no placeholder and no open literal.  A text shows numbers when these are
  its placeholders, whatever follows, as long as this does not start with a digit.
-/
import Windrose.Foundation.Bytes

set_option autoImplicit false

namespace Windrose.Foundation

/-! ## Scanning -/

/-- The number after `$`, if there is one. -/
def dollarNumber (s : Bytes) : List Nat :=
  match s.takeWhile isDigit with
  | [] => []
  | ds => [decVal ds]

/-- The numbers of the placeholders of a text that starts inside a literal, or outside. -/
def placeholdersOf : Bool → Bytes → List Nat
  | _, [] => []
  | inside, c :: s =>
    if c = 39 then placeholdersOf (!inside) s
    else if c = 36 ∧ inside = false then dollarNumber s ++ placeholdersOf inside s
    else placeholdersOf inside s

/-- The text has no placeholder and leaves no literal open. -/
def Quiet (t : Bytes) : Prop := ∀ rest, placeholdersOf false (t ++ rest) = placeholdersOf false rest

/-- The text does not start with a digit. -/
def NoDigit (t : Bytes) : Prop := ∀ c ∈ t.head?, isDigit c = false

/-- The placeholders of the text have these numbers. -/
def Shows (t : Bytes) (ns : List Nat) : Prop :=
  ∀ rest, NoDigit rest → placeholdersOf false (t ++ rest) = ns ++ placeholdersOf false rest

variable {t u : Bytes} {ns : List Nat}

theorem Shows.placeholdersOf_eq (h : Shows t ns) : placeholdersOf false t = ns := by
  have := h [] fun c hc => absurd hc (Option.not_mem_none c)
  simpa [placeholdersOf] using this

/-! ## Quiet texts -/

theorem quiet_nil : Quiet [] := fun _ => rfl

theorem Quiet.append (ht : Quiet t) (hu : Quiet u) : Quiet (t ++ u) := by
  intro rest
  rw [List.append_assoc, ht, hu]

theorem Quiet.cons {c : UInt8} (hc : c ≠ 39) (hc' : c ≠ 36) (ht : Quiet t) : Quiet (c :: t) := by
  intro rest
  rw [List.cons_append, placeholdersOf, if_neg hc, if_neg fun h => hc' h.1, ht]

theorem quiet_of_plain (h : ∀ c ∈ t, c ≠ 39 ∧ c ≠ 36) : Quiet t := by
  induction t with
  | nil => exact quiet_nil
  | cons c t ih =>
    obtain ⟨hc, ht⟩ := List.forall_mem_cons.mp h
    exact .cons hc.1 hc.2 (ih ht)

/-- A text without quotes and dollars. -/
def Plain (t : Bytes) : Prop := ∀ c ∈ t, c ≠ 39 ∧ c ≠ 36

theorem Plain.quiet (h : Plain t) : Quiet t := quiet_of_plain h

theorem plain_itoa (n : Nat) : Plain (itoa n) := by
  intro c hc
  have hdigit := isDigit_of_mem_itoa hc
  constructor
  · rintro rfl
    exact absurd hdigit (by decide)
  · rintro rfl
    exact absurd hdigit (by decide)

theorem quiet_itoa (n : Nat) : Quiet (itoa n) := (plain_itoa n).quiet

/-- A check that a constant text is quiet. -/
def isQuiet : Bool → Bytes → Bool
  | inside, [] => !inside
  | inside, c :: s =>
    if c = 39 then isQuiet (!inside) s else (inside || c != 36) && isQuiet inside s

theorem placeholdersOf_of_isQuiet {inside : Bool} (h : isQuiet inside t = true)
    (rest : Bytes) : placeholdersOf inside (t ++ rest) = placeholdersOf false rest := by
  induction t generalizing inside with
  | nil =>
    cases inside with
    | false => rfl
    | true => cases h
  | cons c t ih =>
    rw [isQuiet] at h
    rw [List.cons_append, placeholdersOf]
    split at h
    · next hc => rw [if_pos hc, ih h]
    · next hc =>
      obtain ⟨hdollar, ht⟩ := Bool.and_eq_true_iff.mp h
      rw [if_neg hc, if_neg ?_, ih ht]
      rintro ⟨rfl, rfl⟩
      cases hdollar

theorem quiet_of_isQuiet (h : isQuiet false t = true) : Quiet t := placeholdersOf_of_isQuiet h

theorem quiet_quoted (v : Bytes) :
    Quiet (39 :: v.flatMap (fun c => if c = 39 then [39, 39] else [c]) ++ [39]) := by
  have hinside : ∀ rest, placeholdersOf true
      (v.flatMap (fun c => if c = 39 then [39, 39] else [c]) ++ 39 :: rest) =
      placeholdersOf false rest := by
    intro rest
    induction v with
    | nil => rfl
    | cons c v ih =>
      rw [List.flatMap_cons, List.append_assoc]
      split
      · exact ih
      · next hc =>
        rw [List.cons_append, List.nil_append, placeholdersOf, if_neg hc, if_neg (by simp)]
        exact ih
  intro rest
  rw [List.append_assoc, List.cons_append, placeholdersOf, if_pos rfl]
  exact hinside rest

/-! ## Texts with placeholders -/

theorem Quiet.shows (h : Quiet t) : Shows t [] := fun rest _ => h rest

theorem NoDigit.append (ht : NoDigit t) (hu : NoDigit u) : NoDigit (t ++ u) := by
  cases t with
  | nil => exact hu
  | cons c t => exact ht

theorem Quiet.append_shows (ht : Quiet t) (hu : Shows u ns) : Shows (t ++ u) ns := by
  intro rest hrest
  rw [List.append_assoc, ht, hu rest hrest]

theorem Shows.append {ms : List Nat} (ht : Shows t ns) (hu : Shows u ms)
    (hdigit : NoDigit u) : Shows (t ++ u) (ns ++ ms) := by
  intro rest hrest
  rw [List.append_assoc, ht _ (hdigit.append hrest), hu rest hrest, List.append_assoc]

theorem Shows.append_quiet (ht : Shows t ns) (hu : Quiet u)
    (hdigit : NoDigit u) : Shows (t ++ u) ns := by
  simpa using ht.append hu.shows hdigit

theorem takeWhile_itoa (n : Nat) {rest : Bytes} (h : NoDigit rest) :
    (itoa n ++ rest).takeWhile isDigit = itoa n := by
  rw [List.takeWhile_append_of_pos fun c hc => isDigit_of_mem_itoa hc]
  cases rest with
  | nil => simp
  | cons c rest => simp [h c rfl]

theorem shows_dollar (n : Nat) : Shows (36 :: itoa n) [n] := by
  intro rest hrest
  have hnumber : dollarNumber (itoa n ++ rest) = [n] := by
    rw [dollarNumber, takeWhile_itoa n hrest]
    split
    · next hnil => exact absurd hnil (itoa_ne_nil n)
    · rw [decVal_itoa]
  rw [List.cons_append, placeholdersOf, if_neg (by decide), if_pos ⟨rfl, rfl⟩, hnumber, quiet_itoa]

end Windrose.Foundation

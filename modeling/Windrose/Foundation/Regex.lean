/-
  Foundation/Regex.lean --- regular expressions of a backtracking matcher.

  A cursor is a place in a text: how many letters are behind it, the last of them, and
  those that follow.  `ends` lists the places where a match that begins at a cursor can end,
  in the order in which a backtracking engine tries them, so that the first one is where
  its match ends.  `finditer` goes through a text from match to match.
-/
import Mathlib.Data.List.Basic

set_option autoImplicit false

namespace Windrose.Foundation

/-- Regular expressions over letters. -/
inductive Regex (α : Type) where
  | empty
  | one (p : α → Bool)
  | seq (r s : Regex α)
  | alt (r s : Regex α)
  /-- greedy; `more` rounds on top of `least`, or as many as there are -/
  | rep (r : Regex α) (least : Nat) (more : Option Nat)
  /-- `(?<![p])` -/
  | notBehind (p : α → Bool)
  /-- `(?![p])` -/
  | notAhead (p : α → Bool)
  /-- `\b` -/
  | boundary (word : α → Bool)

/-- A place in a text. -/
structure Cursor (α : Type) where
  pos : Nat := 0
  prev : Option α := none
  rest : List α

/-- Half-open. -/
structure Span where
  start : Nat
  stop : Nat
  deriving DecidableEq

/-- The place is in the span. -/
def Span.Has (s : Span) (p : Nat) : Prop := s.start ≤ p ∧ p < s.stop

instance (s : Span) (p : Nat) : Decidable (s.Has p) := inferInstanceAs (Decidable (_ ∧ _))

namespace Regex

variable {α : Type}

/-- Rounds of a match, at most `most` and at least `least` of them; another round is tried
before none. -/
def rounds (m : Cursor α → List (Cursor α)) : Nat → Nat → Cursor α → List (Cursor α)
  | 0, least, c => if least = 0 then [c] else []
  | most + 1, least, c => (m c).flatMap (rounds m most (least - 1)) ++ if least = 0 then [c] else []

/-- Where a match from here can end. -/
def ends : Regex α → Cursor α → List (Cursor α)
  | .empty, c => [c]
  | .one p, c =>
    match c.rest with
    | [] => []
    | a :: rest => if p a then [⟨c.pos + 1, some a, rest⟩] else []
  | .seq r s, c => (r.ends c).flatMap s.ends
  | .alt r s, c => r.ends c ++ s.ends c
  | .rep r least more, c =>
    -- every round takes a letter
    rounds r.ends (least + more.getD c.rest.length) least c
  | .notBehind p, c => if c.prev.any p then [] else [c]
  | .notAhead p, c => if c.rest.head?.any p then [] else [c]
  | .boundary word, c => if c.prev.any word = c.rest.head?.any word then [] else [c]

/-- The matches of `re.finditer`, for an expression that takes at least a letter. -/
def finditer (r : Regex α) : Nat → Option α → List α → Nat → List Span
  | _, _, [], _ => []
  | pos, _, a :: rest, passed + 1 => finditer r (pos + 1) (some a) rest passed
  | pos, prev, a :: rest, 0 =>
    match ((r.ends ⟨pos, prev, a :: rest⟩).find? fun c => pos < c.pos) with
    | some c => ⟨pos, c.pos⟩ :: finditer r (pos + 1) (some a) rest (c.pos - pos - 1)
    | none => finditer r (pos + 1) (some a) rest 0

/-! ## What a match takes -/

/-- The second cursor is further on in the same text. -/
def Further (c d : Cursor α) : Prop := c.pos ≤ d.pos ∧ d.pos + d.rest.length = c.pos + c.rest.length

theorem Further.trans {c d e : Cursor α} (h : Further c d) (h' : Further d e) : Further c e :=
  ⟨Nat.le_trans h.1 h'.1, h'.2.trans h.2⟩

theorem further_refl (c : Cursor α) : Further c c := ⟨Nat.le_refl _, rfl⟩

theorem further_rounds {m : Cursor α → List (Cursor α)} (hm : ∀ c, ∀ d ∈ m c, Further c d)
    (most least : Nat) (c : Cursor α) : ∀ d ∈ rounds m most least c, Further c d := by
  induction most generalizing least c with
  | zero =>
    intro d hd
    rw [rounds] at hd
    split_ifs at hd
    · rw [List.mem_singleton.mp hd]
      exact further_refl c
    · exact absurd hd List.not_mem_nil
  | succ most ih =>
    intro d hd
    obtain hd | hd := List.mem_append.mp hd
    · obtain ⟨b, hb, hd⟩ := List.mem_flatMap.mp hd
      exact (hm c b hb).trans (ih (least - 1) b d hd)
    · split_ifs at hd
      · rw [List.mem_singleton.mp hd]
        exact further_refl c
      · exact absurd hd List.not_mem_nil

theorem further_ends (r : Regex α) (c : Cursor α) : ∀ d ∈ r.ends c, Further c d := by
  have hkeep : ∀ (b : Bool) (c d : Cursor α), d ∈ (if b then [] else [c]) → Further c d := by
    intro b c d hd
    split_ifs at hd
    · exact absurd hd List.not_mem_nil
    · rw [List.mem_singleton.mp hd]
      exact further_refl c
  induction r generalizing c with
  | empty =>
    intro d hd
    rw [List.mem_singleton.mp hd]
    exact further_refl c
  | one p =>
    intro d hd
    obtain ⟨pos, prev, rest⟩ := c
    cases rest with
    | nil => exact absurd hd List.not_mem_nil
    | cons a rest =>
      simp only [ends] at hd
      split_ifs at hd
      · rw [List.mem_singleton.mp hd]
        exact ⟨Nat.le_succ pos, by rw [List.length_cons]; exact Nat.succ_add_eq_add_succ _ _⟩
      · exact absurd hd List.not_mem_nil
  | seq r s ihr ihs =>
    intro d hd
    obtain ⟨b, hb, hd⟩ := List.mem_flatMap.mp hd
    exact (ihr c b hb).trans (ihs b d hd)
  | alt r s ihr ihs =>
    intro d hd
    obtain hd | hd := List.mem_append.mp hd
    · exact ihr c d hd
    · exact ihs c d hd
  | rep r least more ih => exact further_rounds ih _ _ c
  | notBehind p => exact fun d hd => hkeep _ c d hd
  | notAhead p => exact fun d hd => hkeep _ c d hd
  | boundary word =>
    intro d hd
    rw [ends] at hd
    split_ifs at hd
    · exact absurd hd List.not_mem_nil
    · rw [List.mem_singleton.mp hd]
      exact further_refl c

theorem finditer_bounds (r : Regex α) (pos : Nat) (prev : Option α) (text : List α) (passed : Nat) :
    ∀ s ∈ finditer r pos prev text passed, pos ≤ s.start ∧ s.start < s.stop ∧
      s.stop ≤ pos + text.length := by
  induction text generalizing pos prev passed with
  | nil => exact nofun
  | cons a rest ih =>
    have hrest : ∀ passed, ∀ s ∈ finditer r (pos + 1) (some a) rest passed, pos ≤ s.start ∧
        s.start < s.stop ∧ s.stop ≤ pos + (a :: rest).length := by
      intro passed s hs
      obtain ⟨hstart, hpos, hstop⟩ := ih (pos + 1) (some a) passed s hs
      rw [List.length_cons]
      exact ⟨by omega, hpos, by omega⟩
    intro s hs
    cases passed with
    | succ passed => exact hrest passed s hs
    | zero =>
      rw [finditer] at hs
      split at hs
      · next c hc =>
        obtain hs | hs := List.mem_cons.mp hs
        · have hfurther := further_ends r _ c (List.mem_of_find?_eq_some hc)
          have hlonger := List.find?_some hc
          rw [hs]
          refine ⟨Nat.le_refl pos, of_decide_eq_true hlonger, ?_⟩
          exact Nat.le_trans (Nat.le_add_right _ _) (Nat.le_of_eq hfurther.2)
        · exact hrest _ s hs
      · exact hrest 0 s hs

end Regex

end Windrose.Foundation

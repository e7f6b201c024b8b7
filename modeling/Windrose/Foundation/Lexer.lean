/-
  Foundation/Lexer.lean --- scanning a text from left to right.

  A rule reads the start of a non-empty text: it fails, or it names what it
  found and says how many symbols that takes, at least one.  Scanning applies
  the rule until the text is used up and returns the pieces, each with its
  lexeme.
-/
import Mathlib.Data.List.Basic

set_option autoImplicit false

namespace Windrose.Foundation

theorem bind_eq_ok {ε α β : Type} {x : Except ε α} {f : α → Except ε β} {b : β} :
    (x >>= f) = .ok b ↔ ∃ a, x = .ok a ∧ f a = .ok b := by
  cases x with
  | error e => exact ⟨nofun, fun ⟨_, h, _⟩ => (nomatch h)⟩
  | ok a => exact ⟨fun h => ⟨a, rfl, h⟩, fun ⟨_, h, hf⟩ => by cases h; exact hf⟩

theorem map_eq_ok {α β ε : Type} {x : Except ε α} {f : α → β} {b : β} :
    x.map f = .ok b ↔ ∃ a, x = .ok a ∧ f a = b := by
  cases x <;> simp [Except.map]

theorem mapM_eq_ok {ε α β : Type} {f : α → Except ε β} {xs : List α} {ys : List β} :
    xs.mapM f = .ok ys ↔ List.Forall₂ (fun x y => f x = .ok y) xs ys := by
  induction xs generalizing ys with
  | nil => exact ⟨fun h => by cases h; exact .nil, fun h => by cases h; rfl⟩
  | cons x xs ih =>
    rw [List.mapM_cons, bind_eq_ok]
    constructor
    · rintro ⟨y, hy, h⟩
      obtain ⟨rest, hrest, h⟩ := bind_eq_ok.mp h
      cases h
      exact .cons hy (ih.mp hrest)
    · rintro (_ | ⟨hy, hrest⟩)
      exact ⟨_, hy, bind_eq_ok.mpr ⟨_, ih.mpr hrest, rfl⟩⟩

theorem forM_ok {ε α : Type} {f : α → Except ε Unit} {xs : List α} (h : xs.forM f = .ok ()) :
    ∀ x ∈ xs, f x = .ok () := by
  induction xs with
  | nil => exact fun x hx => (List.not_mem_nil hx).elim
  | cons y ys ih =>
    obtain ⟨u, hy, hys⟩ := bind_eq_ok.mp h
    rintro x (_ | ⟨_, hx⟩)
    · exact hy
    · exact ih hys x hx

theorem mapM_eq_some {α β : Type} {f : α → Option β} {xs : List α} {ys : List β} :
    xs.mapM f = some ys ↔ List.Forall₂ (fun x y => f x = some y) xs ys := by
  induction xs generalizing ys with
  | nil => exact ⟨fun h => by cases h; exact .nil, fun h => by cases h; rfl⟩
  | cons x xs ih =>
    rw [List.mapM_cons]
    constructor
    · intro h
      obtain ⟨y, hy, h⟩ := Option.bind_eq_some_iff.mp h
      obtain ⟨rest, hrest, h⟩ := Option.bind_eq_some_iff.mp h
      cases h
      exact .cons hy (ih.mp hrest)
    · rintro (_ | ⟨hy, hrest⟩)
      exact Option.bind_eq_some_iff.mpr
        ⟨_, hy, Option.bind_eq_some_iff.mpr ⟨_, ih.mpr hrest, rfl⟩⟩

theorem exists_mapM_ok {ε α β : Type} {f : α → Except ε β} {xs : List α}
    (h : ∀ x ∈ xs, ∃ y, f x = .ok y) : ∃ ys, xs.mapM f = .ok ys := by
  induction xs with
  | nil => exact ⟨[], rfl⟩
  | cons x xs ih =>
    obtain ⟨hx, hxs⟩ := List.forall_mem_cons.mp h
    obtain ⟨y, hy⟩ := hx
    obtain ⟨ys, hys⟩ := ih hxs
    exact ⟨y :: ys, mapM_eq_ok.mpr (.cons hy (mapM_eq_ok.mp hys))⟩

theorem forall₂_getElem? {α β : Type} {R : α → β → Prop} {xs : List α} {ys : List β}
    (h : List.Forall₂ R xs ys) {i : Nat} {x : α} (hx : xs[i]? = some x) :
    ∃ y, ys[i]? = some y ∧ R x y := by
  induction h generalizing i with
  | nil => cases hx
  | @cons _ y _ _ hr _ ih =>
    cases i with
    | zero =>
      cases hx
      exact ⟨y, rfl, hr⟩
    | succ i => exact ih hx

theorem forall₂_map_eq {α β γ : Type} {R : α → β → Prop} {xs : List α} {ys : List β}
    (h : List.Forall₂ R xs ys) {f : α → γ} {g : β → γ} (hfg : ∀ x y, R x y → g y = f x) :
    ys.map g = xs.map f := by
  induction h with
  | nil => rfl
  | cons hr _ ih => rw [List.map_cons, List.map_cons, hfg _ _ hr, ih]

theorem forall₂_left {α β : Type} {R : α → β → Prop} {xs : List α} {ys : List β}
    (h : List.Forall₂ R xs ys) {x : α} (hx : x ∈ xs) : ∃ y ∈ ys, R x y := by
  induction h with
  | nil => cases hx
  | cons hr _ ih =>
    rcases List.mem_cons.mp hx with rfl | hx
    · exact ⟨_, List.mem_cons_self, hr⟩
    · obtain ⟨y, hy, hxy⟩ := ih hx
      exact ⟨y, List.mem_cons_of_mem _ hy, hxy⟩

theorem forall₂_right {α β : Type} {R : α → β → Prop} {xs : List α} {ys : List β}
    (h : List.Forall₂ R xs ys) {y : β} (hy : y ∈ ys) : ∃ x ∈ xs, R x y := by
  induction h with
  | nil => cases hy
  | cons hr _ ih =>
    rcases List.mem_cons.mp hy with rfl | hy
    · exact ⟨_, List.mem_cons_self, hr⟩
    · obtain ⟨x, hx, hxy⟩ := ih hy
      exact ⟨x, List.mem_cons_of_mem _ hx, hxy⟩

/-- One turn of a scanner: what is found at the start of a text, and its
length. -/
structure Rule (α ε τ : Type) where
  step : List α → Except ε (τ × Nat)
  progress : ∀ {s : List α} {t : τ} {k : Nat}, s ≠ [] → step s = .ok (t, k) →
    0 < k ∧ k ≤ s.length

namespace Rule

variable {α ε τ : Type}

/-- The scanner with a bound on its turns. -/
def lexFuel (r : Rule α ε τ) : Nat → List α → Except ε (List (τ × List α))
  | _, [] => .ok []
  | 0, _ :: _ => .ok []
  | n + 1, a :: s =>
    match r.step (a :: s) with
    | .error e => .error e
    | .ok (t, k) =>
      match lexFuel r n ((a :: s).drop k) with
      | .error e => .error e
      | .ok ps => .ok ((t, (a :: s).take k) :: ps)

/-- The pieces of a text, in order, with their lexemes.  Each turn takes at least
one symbol, so the length of the text bounds the turns. -/
def lex (r : Rule α ε τ) (s : List α) : Except ε (List (τ × List α)) := r.lexFuel s.length s

/-- `Lexes r s ps`: the rule cuts `s` into the pieces `ps`. -/
inductive Lexes (r : Rule α ε τ) : List α → List (τ × List α) → Prop where
  | nil : Lexes r [] []
  | cons {s : List α} {t : τ} {k : Nat} {ps : List (τ × List α)} (hne : s ≠ [])
      (hstep : r.step s = .ok (t, k)) (hrest : Lexes r (s.drop k) ps) :
      Lexes r s ((t, s.take k) :: ps)

variable {r : Rule α ε τ}

theorem lexes_of_lexFuel {n : Nat} : ∀ {s : List α} {ps : List (τ × List α)}, s.length ≤ n →
    r.lexFuel n s = .ok ps → r.Lexes s ps := by
  induction n with
  | zero =>
    intro s ps hlen h
    obtain rfl := List.length_eq_zero_iff.mp (Nat.le_zero.mp hlen)
    cases h
    exact .nil
  | succ n ih =>
    intro s ps hlen h
    cases s with
    | nil =>
      cases h
      exact .nil
    | cons a s =>
      rw [lexFuel] at h
      cases hstep : r.step (a :: s) with
      | error e =>
        rw [hstep] at h
        cases h
      | ok found =>
        obtain ⟨t, k⟩ := found
        rw [hstep] at h
        have hk := r.progress (List.cons_ne_nil a s) hstep
        cases hrest : r.lexFuel n ((a :: s).drop k) with
        | error e =>
          simp only [hrest] at h
          cases h
        | ok qs =>
          simp only [hrest] at h
          cases h
          refine .cons (List.cons_ne_nil a s) hstep (ih ?_ hrest)
          rw [List.length_drop]
          omega

variable {s : List α} {ps : List (τ × List α)}

theorem Lexes.lexFuel (h : r.Lexes s ps) : ∀ {n : Nat}, s.length ≤ n → r.lexFuel n s = .ok ps := by
  induction h with
  | nil =>
    intro n _
    cases n <;> rfl
  | @cons s t k ps hne hstep hrest ih =>
    intro n hlen
    cases s with
    | nil => exact absurd rfl hne
    | cons a s =>
      have hk := r.progress hne hstep
      cases n with
      | zero => exact absurd hlen (by simp)
      | succ n =>
        have hrest' : r.lexFuel n ((a :: s).drop k) = .ok ps := by
          refine ih ?_
          rw [List.length_drop]
          omega
        simp only [Rule.lexFuel, hstep, hrest']

theorem lex_ok_iff : r.lex s = .ok ps ↔ r.Lexes s ps :=
  ⟨lexes_of_lexFuel (Nat.le_refl _), fun h => h.lexFuel (Nat.le_refl _)⟩

namespace Lexes

theorem unique {qs : List (τ × List α)} (h : r.Lexes s ps) (h' : r.Lexes s qs) : ps = qs :=
  Except.ok.inj ((lex_ok_iff.mpr h).symm.trans (lex_ok_iff.mpr h'))

theorem join (h : r.Lexes s ps) : ps.flatMap Prod.snd = s := by
  induction h with
  | nil => rfl
  | @cons s t k ps hne hstep hrest ih =>
    rw [List.flatMap_cons, ih]
    exact List.take_append_drop k s

end Lexes

/-! ## Rules that never fail -/

/-- The pieces of a text under a rule that cannot fail. -/
def pieces (r : Rule α Empty τ) (s : List α) : List (τ × List α) :=
  match r.lex s with
  | .ok ps => ps
  | .error e => nomatch e

theorem lexes_pieces (r : Rule α Empty τ) (s : List α) : r.Lexes s (r.pieces s) := by
  rw [← lex_ok_iff, pieces]
  split
  · rename_i ps hps
    exact hps
  · rename_i e _
    exact nomatch e

theorem Lexes.pieces_eq {r : Rule α Empty τ} (h : r.Lexes s ps) : r.pieces s = ps :=
  (r.lexes_pieces s).unique h

end Rule

end Windrose.Foundation

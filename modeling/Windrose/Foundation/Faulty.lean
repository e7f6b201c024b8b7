/-
  Foundation/Faulty.lean --- programs whose commands may fail.

  A program issues named commands against a store.  The environment fixes the
  fate of each: it takes effect and answers, it fails without effect, or it
  takes effect and the caller never learns (it crashed, or the answer was
  lost).  In the last two cases the program ends without a result.

  `Prog C S α` is the monad of such programs; the rules below run a bind through
  its first command, one rule for each fate.  A command name stands for one
  command of the program text, so a program that issues each of its commands at
  most once has one fate for each.
-/

set_option autoImplicit false

namespace Windrose.Foundation

/-- What the environment does with one command. -/
inductive Fate where
  /-- it takes effect and answers -/
  | ok
  /-- it fails without effect -/
  | error
  /-- it takes effect, but the caller ends here -/
  | crash
  deriving DecidableEq

/-- A program over commands `C` and store `S`: a result, unless it ended early,
and the store it leaves. -/
def Prog (C S α : Type) : Type := (C → Fate) → S → Option α × S

namespace Prog

variable {C S α β : Type}

/-- Run a program under the given fates. -/
def run (p : Prog C S α) (fate : C → Fate) (s : S) : Option α × S := p fate s

/-- Continue with the result, if there is one. -/
protected def bind (p : Prog C S α) (k : α → Prog C S β) : Prog C S β := fun fate s =>
  match p fate s with
  | (some a, t) => k a fate t
  | (none, t) => (none, t)

instance : Monad (Prog C S) where
  pure a := fun _ s => (some a, s)
  bind := Prog.bind

/-- One command with effect `f`. -/
def cmd (c : C) (f : S → α × S) : Prog C S α := fun fate s =>
  match fate c with
  | .ok => (some (f s).1, (f s).2)
  | .error => (none, s)
  | .crash => (none, (f s).2)

/-- One command whose failure the program tolerates. -/
def attempt (c : C) (f : S → S) : Prog C S Unit := fun fate s =>
  match fate c with
  | .ok => (some (), f s)
  | .error => (some (), s)
  | .crash => (none, f s)

/-- The environment in which nothing fails. -/
def noFault : C → Fate := fun _ => .ok

@[simp] theorem run_pure (a : α) (fate : C → Fate) (s : S) :
    (pure a : Prog C S α).run fate s = (some a, s) := rfl

theorem run_bind (p : Prog C S α) (k : α → Prog C S β) (fate : C → Fate) (s : S) :
    (p >>= k).run fate s =
      match p.run fate s with
      | (some a, t) => (k a).run fate t
      | (none, t) => (none, t) := rfl

variable {fate : C → Fate} {k : α → Prog C S β} {s : S} {c : C} {f : S → α × S}

theorem run_bind_of_some {p : Prog C S α} {t : S}
    {a : α} (h : p.run fate s = (some a, t)) : (p >>= k).run fate s = (k a).run fate t := by
  rw [run_bind, h]

theorem run_bind_of_none {p : Prog C S α} {t : S}
    (h : p.run fate s = (none, t)) : (p >>= k).run fate s = (none, t) := by
  rw [run_bind, h]

theorem run_cmd_ok (s : S) (h : fate c = .ok) : (cmd c f).run fate s = (some (f s).1, (f s).2) := by
  simp only [run, cmd, h]

theorem run_cmd_error (s : S) (h : fate c = .error) : (cmd c f).run fate s = (none, s) := by
  simp only [run, cmd, h]

theorem run_cmd_crash (s : S) (h : fate c = .crash) : (cmd c f).run fate s = (none, (f s).2) := by
  simp only [run, cmd, h]

theorem cmd_bind_ok
    (h : fate c = .ok) : (cmd c f >>= k).run fate s = (k (f s).1).run fate (f s).2 :=
  run_bind_of_some (run_cmd_ok s h)

theorem cmd_bind_error (h : fate c = .error) : (cmd c f >>= k).run fate s = (none, s) :=
  run_bind_of_none (run_cmd_error s h)

theorem cmd_bind_crash (h : fate c = .crash) : (cmd c f >>= k).run fate s = (none, (f s).2) :=
  run_bind_of_none (run_cmd_crash s h)

theorem read_bind_cases (c : C) (g : S → α) (k : α → Prog C S β) (fate : C → Fate) (s : S) :
    (fate c = .ok ∧ (cmd c (fun s => (g s, s)) >>= k).run fate s = (k (g s)).run fate s) ∨
    (fate c ≠ .ok ∧ (cmd c (fun s => (g s, s)) >>= k).run fate s = (none, s)) := by
  cases h : fate c with
  | ok => exact .inl ⟨rfl, cmd_bind_ok h⟩
  | error => exact .inr ⟨by simp, cmd_bind_error h⟩
  | crash => exact .inr ⟨by simp, cmd_bind_crash h⟩

/-- A tolerated command either goes on, with or without its effect, or ends the
program with it. -/
theorem attempt_bind_cases (c : C) (f : S → S) (k : Unit → Prog C S β) (fate : C → Fate) (s : S) :
    (attempt c f >>= k).run fate s = (k ()).run fate (f s) ∨
    (attempt c f >>= k).run fate s = (k ()).run fate s ∨
    (attempt c f >>= k).run fate s = (none, f s) := by
  cases h : fate c with
  | ok => exact .inl (run_bind_of_some (by simp only [run, attempt, h]))
  | error => exact .inr (.inl (run_bind_of_some (by simp only [run, attempt, h])))
  | crash => exact .inr (.inr (run_bind_of_none (by simp only [run, attempt, h])))

@[simp] theorem cmd_bind_noFault :
    (cmd c f >>= k).run noFault s = (k (f s).1).run noFault (f s).2 :=
  cmd_bind_ok rfl

/-! ## What a run can do to the store -/

/-- However its commands end, the program takes a store to a related one. -/
def Relates (T : S → S → Prop) (p : Prog C S α) : Prop := ∀ fate s, T s (p.run fate s).2

section Relates

variable {T U : S → S → Prop}

theorem Relates.pure (hrefl : ∀ s, T s s) (a : α) : Relates T (Pure.pure a : Prog C S α) :=
  fun _ s => hrefl s

theorem Relates.cmd (hrefl : ∀ s, T s s) (heffect : ∀ s, T s (f s).2) :
    Relates T (Prog.cmd c f) := by
  intro fate s
  cases h : fate c with
  | ok =>
    rw [run_cmd_ok s h]
    exact heffect s
  | error =>
    rw [run_cmd_error s h]
    exact hrefl s
  | crash =>
    rw [run_cmd_crash s h]
    exact heffect s

/-- The relation of the first program goes before that of the second, which covers an
early end too. -/
theorem Relates.bind {p : Prog C S α} (hend : ∀ s t, T s t → U s t)
    (htrans : ∀ s t u, T s t → U t u → U s u) (hp : Relates T p) (hk : ∀ a, Relates U (k a)) :
    Relates U (p >>= k) := by
  intro fate s
  have hfirst := hp fate s
  rw [run_bind]
  generalize p.run fate s = out at hfirst ⊢
  obtain ⟨_ | a, t⟩ := out
  · exact hend s t hfirst
  · exact htrans s t _ hfirst (hk a fate t)

end Relates

end Prog

end Windrose.Foundation

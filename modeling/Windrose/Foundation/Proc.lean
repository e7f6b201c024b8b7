/-
  Foundation/Proc.lean --- programs whose commands interleave with other steps.

  A process is a program cut at its commands: between two of them others may
  change the state.  A command reads the state and changes it in one step, or
  fails and changes nothing.

  `alone` runs a process with nothing in between, and `faulty` one whose commands may
  fail.  `Ends` is the rule for processes among other steps: each command takes the
  assertion before it to one that the others keep, and an invariant `I` holds after
  every command.
-/
import Windrose.Foundation.Faulty

set_option autoImplicit false

namespace Windrose.Foundation

/-- A process: it has ended, or it comes to a command, goes on with what the state
was, and elsewhere when the command fails. -/
inductive Proc (S α : Type) : Type where
  | done (a : α)
  | call (effect : S → S) (next : S → Proc S α) (failed : Proc S α)

namespace Proc

variable {S α β : Type}

/-- Go on with the result. -/
protected def bind : Proc S α → (α → Proc S β) → Proc S β
  | done a, k => k a
  | call effect next failed, k => call effect (fun s => (next s).bind k) (failed.bind k)

instance : Monad (Proc S) where
  pure := done
  bind := Proc.bind

/-- One command with effect `f`; `none` when it fails. -/
def exec (f : S → β × S) : Proc S (Option β) :=
  call (fun s => (f s).2) (fun s => done (some (f s).1)) (done none)

/-- A command that only reads. -/
def read (g : S → β) : Proc S (Option β) := exec fun s => (g s, s)

/-- `if err != nil { return err }`: go on with the answer of `p`, or end with the error. -/
def orFail {ε : Type} (e : ε) (p : Proc S (Option β)) (k : β → Proc S (Except ε α)) :
    Proc S (Except ε α) :=
  p >>= fun
    | some b => k b
    | none => pure (.error e)

/-- Run the process with nothing in between and nothing failing. -/
def alone : Proc S α → S → α × S
  | done a, s => (a, s)
  | call effect next _, s => (next s).alone (effect s)

@[simp] theorem alone_read_bind (g : S → β) (k : Option β → Proc S α) (s : S) :
    (read g >>= k).alone s = (k (some (g s))).alone s := rfl

variable {ε : Type}

@[simp] theorem alone_orFail_exec (e : ε) (f : S → β × S)
    (k : β → Proc S (Except ε α)) (s : S) :
    (orFail e (exec f) k).alone s = (k (f s).1).alone (f s).2 := rfl

@[simp] theorem alone_orFail_read (e : ε) (g : S → β)
    (k : β → Proc S (Except ε α)) (s : S) : (orFail e (read g) k).alone s = (k (g s)).alone s := rfl

theorem alone_bind (p : Proc S α) (k : α → Proc S β) (s : S) :
    (p >>= k).alone s = (k (p.alone s).1).alone (p.alone s).2 := by
  induction p generalizing s with
  | done a => rfl
  | call effect next failed ihnext _ => exact ihnext s (effect s)

/-! ## Processes with failing commands -/

/-- Run the process with nothing in between; `fails` says which of its commands fail. -/
def faulty : Proc S α → (Nat → Bool) → S → α × S
  | done a, _, s => (a, s)
  | call effect next failed, fails, s =>
    if fails 0 then failed.faulty (fun n => fails (n + 1)) s
    else (next s).faulty (fun n => fails (n + 1)) (effect s)

theorem faulty_exec_bind (f : S → β × S) (k : Option β → Proc S α) (fails : Nat → Bool) (s : S) :
    (exec f >>= k).faulty fails s =
      if fails 0 then (k none).faulty (fun n => fails (n + 1)) s
      else (k (some (f s).1)).faulty (fun n => fails (n + 1)) (f s).2 := rfl

theorem faulty_read_bind (g : S → β) (k : Option β → Proc S α) (fails : Nat → Bool) (s : S) :
    (read g >>= k).faulty fails s =
      (k (if fails 0 then none else some (g s))).faulty (fun n => fails (n + 1)) s := by
  have h := faulty_exec_bind (fun s => (g s, s)) k fails s
  rw [read, h]
  split <;> rfl

theorem faulty_orFail_exec (e : ε) (f : S → β × S) (k : β → Proc S (Except ε α))
    (fails : Nat → Bool) (s : S) : (orFail e (exec f) k).faulty fails s =
      if fails 0 then (.error e, s)
      else (k (f s).1).faulty (fun n => fails (n + 1)) (f s).2 := rfl

theorem faulty_orFail_read (e : ε) (g : S → β) (k : β → Proc S (Except ε α))
    (fails : Nat → Bool) (s : S) : (orFail e (read g) k).faulty fails s =
      if fails 0 then (.error e, s) else (k (g s)).faulty (fun n => fails (n + 1)) s := rfl

theorem faulty_bind (p : Proc S α) (k : α → Proc S β) (fails : Nat → Bool) (s : S) :
    ∃ later, (p >>= k).faulty fails s =
      (k (p.faulty fails s).1).faulty later (p.faulty fails s).2 := by
  induction p generalizing fails s with
  | done a => exact ⟨fails, rfl⟩
  | call effect next failed ihnext ihfailed =>
    have hcall : (call effect next failed >>= k) =
        call effect (fun s => next s >>= k) (failed >>= k) := rfl
    rw [hcall]
    simp only [faulty]
    split
    · exact ihfailed _ s
    · exact ihnext s _ (effect s)

/-! ## Processes that only read -/

/-- No command has an effect. -/
def Reads : Proc S α → Prop
  | done _ => True
  | call effect next _ => (∀ s, effect s = s) ∧ ∀ s, Reads (next s)

theorem Reads.pure (a : α) : Reads (Pure.pure a : Proc S α) := trivial

theorem Reads.read (g : S → β) : Reads (Proc.read g) := ⟨fun _ => rfl, fun _ => trivial⟩

variable {p : Proc S α}

theorem Reads.bind {k : α → Proc S β} (h : Reads p) (hk : ∀ a, Reads (k a)) : Reads (p >>= k) := by
  induction p with
  | done a => exact hk a
  | call effect next failed ih _ => exact ⟨h.1, fun s => ih s (h.2 s)⟩

theorem Reads.alone (h : Reads p) (s : S) : (p.alone s).2 = s := by
  induction p with
  | done a => rfl
  | call effect next failed ih _ =>
    show ((next s).alone (effect s)).2 = s
    rw [h.1 s]
    exact ih s (h.2 s)

/-! ## Processes among other steps -/

section Interference

variable (R : S → S → Prop) (I : S → Prop)

/-- An assertion that the other steps keep. -/
def Stable (P : S → Prop) : Prop := ∀ s t, R s t → P s → P t

/-- From a state with `P` the process reaches its end with `Q`, whatever steps of `R`
come in between, when no command fails; every command keeps `I`. -/
def Ends : Proc S α → (S → Prop) → (α → S → Prop) → Prop
  | done a, P, Q => ∀ s, I s → P s → Q a s
  | call effect next _, P, Q => ∀ s, I s → P s →
      I (effect s) ∧ ∃ P', Stable R P' ∧ P' (effect s) ∧ Ends (next s) P' Q

variable {R I} {P : S → Prop} {Q : α → S → Prop}

theorem Ends.pure {a : α} (h : ∀ s, I s → P s → Q a s) : Ends R I (Pure.pure a : Proc S α) P Q := h

theorem Ends.exec_bind {f : S → β × S} {k : Option β → Proc S α} (P' : β → S → Prop)
    (hstable : ∀ b, Stable R (P' b)) (heffect : ∀ s, I s → P s → I (f s).2 ∧ P' (f s).1 (f s).2)
    (hnext : ∀ b, Ends R I (k (some b)) (P' b) Q) : Ends R I (exec f >>= k) P Q := by
  intro s hinv hp
  exact ⟨(heffect s hinv hp).1, P' (f s).1, hstable _, (heffect s hinv hp).2, hnext _⟩

theorem Ends.mono {P₁ : S → Prop} (h : Ends R I p P₁ Q)
    (himp : ∀ s, I s → P s → P₁ s) : Ends R I p P Q := by
  cases p with
  | done a => exact fun s hinv hp => h s hinv (himp s hinv hp)
  | call effect next failed => exact fun s hinv hp => h s hinv (himp s hinv hp)

theorem Ends.bind {p : Proc S β} {k : β → Proc S α} {M : β → S → Prop} (h : Ends R I p P M)
    (hnext : ∀ b, Ends R I (k b) (M b) Q) : Ends R I (p >>= k) P Q := by
  induction p generalizing P with
  | done b => exact (hnext b).mono h
  | call effect next failed ih _ =>
    intro s hinv hp
    obtain ⟨heffect, P', hstable, hp', hrest⟩ := h s hinv hp
    exact ⟨heffect, P', hstable, hp', ih s hrest⟩

theorem Ends.read_bind {g : S → β} {k : Option β → Proc S α} (P' : β → S → Prop)
    (hstable : ∀ b, Stable R (P' b)) (hread : ∀ s, I s → P s → P' (g s) s)
    (hnext : ∀ b, Ends R I (k (some b)) (P' b) Q) : Ends R I (read g >>= k) P Q :=
  Ends.exec_bind P' hstable (fun s hinv hp => ⟨hinv, hread s hinv hp⟩) hnext

theorem Reads.ends (h : Reads p) (hstable : Stable R P) : Ends R I p P fun _ => P := by
  induction p with
  | done a => exact fun s _ hp => hp
  | call effect next failed ih _ =>
    intro s hinv hp
    rw [h.1 s]
    exact ⟨hinv, P, hstable, hp, ih s (h.2 s)⟩

theorem Ends.orFail_exec {e : ε} {Q : Except ε α → S → Prop} {f : S → β × S}
    {k : β → Proc S (Except ε α)} (P' : β → S → Prop) (hstable : ∀ b, Stable R (P' b))
    (heffect : ∀ s, I s → P s → I (f s).2 ∧ P' (f s).1 (f s).2)
    (hnext : ∀ b, Ends R I (k b) (P' b) Q) : Ends R I (orFail e (exec f) k) P Q :=
  Ends.exec_bind P' hstable heffect hnext

theorem Ends.orFail_read {e : ε} {Q : Except ε α → S → Prop} {g : S → β}
    {k : β → Proc S (Except ε α)} (P' : β → S → Prop) (hstable : ∀ b, Stable R (P' b))
    (hread : ∀ s, I s → P s → P' (g s) s)
    (hnext : ∀ b, Ends R I (k b) (P' b) Q) : Ends R I (orFail e (read g) k) P Q :=
  Ends.read_bind P' hstable hread hnext

end Interference

end Proc

end Windrose.Foundation

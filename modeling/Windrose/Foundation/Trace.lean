/-
  Foundation/Trace.lean --- what a program can do.

  Nothing is assumed of the answers: every operation may answer anything, or raise.
-/
import Windrose.Foundation.Await

set_option autoImplicit false

namespace Windrose.Foundation

namespace Await

variable {Op : Type} {Ans : Op → Type} {ε α β : Type}

/-- The program awaits operations with `S` only. -/
def Only (S : Op → Prop) : Await Op Ans ε α → Prop
  | done _ => True
  | raise _ => True
  | await o k => S o ∧ ∀ r, Only S (k r)

variable {S : Op → Prop}

@[simp] theorem only_done (a : α) : Only S (done a : Await Op Ans ε α) := trivial

@[simp] theorem only_raise (e : ε) : Only S (raise e : Await Op Ans ε α) := trivial

theorem only_ask {o : Op} (ho : S o) : Only S (ask o : Await Op Ans ε (Ans o)) :=
  ⟨ho, fun r => by cases r <;> trivial⟩

theorem only_ofExcept (x : Except ε α) : Only S (ofExcept x : Await Op Ans ε α) := by
  cases x <;> trivial

variable {p : Await Op Ans ε α}

theorem Only.bind {f : α → Await Op Ans ε β} (hp : Only S p)
    (hf : ∀ a, Only S (f a)) : Only S (p >>= f) := by
  induction p with
  | done a => exact hf a
  | raise e => trivial
  | await o k ih => exact ⟨hp.1, fun r => ih r (hp.2 r)⟩

theorem Only.tryCatch {handler : ε → Await Op Ans ε α} (hp : Only S p)
    (hhandler : ∀ e, Only S (handler e)) : Only S (p.tryCatch handler) := by
  induction p with
  | done a => trivial
  | raise e => exact hhandler e
  | await o k ih => exact ⟨hp.1, fun r => ih r (hp.2 r)⟩

/-- The program awaits operations with `S`, and nothing after one with `L`. -/
def Until (S L : Op → Prop) : Await Op Ans ε α → Prop
  | done _ => True
  | raise _ => True
  | await o k => (S o ∧ ∀ r, Until S L (k r)) ∨ (L o ∧ ∀ r, (k r).head? = none)

theorem until_ask {L : Op → Prop} {o : Op} (ho : L o) :
    Until S L (ask o : Await Op Ans ε (Ans o)) :=
  .inr ⟨ho, fun r => by cases r <;> rfl⟩

theorem Only.until_bind {L : Op → Prop} {f : α → Await Op Ans ε β}
    (hp : Only S p) (hf : ∀ a, Until S L (f a)) : Until S L (p >>= f) := by
  induction p with
  | done a => exact hf a
  | raise e => trivial
  | await o k ih => exact .inl ⟨hp.1, fun r => ih r (hp.2 r)⟩

end Await

end Windrose.Foundation

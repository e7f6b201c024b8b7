/-
  Foundation/Rules.lean --- complete rules of a rule language.

  A complete rule has a default and a list of definitions, each a body and a
  value.  It evaluates to the value of the definitions whose body holds, to the
  default when there is none, and to no value at all (`none`, the evaluation
  conflict) when two definitions hold with different values.
-/
import Mathlib.Data.List.Basic

set_option autoImplicit false

namespace Windrose.Foundation

variable {α : Type}

/-- The values of the definitions whose body holds. -/
def heldValues (defs : List (Bool × α)) : List α := (defs.filter (·.1)).map (·.2)

/-- The value of a complete rule; `none` is a conflict. -/
def complete [DecidableEq α] (dflt : α) (defs : List (Bool × α)) : Option α :=
  match heldValues defs with
  | [] => some dflt
  | v :: vs => if vs.all (· = v) then some v else none

theorem mem_heldValues {defs : List (Bool × α)} {v : α} :
    v ∈ heldValues defs ↔ (true, v) ∈ defs := by
  simp [heldValues]

/-- A complete rule has a value when the definitions that hold agree. -/
theorem complete_ne_none_iff [DecidableEq α] {dflt : α} {defs : List (Bool × α)} :
    complete dflt defs ≠ none ↔ ∀ v w, (true, v) ∈ defs → (true, w) ∈ defs → v = w := by
  unfold complete
  simp only [← mem_heldValues]
  cases heldValues defs with
  | nil => simp
  | cons u us =>
    simp only [ne_eq, ite_eq_right_iff, reduceCtorEq, imp_false, Decidable.not_not,
      List.all_eq_true, decide_eq_true_eq, List.mem_cons]
    constructor
    · intro hall v w hv hw
      have hu : ∀ x, x = u ∨ x ∈ us → x = u := fun x hx => hx.elim id (hall x)
      rw [hu v hv, hu w hw]
    · intro hagree x hx
      exact hagree x u (.inr hx) (.inl rfl)

end Windrose.Foundation

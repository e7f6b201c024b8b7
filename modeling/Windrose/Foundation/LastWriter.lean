/-
  Foundation/LastWriter.lean --- a cell that keeps its highest write.

  `cas` replaces the value of a cell only by one of a higher rank.  `Newest` says
  what the cell then holds after any number of attempts in any order: one of the
  attempted values, with the highest rank of all.
-/
import Mathlib.Data.Set.Insert

set_option autoImplicit false

namespace Windrose.Foundation

variable {α ρ : Type} [LinearOrder ρ]

/-- Write `a` unless the cell has a value of its rank or a higher one. -/
def cas (rank : α → ρ) (cell : Option α) (a : α) : Option α :=
  match cell with
  | some cur => if rank a ≤ rank cur then some cur else some a
  | none => some a

/-- The cell holds a value of the highest rank among the attempts. -/
def Newest (rank : α → ρ) (attempts : Set α) : Option α → Prop
  | none => attempts = ∅
  | some a => a ∈ attempts ∧ ∀ b ∈ attempts, rank b ≤ rank a

theorem Newest.insert {rank : α → ρ} {attempts : Set α} {cell : Option α}
    (h : Newest rank attempts cell) (a : α) :
    Newest rank (Insert.insert a attempts) (cas rank cell a) := by
  cases cell with
  | none =>
    have hempty : attempts = ∅ := h
    refine ⟨Set.mem_insert a attempts, ?_⟩
    intro b hb
    rw [hempty] at hb
    obtain rfl | hb := Set.mem_insert_iff.mp hb
    · exact le_rfl
    · exact absurd hb (Set.notMem_empty b)
  | some cur =>
    obtain ⟨hmem, hmax⟩ := h
    unfold cas
    simp only
    split
    · next hle =>
      refine ⟨Set.mem_insert_of_mem a hmem, ?_⟩
      intro b hb
      obtain rfl | hb := Set.mem_insert_iff.mp hb
      · exact hle
      · exact hmax b hb
    · next hlt =>
      refine ⟨Set.mem_insert a attempts, ?_⟩
      intro b hb
      obtain rfl | hb := Set.mem_insert_iff.mp hb
      · exact le_rfl
      · exact (hmax b hb).trans (not_le.mp hlt).le

theorem Newest.eq_some {rank : α → ρ} {attempts : Set α} {cell : Option α}
    (h : Newest rank attempts cell) {a : α} (ha : a ∈ attempts)
    (hmax : ∀ b ∈ attempts, b ≠ a → rank b < rank a) : cell = some a := by
  cases cell with
  | none =>
    have hempty : attempts = ∅ := h
    rw [hempty] at ha
    exact absurd ha (Set.notMem_empty a)
  | some cur =>
    obtain ⟨hmem, hcur⟩ := h
    by_contra hne
    have hlt := hmax cur hmem fun heq => hne (congrArg some heq)
    exact absurd (hcur a ha) (not_le.mpr hlt)

end Windrose.Foundation

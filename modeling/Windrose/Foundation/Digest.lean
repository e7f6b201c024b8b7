/-
  Foundation/Digest.lean --- an injective digest with known values.

  A digest is a function on texts, and what results ask of it is injectivity.
  `digestTable` takes prescribed values of at most 32 bytes on finitely many
  texts and maps every other text to a longer one, so it is injective and agrees
  with a real digest on the texts of one example.
-/
import Mathlib.Data.List.Nodup
import Windrose.Foundation.Bytes

set_option autoImplicit false

namespace Windrose.Foundation

/-- The digest that agrees with `tbl` and is injective elsewhere. -/
def digestTable (tbl : List (Bytes × Bytes)) (b : Bytes) : Bytes :=
  (tbl.lookup b).getD (List.replicate 33 0 ++ b)

theorem digestTable_injective {tbl : List (Bytes × Bytes)}
    (hlen : ∀ p ∈ tbl, p.2.length ≤ 32) (hnodup : (tbl.map Prod.snd).Nodup) :
    Function.Injective (digestTable tbl) := by
  have hmem : ∀ {x y : Bytes}, tbl.lookup x = some y → (x, y) ∈ tbl := by
    intro x y hxy
    obtain ⟨l₁, l₂, rfl, -⟩ := List.lookup_eq_some_iff.mp hxy
    simp
  intro a b h
  unfold digestTable at h
  cases ha : tbl.lookup a with
  | none =>
    cases hb : tbl.lookup b with
    | none =>
      rw [ha, hb] at h
      exact List.append_cancel_left h
    | some y =>
      rw [ha, hb] at h
      have hy : y.length ≤ 32 := hlen (b, y) (hmem hb)
      have := congrArg List.length h
      simp only [Option.getD_none, Option.getD_some, List.length_append,
        List.length_replicate] at this
      omega
  | some x =>
    have hx := hmem ha
    cases hb : tbl.lookup b with
    | none =>
      rw [ha, hb] at h
      have hx' : x.length ≤ 32 := hlen _ hx
      have := congrArg List.length h
      simp only [Option.getD_none, Option.getD_some, List.length_append,
        List.length_replicate] at this
      omega
    | some y =>
      rw [ha, hb] at h
      rw [Option.getD_some, Option.getD_some] at h
      exact congrArg Prod.fst (List.inj_on_of_nodup_map hnodup hx (hmem hb) h)

theorem digestTable_ne_nil {tbl : List (Bytes × Bytes)} (h : ∀ p ∈ tbl, p.2 ≠ []) (b : Bytes) :
    digestTable tbl b ≠ [] := by
  unfold digestTable
  cases hb : tbl.lookup b with
  | none => exact List.cons_ne_nil _ _
  | some y =>
    obtain ⟨l₁, l₂, rfl, -⟩ := List.lookup_eq_some_iff.mp hb
    exact h (b, y) (by simp)

end Windrose.Foundation

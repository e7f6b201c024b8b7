/-
  Foundation/HashChain.lean --- hash chains, abstractly.

  A chain starts at a genesis value and grows by one `link` for each entry, so the head
  after the entries `es` is `es.foldl link g`.  When links cannot collide and no link equals
  the genesis value, the head pins every entry that led to it.

  Collision freedom is only asked for on values the chain can reach: `P` is any predicate
  that holds of the genesis value and of every link.
-/
import Mathlib.Data.List.Forall2
import Mathlib.Data.List.Induction

set_option autoImplicit false

namespace Windrose.Foundation.HashChain

variable {H E : Type} (link : H → E → H)

/-- The head a chain reaches from `g`. -/
def head (g : H) (es : List E) : H := es.foldl link g

@[simp] theorem head_nil (g : H) : head link g [] = g := rfl

@[simp] theorem head_cons (g : H) (e : E) (es : List E) :
    head link g (e :: es) = head link (link g e) es := rfl

@[simp] theorem head_append_singleton (g : H) (es : List E) (e : E) :
    head link g (es ++ [e]) = link (head link g es) e := by
  simp [head]

variable {link}

theorem head_wellFormed {P : H → Prop} {g : H} (hg : P g) (hlink : ∀ h e, P (link h e))
    (es : List E) : P (head link g es) := by
  induction es using List.reverseRecOn with
  | nil => exact hg
  | append_singleton es e _ => rw [head_append_singleton]; exact hlink _ e

/-- **Commitment.**  Two chains over one genesis value that end in the same head
agree entry by entry, whatever their lengths: the last links agree, hence so do
their predecessors, and a chain cannot run into the genesis value again.  `R` is
what a link pins of its entry. -/
theorem head_determines_entries {P : H → Prop} {R : E → E → Prop} {g : H} (hg : P g)
    (hlink : ∀ h e, P (link h e))
    (hinj : ∀ h e h' e', P h → P h' → link h e = link h' e' → h = h' ∧ R e e')
    (hgenesis : ∀ h e, P h → link h e ≠ g) :
    ∀ as bs : List E, head link g as = head link g bs → List.Forall₂ R as bs := by
  intro as
  induction as using List.reverseRecOn with
  | nil =>
    intro bs h
    cases bs using List.reverseRecOn with
    | nil => exact .nil
    | append_singleton bs b =>
      rw [head_append_singleton] at h
      exact absurd h.symm (hgenesis _ b (head_wellFormed hg hlink bs))
  | append_singleton as a ih =>
    intro bs h
    cases bs using List.reverseRecOn with
    | nil =>
      rw [head_append_singleton] at h
      exact absurd h (hgenesis _ a (head_wellFormed hg hlink as))
    | append_singleton bs b =>
      rw [head_append_singleton, head_append_singleton] at h
      obtain ⟨hheads, hentry⟩ := hinj _ a _ b (head_wellFormed hg hlink as)
        (head_wellFormed hg hlink bs) h
      exact List.rel_append (ih bs hheads) (.cons hentry .nil)

end Windrose.Foundation.HashChain

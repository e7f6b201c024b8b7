/-
  Foundation/Runs.lean --- runs of a step function.

  A run is a left fold of the steps.  `run_invariant` is the induction rule for a
  property of all states of a run; `always_iff_each` compares a property of all
  states with a condition on the single steps, when one step keeps the property
  exactly under the condition.  Processes that run at the same time are a list, of which
  a step replaces or drops one.
-/
import Mathlib.Data.List.Infix
import Mathlib.Data.List.Perm.Basic

set_option autoImplicit false

namespace Windrose.Foundation

section Runs

variable {σ α : Type} (step : σ → α → σ)

/-- The state after a list of steps. -/
def run (s : σ) (as : List α) : σ := as.foldl step s

/-- A property holds in every state of a run, the first and the last included. -/
def Always (P : σ → Prop) (s : σ) (as : List α) : Prop := ∀ done, done <+: as → P (run step s done)

/-- A condition holds of every step of a run, in the state before it. -/
def Each (C : σ → α → Prop) (s : σ) (as : List α) : Prop :=
  ∀ done a, done ++ [a] <+: as → C (run step s done) a

@[simp] theorem run_nil (s : σ) : run step s [] = s := rfl

@[simp] theorem run_cons (s : σ) (a : α) (as : List α) :
    run step s (a :: as) = run step (step s a) as := rfl

theorem run_append (s : σ) (as bs : List α) :
    run step s (as ++ bs) = run step (run step s as) bs := List.foldl_append

theorem run_snoc (s : σ) (as : List α) (a : α) :
    run step s (as ++ [a]) = step (run step s as) a := by
  rw [run_append]
  rfl

variable {step}

variable {C : σ → α → Prop} {s : σ}

theorem each_nil (s : σ) : Each step C s [] := by
  intro done a h
  simp at h

theorem each_cons {a : α} {as : List α} :
    Each step C s (a :: as) ↔ C s a ∧ Each step C (step s a) as := by
  constructor
  · intro h
    refine ⟨h [] a (by simp), fun done b hd => ?_⟩
    exact h (a :: done) b (by simpa using hd)
  · rintro ⟨hhead, htail⟩ done b hd
    cases done with
    | nil =>
      obtain rfl : b = a := by simpa using hd
      exact hhead
    | cons a' done =>
      rw [List.cons_append, List.cons_prefix_cons] at hd
      obtain ⟨rfl, hd⟩ := hd
      exact htail done b hd

instance Each.decidable {C : σ → α → Prop} [∀ s a, Decidable (C s a)] :
    ∀ s as, Decidable (Each step C s as)
  | s, [] => isTrue (each_nil s)
  | s, a :: as =>
    have : Decidable (Each step C (step s a) as) := Each.decidable (step s a) as
    decidable_of_iff (C s a ∧ Each step C (step s a) as) each_cons.symm

theorem run_invariant {P : σ → Prop} (hstep : ∀ s a, P s → P (step s a)) (hs : P s)
    (as : List α) : P (run step s as) := by
  induction as generalizing s with
  | nil => exact hs
  | cons a as ih => exact ih (hstep s a hs)

/-- Induction along a run, for a property of the steps done and the state reached. -/
theorem run_induction {P : List α → σ → Prop} (hs : P [] s) (as : List α)
    (hstep : ∀ done a, done ++ [a] <+: as → P done (run step s done) →
      P (done ++ [a]) (step (run step s done) a)) : P as (run step s as) := by
  have h : ∀ done, done <+: as → P done (run step s done) := by
    intro done
    induction done using List.reverseRecOn with
    | nil => exact fun _ => hs
    | append_singleton done a ih =>
      intro hd
      rw [run_snoc]
      exact hstep done a hd (ih ((List.prefix_append done [a]).trans hd))
  exact h as List.prefix_rfl

/-- If a step that meets `C` keeps `P`, then `P` holds along a run whose steps all meet
`C`. -/
theorem always_of_each {P : σ → Prop}
    (hstep : ∀ s a, P s → C s a → P (step s a)) (hs : P s) {as : List α}
    (h : Each step C s as) : Always step P s as := by
  intro done hd
  apply run_induction (P := fun _ t => P t) hs done
  intro before a hb ht
  exact hstep _ a ht (h before a (hb.trans hd))

/-- If a step keeps `P` exactly when it meets `C`, then `P` holds along a run exactly
when every step meets `C`. -/
theorem always_iff_each {P : σ → Prop}
    (hstep : ∀ s a, P s → (P (step s a) ↔ C s a)) (hs : P s) (as : List α) :
    Always step P s as ↔ Each step C s as := by
  constructor
  · intro h done a hd
    have hbefore := h done ((List.prefix_append done [a]).trans hd)
    have hafter := h (done ++ [a]) hd
    rw [run_snoc] at hafter
    exact (hstep _ a hbefore).mp hafter
  · exact always_of_each (fun s a hp hc => (hstep s a hp).mpr hc) hs

/-- A fold whose steps follow a transitive relation follows it, and what a step brings about
and the relation keeps is there at the end. -/
theorem foldl_along {R : σ → σ → Prop} {Q : α → σ → Prop} (hrefl : ∀ s, R s s)
    (htrans : ∀ s t u, R s t → R t u → R s u) (hkeep : ∀ a s t, R s t → Q a s → Q a t) {s₀ : σ}
    (as : List α) (hstep : ∀ a ∈ as, ∀ s, R s₀ s → R s (step s a) ∧ Q a (step s a))
    (hs : R s₀ s) : R s (as.foldl step s) ∧ ∀ a ∈ as, Q a (as.foldl step s) := by
  induction as generalizing s with
  | nil => exact ⟨hrefl s, nofun⟩
  | cons a as ih =>
    obtain ⟨hfirst, hhead⟩ := hstep a List.mem_cons_self s hs
    obtain ⟨hrest, htail⟩ := ih (fun b hb => hstep b (List.mem_cons_of_mem _ hb))
      (htrans _ _ _ hs hfirst)
    exact ⟨htrans _ _ _ hfirst hrest, List.forall_mem_cons.mpr ⟨hkeep a _ _ hrest hhead, htail⟩⟩

end Runs

/-! ## One process of a list -/

section Processes

variable {α : Type} {l : List α} {i : Nat} {a b x : α}

theorem perm_eraseIdx (h : l[i]? = some a) : (a :: l.eraseIdx i).Perm l := by
  obtain ⟨hlt, rfl⟩ := List.getElem?_eq_some_iff.mp h
  exact List.getElem_cons_eraseIdx_perm hlt

theorem perm_set (h : l[i]? = some a) (b : α) : (l.set i b).Perm (b :: l.eraseIdx i) := by
  obtain ⟨hlt, -⟩ := List.getElem?_eq_some_iff.mp h
  exact List.set_perm_cons_eraseIdx hlt b

theorem countP_eraseIdx (h : l[i]? = some a) (p : α → Bool) :
    (l.eraseIdx i).countP p + (p a).toNat = l.countP p := by
  rw [← (perm_eraseIdx h).countP_eq, List.countP_cons]
  cases p a <;> rfl

theorem countP_set (h : l[i]? = some a) (b : α) (p : α → Bool) :
    (l.set i b).countP p + (p a).toNat = l.countP p + (p b).toNat := by
  rw [(perm_set h b).countP_eq, List.countP_cons, ← countP_eraseIdx h p]
  cases p a <;> cases p b <;> simp [Nat.add_comm, Nat.add_left_comm]

theorem mem_eraseIdx_iff (h : l[i]? = some a) (hx : x ≠ a) : x ∈ l.eraseIdx i ↔ x ∈ l := by
  rw [← (perm_eraseIdx h).mem_iff, List.mem_cons]
  exact (or_iff_right hx).symm

theorem mem_set_iff (h : l[i]? = some a) (hx : x ≠ a) : x ∈ l.set i b ↔ x = b ∨ x ∈ l := by
  rw [(perm_set h b).mem_iff, List.mem_cons, mem_eraseIdx_iff h hx]

end Processes

end Windrose.Foundation

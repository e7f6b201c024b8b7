/-
  Foundation/Await.lean --- programs that await named operations.

  A program returns, raises, or awaits an operation and goes on with what came of it:
  an answer or an exception.  `tryCatch` and `always` are the handlers of a language
  with exceptions, `except` and `finally`.

  `handle` runs one program alone.  `Pool` runs any number of programs over one store.  A
  move is one operation of one program: it takes effect and answers, or it fails without
  effect.
-/
import Windrose.Foundation.Runs

set_option autoImplicit false

namespace Windrose.Foundation

/-- A program over the operations `Op`; `Ans o` is what the operation `o` answers, `ε`
the exceptions. -/
inductive Await (Op : Type) (Ans : Op → Type) (ε α : Type) : Type where
  | done (a : α)
  | raise (e : ε)
  | await (o : Op) (k : Except ε (Ans o) → Await Op Ans ε α)

namespace Await

variable {Op : Type} {Ans : Op → Type} {ε α β : Type}

/-- Go on with the result. -/
protected def bind : Await Op Ans ε α → (α → Await Op Ans ε β) → Await Op Ans ε β
  | done a, f => f a
  | raise e, _ => raise e
  | await o k, f => await o fun r => (k r).bind f

instance : Monad (Await Op Ans ε) where
  pure := done
  bind := Await.bind

/-- The program with the given outcome. -/
def ofExcept : Except ε α → Await Op Ans ε α
  | .ok a => done a
  | .error e => raise e

/-- One operation. -/
def ask (o : Op) : Await Op Ans ε (Ans o) := await o ofExcept

/-- `try: p except: h`; the handler raises again what it does not catch. -/
def tryCatch : Await Op Ans ε α → (ε → Await Op Ans ε α) → Await Op Ans ε α
  | done a, _ => done a
  | raise e, h => h e
  | await o k, h => await o fun r => (k r).tryCatch h

@[simp] theorem pure_eq (a : α) : (pure a : Await Op Ans ε α) = done a := rfl

@[simp] theorem done_bind (a : α) (f : α → Await Op Ans ε β) : (done a >>= f) = f a := rfl

theorem bind_bind {γ : Type} (p : Await Op Ans ε α) (f : α → Await Op Ans ε β)
    (g : β → Await Op Ans ε γ) : (p >>= f) >>= g = p >>= fun a => f a >>= g := by
  induction p with
  | done a => rfl
  | raise e => rfl
  | await o k ih => exact congrArg (await o) (funext ih)

/-- The operation a program waits for. -/
def head? : Await Op Ans ε α → Option Op
  | await o _ => some o
  | _ => none

/-! ## A program alone -/

section Handle

variable {σ : Type} (h : Nat → (o : Op) → σ → Except ε (Ans o) × σ)

/-- Run a program alone: `h` answers its operations, which are counted. -/
def handle : Await Op Ans ε α → Nat → σ → Except ε α × Nat × σ
  | done a, n, s => (.ok a, n, s)
  | raise e, n, s => (.error e, n, s)
  | await o k, n, s => (k (h n o s).1).handle (n + 1) (h n o s).2

variable {p : Await Op Ans ε α} {s s' : σ} {n n' : Nat}

theorem handle_bind_ok {a : α}
    (hp : p.handle h n s = (.ok a, n', s')) (f : α → Await Op Ans ε β) :
    (p >>= f).handle h n s = (f a).handle h n' s' := by
  induction p generalizing n s with
  | done b =>
    cases hp
    rfl
  | raise e => cases hp
  | await o k ih => exact ih _ hp

theorem handle_bind_error {e : ε}
    (hp : p.handle h n s = (.error e, n', s')) (f : α → Await Op Ans ε β) :
    (p >>= f).handle h n s = (.error e, n', s') := by
  induction p generalizing n s with
  | done b => cases hp
  | raise e' =>
    cases hp
    rfl
  | await o k ih => exact ih _ hp

theorem handle_tryCatch_ok {a : α}
    (hp : p.handle h n s = (.ok a, n', s')) (handler : ε → Await Op Ans ε α) :
    (p.tryCatch handler).handle h n s = (.ok a, n', s') := by
  induction p generalizing n s with
  | done b => exact hp
  | raise e => cases hp
  | await o k ih => exact ih _ hp

theorem handle_tryCatch_error {e : ε}
    (hp : p.handle h n s = (.error e, n', s')) (handler : ε → Await Op Ans ε α) :
    (p.tryCatch handler).handle h n s = (handler e).handle h n' s' := by
  induction p generalizing n s with
  | done b => cases hp
  | raise e' =>
    cases hp
    rfl
  | await o k ih => exact ih _ hp

theorem handle_ask_bind_ok {o : Op} {n : Nat} {a : Ans o}
    (ho : h n o s = (.ok a, s')) (f : Ans o → Await Op Ans ε β) :
    (ask o >>= f).handle h n s = (f a).handle h (n + 1) s' := by
  refine handle_bind_ok h ?_ f
  show (ofExcept (h n o s).1).handle h (n + 1) (h n o s).2 = _
  rw [ho]
  rfl

theorem handle_ask_bind_error {o : Op} {n : Nat} {e : ε}
    (ho : h n o s = (.error e, s')) (f : Ans o → Await Op Ans ε β) :
    (ask o >>= f).handle h n s = (.error e, n + 1, s') := by
  refine handle_bind_error h ?_ f
  show (ofExcept (h n o s).1).handle h (n + 1) (h n o s).2 = _
  rw [ho]
  rfl

end Handle

end Await

/-! ## Programs over one store -/

/-- The store, the calls that have begun, the programs of those under way, and the
outcomes of those that have ended. -/
structure Pool (σ ι χ Op : Type) (Ans : Op → Type) (ε α : Type) where
  store : σ
  started : List χ
  busy : ι → Option (χ × Await Op Ans ε α)
  log : List (χ × Except ε α)

/-- One move of a pool. -/
inductive Move (ι χ ε τ : Type) where
  /-- a call begins -/
  | start (i : ι) (c : χ)
  /-- the operation a program waits for takes effect and answers -/
  | go (i : ι)
  /-- the operation fails without effect -/
  | fail (i : ι) (e : ε)
  /-- something else happens to the store -/
  | other (t : τ)

namespace Pool

variable {σ ι χ Op ε α τ : Type} {Ans : Op → Type} [DecidableEq ι]

/-- Nothing has begun. -/
def idle (s : σ) : Pool σ ι χ Op Ans ε α := ⟨s, [], fun _ => none, []⟩

/-- The program goes on, or its call ends. -/
def resume (w : Pool σ ι χ Op Ans ε α) (i : ι) (c : χ) :
    Await Op Ans ε α → Pool σ ι χ Op Ans ε α
  | .done a => { w with busy := Function.update w.busy i none, log := w.log ++ [(c, .ok a)] }
  | .raise e => { w with busy := Function.update w.busy i none, log := w.log ++ [(c, .error e)] }
  | .await o k => { w with busy := Function.update w.busy i (some (c, .await o k)) }

@[simp] theorem resume_store (w : Pool σ ι χ Op Ans ε α) (i : ι) (c : χ) (p : Await Op Ans ε α) :
    (w.resume i c p).store = w.store := by
  cases p <;> rfl

theorem busy_resume {w : Pool σ ι χ Op Ans ε α} {i j : ι} {c c' : χ} {p p' : Await Op Ans ε α}
    (h : (w.resume i c p).busy j = some (c', p')) :
    (j = i ∧ c' = c ∧ p' = p) ∨ (j ≠ i ∧ w.busy j = some (c', p')) := by
  by_cases hij : j = i
  · subst hij
    cases p with
    | done a => simp [resume] at h
    | raise e => simp [resume] at h
    | await o k =>
      simp only [resume, Function.update_self, Option.some.injEq, Prod.mk.injEq] at h
      exact .inl ⟨rfl, h.1.symm, h.2.symm⟩
  · refine .inr ⟨hij, ?_⟩
    cases p with
    | done a => simpa [resume, hij] using h
    | raise e => simpa [resume, hij] using h
    | await o k => simpa [resume, hij] using h

variable {w : Pool σ ι χ Op Ans ε α}

theorem log_resume {i : ι} {c c' : χ} {p : Await Op Ans ε α}
    {out : Except ε α} (h : (c', out) ∈ (w.resume i c p).log) :
    (c' = c ∧ p = Await.ofExcept out) ∨ (c', out) ∈ w.log := by
  cases p with
  | done a =>
    obtain h | h := List.mem_append.mp h
    · exact .inr h
    · obtain ⟨rfl, rfl⟩ := Prod.mk.inj (List.mem_singleton.mp h)
      exact .inl ⟨rfl, rfl⟩
  | raise e =>
    obtain h | h := List.mem_append.mp h
    · exact .inr h
    · obtain ⟨rfl, rfl⟩ := Prod.mk.inj (List.mem_singleton.mp h)
      exact .inl ⟨rfl, rfl⟩
  | await o k => exact .inr h

/-- The operation that a move executes. -/
def operation (w : Pool σ ι χ Op Ans ε α) : Move ι χ ε τ → Option Op
  | .go i => (w.busy i).bind fun p => p.2.head?
  | _ => none

section Step

variable (program : χ → Await Op Ans ε α) (effect : (o : Op) → σ → Except ε (Ans o) × σ)
  (outside : τ → σ → σ)

/-- One move; one that cannot be made changes nothing. -/
def step (w : Pool σ ι χ Op Ans ε α) : Move ι χ ε τ → Pool σ ι χ Op Ans ε α
  | .start i c =>
    match w.busy i with
    | none => { w with started := w.started ++ [c] }.resume i c (program c)
    | some _ => w
  | .go i =>
    match w.busy i with
    | some (c, .await o k) =>
      { w with store := (effect o w.store).2 }.resume i c (k (effect o w.store).1)
    | _ => w
  | .fail i e =>
    match w.busy i with
    | some (c, .await _ k) => w.resume i c (k (.error e))
    | _ => w
  | .other t => { w with store := outside t w.store }

theorem step_view (w : Pool σ ι χ Op Ans ε α) (m : Move ι χ ε τ) :
    step program effect outside w m = w ∨
    (∃ i c, m = .start i c ∧ w.busy i = none ∧ step program effect outside w m =
      { w with started := w.started ++ [c] }.resume i c (program c)) ∨
    (∃ i c o k, m = .go i ∧ w.busy i = some (c, .await o k) ∧ w.operation m = some o ∧
      step program effect outside w m =
        { w with store := (effect o w.store).2 }.resume i c (k (effect o w.store).1)) ∨
    (∃ i c o k e, m = .fail i e ∧ w.busy i = some (c, .await o k) ∧
      step program effect outside w m = w.resume i c (k (.error e))) ∨
    ∃ t, m = .other t ∧ step program effect outside w m =
      { w with store := outside t w.store } := by
  cases m with
  | start i c =>
    cases h : w.busy i with
    | none => exact .inr (.inl ⟨i, c, rfl, h, by simp [step, h]⟩)
    | some p => exact .inl (by simp [step, h])
  | go i =>
    cases h : w.busy i with
    | none => exact .inl (by simp [step, h])
    | some p =>
      obtain ⟨c, p⟩ := p
      cases p with
      | done a => exact .inl (by simp [step, h])
      | raise e => exact .inl (by simp [step, h])
      | await o k =>
        exact .inr (.inr (.inl ⟨i, c, o, k, rfl, h, by simp [operation, h, Await.head?],
          by simp [step, h]⟩))
  | fail i e =>
    cases h : w.busy i with
    | none => exact .inl (by simp [step, h])
    | some p =>
      obtain ⟨c, p⟩ := p
      cases p with
      | done a => exact .inl (by simp [step, h])
      | raise e => exact .inl (by simp [step, h])
      | await o k => exact .inr (.inr (.inr (.inl ⟨i, c, o, k, e, rfl, h, by simp [step, h]⟩)))
  | other t => exact .inr (.inr (.inr (.inr ⟨t, rfl, rfl⟩)))

variable {m : Move ι χ ε τ}

theorem store_of_operation {o : Op} (h : w.operation m = some o) :
    (step program effect outside w m).store = (effect o w.store).2 := by
  cases m with
  | go i =>
    cases hbusy : w.busy i with
    | none => simp [operation, hbusy] at h
    | some p =>
      obtain ⟨c, p⟩ := p
      cases p with
      | done a => simp [operation, hbusy, Await.head?] at h
      | raise e => simp [operation, hbusy, Await.head?] at h
      | await o' k =>
        obtain rfl : o' = o := by simpa [operation, hbusy, Await.head?] using h
        simp [step, hbusy]
  | start i c => simp [operation] at h
  | fail i e => simp [operation] at h
  | other t => simp [operation] at h

theorem store_of_not_operation (h : w.operation m = none) :
    (step program effect outside w m).store = w.store ∨
      ∃ t, (step program effect outside w m).store = outside t w.store := by
  obtain hs | ⟨i, c, -, -, hs⟩ | ⟨i, c, o, k, -, -, ho, hs⟩ | ⟨i, c, o, k, e, -, -, hs⟩ |
      ⟨t, -, hs⟩ :=
    step_view program effect outside w m
  · exact .inl (by rw [hs])
  · exact .inl (by rw [hs, resume_store])
  · rw [h] at ho
    cases ho
  · exact .inl (by rw [hs, resume_store])
  · exact .inr ⟨t, by rw [hs]⟩

theorem kept_of_not_operation {I : σ → Prop} (houtside : ∀ s t, I s → I (outside t s))
    (hw : I w.store) (h : w.operation m = none) :
    I (step program effect outside w m).store := by
  obtain h | ⟨t, h⟩ := store_of_not_operation program effect outside h
  · rwa [h]
  · rw [h]
    exact houtside _ t hw

/-- An invariant of the store that every operation keeps under a condition `C` holds in
every state of a run whose operations all meet it. -/
theorem run_invariant {I : σ → Prop} {C : Pool σ ι χ Op Ans ε α → Op → Prop}
    (heffect : ∀ w o, I w.store → C w o → I (effect o w.store).2)
    (houtside : ∀ s t, I s → I (outside t s)) {s : σ} (hs : I s) (ms : List (Move ι χ ε τ))
    (hms : Each (step program effect outside) (fun w m => ∀ o ∈ w.operation m, C w o) (idle s) ms) :
    Always (step program effect outside) (fun w => I w.store) (idle s) ms := by
  refine always_of_each (P := fun w : Pool σ ι χ Op Ans ε α => I w.store) ?_ hs hms
  intro w m hw hc
  cases ho : w.operation m with
  | none => exact kept_of_not_operation program effect outside houtside hw ho
  | some o =>
    rw [store_of_operation program effect outside ho]
    exact heffect w o hw (hc o ho)

/-- If an operation keeps `I` exactly under `C`, then `I` holds along a run exactly when
every operation of the run meets `C`. -/
theorem run_invariant_iff {I : σ → Prop} {C : σ → Op → Prop}
    (heffect : ∀ s o, I s → (I (effect o s).2 ↔ C s o))
    (houtside : ∀ s t, I s → I (outside t s)) {s : σ} (hs : I s) (ms : List (Move ι χ ε τ)) :
    Always (step program effect outside) (fun w => I w.store) (idle s) ms ↔
      Each (step program effect outside) (fun w m => ∀ o ∈ w.operation m, C w.store o)
        (idle s) ms := by
  refine always_iff_each (P := fun w : Pool σ ι χ Op Ans ε α => I w.store) (fun w m hw => ?_) hs ms
  cases ho : w.operation m with
  | none => simp [kept_of_not_operation program effect outside houtside hw ho]
  | some o =>
    rw [store_of_operation program effect outside ho, heffect w.store o hw]
    simp

/-! ### Assertions about the calls -/

/-- The store meets `I`, and every call meets `T` with the rest of its program; the rest
of an ended call is its outcome. -/
structure Attended (I : σ → Prop) (T : χ → Await Op Ans ε α → σ → Prop)
    (w : Pool σ ι χ Op Ans ε α) : Prop where
  store : I w.store
  busy : ∀ i c p, w.busy i = some (c, p) → c ∈ w.started ∧ T c p w.store
  log : ∀ c out, (c, out) ∈ w.log → c ∈ w.started ∧ T c (Await.ofExcept out) w.store

variable {I : σ → Prop} {T : χ → Await Op Ans ε α → σ → Prop}

theorem Attended.resume (h : Attended I T w) (i : ι) {c : χ}
    (hc : c ∈ w.started) {p : Await Op Ans ε α} (hp : T c p w.store) :
    Attended I T (w.resume i c p) := by
  have hput : ∀ b, (∀ c' p', b = some (c', p') → c' ∈ w.started ∧ T c' p' w.store) →
      ∀ j c' p', Function.update w.busy i b j = some (c', p') →
        c' ∈ w.started ∧ T c' p' w.store := by
    intro b hb j c' p' hj
    by_cases hij : j = i
    · subst hij
      rw [Function.update_self] at hj
      exact hb c' p' hj
    · rw [Function.update_of_ne hij] at hj
      exact h.busy j c' p' hj
  have hended : ∀ out, T c (Await.ofExcept out) w.store → ∀ c' out', (c', out') ∈ w.log ++
      [(c, out)] →
      c' ∈ w.started ∧ T c' (Await.ofExcept out') w.store := by
    intro out hout c' out' hmem
    obtain hmem | hmem := List.mem_append.mp hmem
    · exact h.log c' out' hmem
    · obtain ⟨rfl, rfl⟩ := Prod.mk.inj (List.mem_singleton.mp hmem)
      exact ⟨hc, hout⟩
  cases p with
  | done a => exact ⟨h.store, hput none (by simp), hended (.ok a) hp⟩
  | raise e => exact ⟨h.store, hput none (by simp), hended (.error e) hp⟩
  | await o k =>
    refine ⟨h.store, hput _ fun c' p' hj => ?_, h.log⟩
    obtain ⟨rfl, rfl⟩ := Prod.mk.inj (Option.some.inj hj)
    exact ⟨hc, hp⟩

/-- The rule for calls among others.  An operation of a call that meets `C` keeps `I` and
the assertions of all calls that have begun, and its own call goes on from its answer. -/
theorem run_attended {C : Pool σ ι χ Op Ans ε α → Op → Prop}
    (hstart : ∀ c s, I s → T c (program c) s)
    (heffect : ∀ w o, I w.store → C w o → (∃ c k, T c (.await o k) w.store) →
      I (effect o w.store).2)
    (hothers : ∀ w o, I w.store → C w o → ∀ c ∈ w.started, ∀ p, T c p w.store →
      T c p (effect o w.store).2)
    (hnext : ∀ w o, I w.store → C w o → ∀ c ∈ w.started, ∀ k, T c (.await o k) w.store →
      T c (k (effect o w.store).1) (effect o w.store).2)
    (hfail : ∀ s c o k e, T c (.await o k) s → T c (k (.error e)) s)
    (houtside : ∀ s t, I s → I (outside t s) ∧ ∀ c p, T c p s → T c p (outside t s))
    {s : σ} (hs : I s) (ms : List (Move ι χ ε τ))
    (hms : Each (step program effect outside) (fun w m => ∀ o ∈ w.operation m, C w o) (idle s) ms) :
    Always (step program effect outside) (Attended I T) (idle s) ms := by
  refine always_of_each ?_ ⟨hs, by simp [idle], by simp [idle]⟩ hms
  intro w m hw hc
  obtain h | ⟨i, c, -, -, h⟩ | ⟨i, c, o, k, -, hbusy, ho, h⟩ | ⟨i, c, o, k, e, -, hbusy, h⟩ |
      ⟨t, -, h⟩ :=
    step_view program effect outside w m
  · rwa [h]
  · rw [h]
    refine Attended.resume (w := { w with started := w.started ++ [c] })
      ⟨hw.store, fun j c' p hp => ?_, fun c' out hout => ?_⟩ i (by simp) (hstart c _ hw.store)
    · exact (hw.busy j c' p hp).imp_left (List.mem_append_left _)
    · exact (hw.log c' out hout).imp_left (List.mem_append_left _)
  · rw [h]
    have hmeets := hc o ho
    obtain ⟨hmem, hp⟩ := hw.busy i c _ hbusy
    refine Attended.resume (w := { w with store := (effect o w.store).2 })
      ⟨heffect w o hw.store hmeets ⟨c, k, hp⟩, fun j c' p hp => ?_, fun c' out hout => ?_⟩
      i hmem (hnext w o hw.store hmeets c hmem k hp)
    · obtain ⟨hmem, hp⟩ := hw.busy j c' p hp
      exact ⟨hmem, hothers w o hw.store hmeets c' hmem p hp⟩
    · obtain ⟨hmem, hp⟩ := hw.log c' out hout
      exact ⟨hmem, hothers w o hw.store hmeets c' hmem _ hp⟩
  · rw [h]
    exact hw.resume i (hw.busy i c _ hbusy).1 (hfail _ c o k e (hw.busy i c _ hbusy).2)
  · rw [h]
    obtain ⟨hinv, hkeeps⟩ := houtside w.store t hw.store
    exact ⟨hinv, fun j c p hp => (hw.busy j c p hp).imp_right (hkeeps c p),
      fun c out hout => (hw.log c out hout).imp_right (hkeeps c _)⟩

end Step

end Pool

end Windrose.Foundation

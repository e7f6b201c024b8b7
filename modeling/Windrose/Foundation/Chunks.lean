/-
  Foundation/Chunks.lean --- a reader of pieces whose text arrives in chunks.

  The reader takes what stands before each separator as a piece.  What is behind the
  last separator waits in the buffer, and only there its length is looked at: a piece
  over the cap is read when its separator is in the same chunk, and refused when a
  chunk ends inside of it.
-/
import Windrose.Foundation.Strip

set_option autoImplicit false

namespace Windrose.Foundation

/-- What a reader yields before it ends, and how it ends. -/
abbrev Yield (β ε γ : Type) : Type := List β × Except ε γ

/-- The same is yielded, and both end well or neither does. -/
def Yield.Same {β ε γ : Type} (r r' : Yield β ε γ) : Prop := r.1 = r'.1 ∧ r.2.isOk = r'.2.isOk

namespace Yield

variable {β ε γ : Type}

variable {r' : Yield β ε γ}

theorem Same.symm {r : Yield β ε γ} (h : r.Same r') : r'.Same r := ⟨h.1.symm, h.2.symm⟩

theorem Same.trans {r r'' : Yield β ε γ} (h : r.Same r') (h' : r'.Same r'') : r.Same r'' :=
  ⟨h.1.trans h'.1, h.2.trans h'.2⟩

/-- Put in front. -/
def after (out : List β) (r : Yield β ε γ) : Yield β ε γ := (out ++ r.1, r.2)

theorem same_after_iff {out : List β} {r : Yield β ε γ} :
    (r.after out).Same (r'.after out) ↔ r.Same r' := by
  simp [Same, after]

theorem after_after (out out' : List β) (r : Yield β ε γ) :
    (r.after out').after out = r.after (out ++ out') := by
  rw [after, after, after, List.append_assoc]

/-- Nothing is yielded, and the end is an error. -/
def Fails (r : Yield β ε γ) : Prop := r.1 = [] ∧ r.2.isOk = false

end Yield

open Yield

/-- A reader of pieces: a piece with its separator is read, and what is left at the end
is closed. -/
structure PieceReader (α β ε : Type) where
  sep : α
  cap : Nat
  tooLong : ε
  read : List α → Except ε (List β)
  close : List α → Yield β ε Unit

namespace PieceReader

variable {α β ε : Type} [DecidableEq α] (R : PieceReader α β ε)

/-- The pieces in a buffer; the last one stays there. -/
def drain : List (List α) → Yield β ε (List α)
  | [] => ([], .ok [])
  | [buf] => ([], if R.cap < buf.length then .error R.tooLong else .ok buf)
  | piece :: pieces =>
    match R.read piece with
    | .error e => ([], .error e)
    | .ok out => (drain pieces).after out

/-- Chunk after chunk. -/
def run : List α → List (List α) → Yield β ε Unit
  | buf, [] => R.close buf
  | buf, chunk :: chunks =>
    match R.drain ((buf ++ chunk).splitOn R.sep) with
    | (out, .error e) => (out, .error e)
    | (out, .ok buf) => (run buf chunks).after out

/-- The pieces of a text that comes at once. -/
def outcome : List (List α) → Yield β ε Unit
  | [] => R.close []
  | [tail] => if R.cap < tail.length then ([], .error R.tooLong) else R.close tail
  | piece :: pieces =>
    match R.read piece with
    | .error e => ([], .error e)
    | .ok out => (outcome pieces).after out

/-- However a text is cut, it gives the same. -/
def SameForAll (s : List α) : Prop :=
  ∀ chunks : List (List α), chunks.flatten = s →
    (R.run [] chunks).Same (R.outcome (s.splitOn R.sep))

/-- Nothing more is read, and the end is an error. -/
def Idle : List (List α) → Prop
  | [] => (R.close []).Fails
  | [tail] => R.cap < tail.length ∨ (R.close tail).Fails
  | piece :: pieces => (R.read piece).isOk = false ∨ (R.read piece = .ok [] ∧ Idle pieces)

/-- A piece over the cap, before the first that is refused, has nothing behind it that is
read. -/
def Settled : List (List α) → Prop
  | [] => True
  | [_] => True
  | piece :: pieces =>
    (R.read piece).isOk = false ∨
      ((piece.length ≤ R.cap ∨ R.Idle (piece :: pieces)) ∧ Settled pieces)

variable {R}

variable {pieces : List (List α)} {piece : List α}

omit [DecidableEq α] in
theorem outcome_cons (hne : pieces ≠ []) : R.outcome (piece :: pieces) =
      match R.read piece with
      | .error e => ([], .error e)
      | .ok out => (R.outcome pieces).after out := by
  cases pieces with
  | nil => exact absurd rfl hne
  | cons next more => rfl

omit [DecidableEq α] in
theorem drain_cons (hne : pieces ≠ []) : R.drain (piece :: pieces) =
      match R.read piece with
      | .error e => ([], .error e)
      | .ok out => (R.drain pieces).after out := by
  cases pieces with
  | nil => exact absurd rfl hne
  | cons next more => rfl

omit [DecidableEq α] in
theorem idle_iff : R.Idle pieces ↔ (R.outcome pieces).Fails := by
  induction pieces with
  | nil => rfl
  | cons piece pieces ih =>
    cases pieces with
    | nil =>
      rw [Idle, outcome]
      split
      · next hlong => simp [hlong, Fails, Except.isOk, Except.toBool]
      · next hshort => simp [hshort]
    | cons next more =>
      have hidle : R.Idle (piece :: next :: more) ↔
          ((R.read piece).isOk = false ∨ (R.read piece = .ok [] ∧ R.Idle (next :: more))) :=
        Iff.rfl
      rw [outcome_cons (List.cons_ne_nil next more), hidle, ih]
      cases R.read piece with
      | error e => simp [Fails, Except.isOk, Except.toBool]
      | ok out => simp [Fails, Yield.after, Except.isOk, Except.toBool, and_assoc]

omit [DecidableEq α] in
theorem closed_drain (hne : pieces ≠ []) : (match R.drain pieces with
      | (out, .error e) => (out, .error e)
      | (out, .ok buf) => (R.close buf).after out) = R.outcome pieces := by
  induction pieces with
  | nil => exact absurd rfl hne
  | cons piece pieces ih =>
    cases pieces with
    | nil =>
      rw [drain, outcome]
      split_ifs
      · rfl
      · rfl
    | cons next more =>
      have hmore := List.cons_ne_nil next more
      rw [drain_cons hmore, outcome_cons hmore, ← ih hmore]
      cases R.read piece with
      | error e => rfl
      | ok out =>
        dsimp only
        generalize R.drain (next :: more) = r
        obtain ⟨rest, ended⟩ := r
        cases ended with
        | error e => rfl
        | ok buf => exact (after_after out rest (R.close buf)).symm

theorem run_single (s : List α) : R.run [] [s] = R.outcome (s.splitOn R.sep) := by
  rw [run, List.nil_append, ← closed_drain (List.splitOn_ne_nil _ _)]
  rfl

/-! ### Cuts that make no difference -/

omit [DecidableEq α] in
theorem drain_outcome {last : List α} {rest : List (List α)} (hne : rest ≠ [])
    (hlast : R.cap < last.length → ∃ piece more, rest = piece :: more ∧ R.cap < piece.length)
    (h : R.Settled (pieces ++ rest)) : (∃ out e, R.drain (pieces ++ [last]) = (out, .error e) ∧
        Yield.Same (out, .error e) (R.outcome (pieces ++ rest))) ∨
      ∃ out, R.drain (pieces ++ [last]) = (out, .ok last) ∧ last.length ≤ R.cap ∧
        R.Settled rest ∧ R.outcome (pieces ++ rest) = (R.outcome rest).after out := by
  induction pieces with
  | nil =>
    rw [List.nil_append] at h
    rw [List.nil_append, List.nil_append]
    by_cases hlong : R.cap < last.length
    · obtain ⟨piece, more, rfl, hpiece⟩ := hlast hlong
      refine .inl ⟨[], R.tooLong, by rw [drain, if_pos hlong], ?_⟩
      have hfails : (R.outcome (piece :: more)).Fails := by
        cases more with
        | nil =>
          rw [outcome, if_pos hpiece]
          exact ⟨rfl, rfl⟩
        | cons next more =>
          apply idle_iff.mp
          obtain hrefused | ⟨hshort | hidle, -⟩ := h
          · exact .inl hrefused
          · exact absurd hpiece (Nat.not_lt.mpr hshort)
          · exact hidle
      exact ⟨hfails.1.symm, hfails.2.symm⟩
    · exact .inr ⟨[], by rw [drain, if_neg hlong], Nat.not_lt.mp hlong, h, rfl⟩
  | cons piece pieces ih =>
    have hne' : pieces ++ rest ≠ [] := fun hnil => hne (List.append_eq_nil_iff.mp hnil).2
    have hnext : ∃ next more, pieces ++ rest = next :: more := List.exists_cons_of_ne_nil hne'
    rw [List.cons_append, List.cons_append, drain_cons (by simp), outcome_cons hne']
    have hsettled : (R.read piece).isOk = false ∨ R.Settled (pieces ++ rest) := by
      obtain ⟨next, more, hmore⟩ := hnext
      rw [List.cons_append, hmore] at h
      rw [hmore]
      exact h.imp_right And.right
    cases hread : R.read piece with
    | error e => exact .inl ⟨[], e, rfl, rfl, rfl⟩
    | ok out =>
      rw [hread] at hsettled
      obtain hfalse | hsettled := hsettled
      · cases hfalse
      · obtain ⟨more, e, hdrain, hsame⟩ | ⟨more, hdrain, hcap, hrest, hout⟩ := ih hsettled
        · refine .inl ⟨out ++ more, e, ?_, ?_⟩
          · show Yield.after out (R.drain (pieces ++ [last])) = _
            rw [hdrain]
            rfl
          · have hfirst : Yield.Same (Yield.after out (more, .error e))
                ((R.outcome (pieces ++ rest)).after out) := same_after_iff.mpr hsame
            exact hfirst
        · refine .inr ⟨out ++ more, ?_, hcap, hrest, ?_⟩
          · show Yield.after out (R.drain (pieces ++ [last])) = _
            rw [hdrain]
            rfl
          · show (R.outcome (pieces ++ rest)).after out = _
            rw [hout, after_after]

theorem run_same {buf : List α} (hbuf : R.sep ∉ buf) {chunks : List (List α)} (hne : chunks ≠ [])
    (h : R.Settled ((buf ++ chunks.flatten).splitOn R.sep)) :
    (R.run buf chunks).Same (R.outcome ((buf ++ chunks.flatten).splitOn R.sep)) := by
  induction chunks generalizing buf with
  | nil => exact absurd rfl hne
  | cons chunk chunks ih =>
    rw [List.flatten_cons, ← List.append_assoc, splitOn_append] at h ⊢
    have hlong : R.cap < (lastPiece R.sep (buf ++ chunk)).length → ∃ piece more,
        (lastPiece R.sep (buf ++ chunk) ++ chunks.flatten).splitOn R.sep = piece :: more ∧
          R.cap < piece.length := by
      intro hlong
      rw [splitOn_append_of_not_mem (not_mem_lastPiece _ _)]
      obtain ⟨first, more, hmore⟩ :=
        List.exists_cons_of_ne_nil (List.splitOn_ne_nil R.sep chunks.flatten)
      refine ⟨lastPiece R.sep (buf ++ chunk) ++ first, more, by rw [hmore]; rfl, ?_⟩
      rw [List.length_append]
      omega
    have hstep := drain_outcome (List.splitOn_ne_nil _ _) hlong h
    rw [dropLast_append_lastPiece] at hstep
    obtain ⟨out, e, hdrain, hsame⟩ | ⟨out, hdrain, hcap, hrest, hout⟩ := hstep
    · rw [run, hdrain]
      exact hsame
    · rw [run, hdrain, hout]
      refine same_after_iff.mpr ?_
      by_cases hchunks : chunks = []
      · subst hchunks
        rw [List.flatten_nil, List.append_nil, List.splitOn_eq_singleton (not_mem_lastPiece _ _),
          outcome, if_neg (Nat.not_lt.mpr hcap)]
        exact ⟨rfl, rfl⟩
      · exact ih (not_mem_lastPiece _ _) hchunks hrest

/-! ### A cut that makes a difference -/

omit [DecidableEq α] in
theorem settled_cons {piece next : List α} {more : List (List α)} :
    R.Settled (piece :: next :: more) ↔ (R.read piece).isOk = false ∨
      (piece.length ≤ R.cap ∨ R.Idle (piece :: next :: more)) ∧ R.Settled (next :: more) := Iff.rfl

omit [DecidableEq α] in
theorem exists_of_not_settled (h : ¬ R.Settled pieces) :
    ∃ front piece rest out, pieces = front ++ piece :: rest ∧ rest ≠ [] ∧ R.cap < piece.length ∧
      ¬ (R.outcome (piece :: rest)).Fails ∧
      (∀ more, more ≠ [] → R.outcome (front ++ more) = (R.outcome more).after out) ∧
      ∀ more, more ≠ [] → R.drain (front ++ more) = (R.drain more).after out := by
  induction pieces with
  | nil => exact absurd trivial h
  | cons piece pieces ih =>
    cases pieces with
    | nil => exact absurd trivial h
    | cons next more =>
      rw [settled_cons, not_or, not_and_or, not_or] at h
      obtain ⟨hread, ⟨hlong, hidle⟩ | hrest⟩ := h
      · rw [idle_iff] at hidle
        exact ⟨[], piece, next :: more, [], rfl, List.cons_ne_nil next more,
          Nat.not_le.mp hlong, hidle, fun _ _ => rfl, fun _ _ => rfl⟩
      · obtain ⟨front, long, rest, out, heq, hne, hlong, hfails, hout, hdrain⟩ := ih hrest
        cases hok : R.read piece with
        | error e => exact absurd (by rw [hok]; rfl) hread
        | ok first =>
          refine ⟨piece :: front, long, rest, first ++ out, by rw [heq]; rfl, hne, hlong,
            hfails, fun more hmore => ?_, fun more hmore => ?_⟩
          · rw [List.cons_append, outcome_cons (by simp [hmore]), hok, ← after_after,
              ← hout more hmore]
          · rw [List.cons_append, drain_cons (by simp [hmore]), hok, ← after_after,
              ← hdrain more hmore]

omit [DecidableEq α] in
theorem not_settled_of_read (hne : pieces ≠ [])
    (hlong : R.cap < piece.length) {b : β} {out : List β} (hread : R.read piece = .ok (b :: out)) :
    ¬ R.Settled (piece :: pieces) := by
  obtain ⟨next, more, rfl⟩ := List.exists_cons_of_ne_nil hne
  have hidle : R.Idle (piece :: next :: more) ↔
      ((R.read piece).isOk = false ∨ (R.read piece = .ok [] ∧ R.Idle (next :: more))) := Iff.rfl
  rw [settled_cons, hidle, hread]
  simp [Except.isOk, Except.toBool, Nat.not_le.mpr hlong]

theorem exists_cut {sep : α} {front rest : List (List α)} {p q s : List α}
    (h : s.splitOn sep = front ++ (p ++ q) :: rest) :
    ∃ a b, s = a ++ b ∧ a.splitOn sep = front ++ [p] := by
  induction front generalizing s with
  | nil =>
    by_cases hs : sep ∈ s
    · obtain ⟨a, b, rfl, ha⟩ := List.eq_append_cons_of_mem hs
      rw [List.splitOn_append_cons_self_of_not_mem ha] at h
      obtain rfl := (List.cons.inj h).1
      refine ⟨p, q ++ sep :: b, by rw [List.append_assoc], ?_⟩
      exact List.splitOn_eq_singleton fun hp => ha (List.mem_append_left q hp)
    · rw [List.splitOn_eq_singleton hs] at h
      obtain rfl := (List.cons.inj h).1
      exact ⟨p, q, rfl, List.splitOn_eq_singleton fun hp => hs (List.mem_append_left q hp)⟩
  | cons first front ih =>
    by_cases hs : sep ∈ s
    · obtain ⟨a, b, rfl, ha⟩ := List.eq_append_cons_of_mem hs
      rw [List.splitOn_append_cons_self_of_not_mem ha, List.cons_append] at h
      obtain ⟨rfl, hrest⟩ := List.cons.inj h
      obtain ⟨c, d, rfl, hc⟩ := ih hrest
      refine ⟨a ++ sep :: c, d, by simp, ?_⟩
      rw [List.splitOn_append_cons_self_of_not_mem ha, hc]
      rfl
    · rw [List.splitOn_eq_singleton hs] at h
      have hnil := (List.cons.inj h).2
      simp at hnil

/-- A text reads the same however it is cut exactly when it is settled. -/
theorem sameForAll_iff {s : List α} : R.SameForAll s ↔ R.Settled (s.splitOn R.sep) := by
  constructor
  · intro hsame
    by_contra h
    obtain ⟨front, piece, rest, out, hpieces, hne, hlong, hfails, hout, hdrain⟩ :=
      exists_of_not_settled h
    -- the first chunk ends where the piece is over the cap
    rw [← List.take_append_drop (R.cap + 1) piece] at hpieces
    obtain ⟨a, b, rfl, ha⟩ := exists_cut hpieces
    have hcut := hsame [a, b] (by simp)
    have hover : R.cap < (piece.take (R.cap + 1)).length := by
      rw [List.length_take]
      omega
    rw [hpieces, List.take_append_drop, hout _ (List.cons_ne_nil piece rest), run,
      List.nil_append, ha, hdrain _ (List.cons_ne_nil _ _), drain, if_pos hover] at hcut
    exact hfails ⟨(List.append_cancel_left (hcut.1)).symm, hcut.2.symm⟩
  · rintro h chunks rfl
    by_cases hne : chunks = []
    · subst hne
      exact ⟨rfl, rfl⟩
    · exact run_same (List.not_mem_nil) hne (by rwa [List.nil_append])

end PieceReader

end Windrose.Foundation

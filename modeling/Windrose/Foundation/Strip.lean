/-
  Foundation/Strip.lean --- texts without their ends, and texts that arrive in parts.

  `strip p` drops the characters with `p` from both ends of a text.  What was
  stripped of fewer characters before, or padded with such characters behind, has the
  same strip; a text whose ends do not have `p` is its own.

  A text that is split at a separator while it arrives is split as a whole: the last
  piece so far is put in front of what comes next.
-/
import Mathlib.Data.List.DropRight

set_option autoImplicit false

namespace Windrose.Foundation

variable {α : Type}

/-- Without the characters with `p` at both ends. -/
def strip (p : α → Bool) (s : List α) : List α := (s.dropWhile p).rdropWhile p

variable {s : List α} {p : α → Bool} {c : α}

theorem rdropWhile_append_of_all {t : List α} (ht : ∀ c ∈ t, p c = true) :
    (s ++ t).rdropWhile p = s.rdropWhile p := by
  induction t using List.reverseRecOn with
  | nil => rw [List.append_nil]
  | append_singleton t c ih =>
    rw [← List.append_assoc, List.rdropWhile_concat_pos p (s ++ t) c (ht c (by simp))]
    exact ih fun d hd => ht d (List.mem_append_left _ hd)

theorem strip_append_of_all {t : List α} (ht : ∀ c ∈ t, p c = true) :
    strip p (s ++ t) = strip p s := by
  unfold strip
  induction s with
  | nil =>
    rw [List.nil_append, List.dropWhile_eq_nil_iff.mpr ht]
    rfl
  | cons c s ih =>
    rw [List.cons_append]
    cases hc : p c with
    | true => rw [List.dropWhile_cons_of_pos hc, List.dropWhile_cons_of_pos hc, ih]
    | false =>
      have hneg : ¬ p c = true := by rw [hc]; exact Bool.false_ne_true
      rw [List.dropWhile_cons_of_neg hneg, List.dropWhile_cons_of_neg hneg, ← List.cons_append,
        rdropWhile_append_of_all ht]

theorem eq_rdropWhile_append (p : α → Bool) (s : List α) :
    ∃ t, s = s.rdropWhile p ++ t ∧ ∀ c ∈ t, p c = true := by
  induction s using List.reverseRecOn with
  | nil => exact ⟨[], rfl, by simp⟩
  | append_singleton s c ih =>
    cases hc : p c with
    | true =>
      obtain ⟨t, ht, hall⟩ := ih
      refine ⟨t ++ [c], ?_, fun d hd => ?_⟩
      · rw [List.rdropWhile_concat_pos p s c hc, ← List.append_assoc, ← ht]
      · obtain hd | hd := List.mem_append.mp hd
        · exact hall d hd
        · rwa [List.mem_singleton.mp hd]
    | false =>
      refine ⟨[], ?_, by simp⟩
      rw [List.rdropWhile_concat_neg p s c (by rw [hc]; exact Bool.false_ne_true), List.append_nil]

theorem strip_rdropWhile {q : α → Bool} (hq : ∀ c, q c = true → p c = true) (s : List α) :
    strip p (s.rdropWhile q) = strip p s := by
  obtain ⟨t, ht, hall⟩ := eq_rdropWhile_append q s
  conv_rhs => rw [ht]
  exact (strip_append_of_all fun c hc => hq c (hall c hc)).symm

theorem rdropWhile_of_getLast (h : ∀ c ∈ s.getLast?, p c = false) : s.rdropWhile p = s := by
  induction s using List.reverseRecOn with
  | nil => rfl
  | append_singleton s c _ =>
    rw [List.getLast?_concat] at h
    exact List.rdropWhile_concat_neg p s c (by rw [h c rfl]; exact Bool.false_ne_true)

theorem rdropWhile_append_cons (hc : p c = false)
    (s t : List α) : (s ++ c :: t).rdropWhile p = s ++ c :: t.rdropWhile p := by
  induction t using List.reverseRecOn with
  | nil =>
    have hneg : ¬ p c = true := by rw [hc]; exact Bool.false_ne_true
    rw [List.rdropWhile_concat_neg p s c hneg]
    rfl
  | append_singleton t x ih =>
    rw [← List.cons_append, ← List.append_assoc]
    cases hx : p x with
    | true => rw [List.rdropWhile_concat_pos p _ x hx, List.rdropWhile_concat_pos p _ x hx, ih]
    | false =>
      have hneg : ¬ p x = true := by rw [hx]; exact Bool.false_ne_true
      rw [List.rdropWhile_concat_neg p _ x hneg, List.rdropWhile_concat_neg p _ x hneg]
      simp

theorem strip_eq_self (hhead : ∀ c ∈ s.head?, p c = false)
    (hlast : ∀ c ∈ s.getLast?, p c = false) : strip p s = s := by
  unfold strip
  have hdrop : s.dropWhile p = s := by
    cases s with
    | nil => rfl
    | cons c s => exact List.dropWhile_cons_of_neg (by rw [hhead c rfl]; exact Bool.false_ne_true)
  rw [hdrop, rdropWhile_of_getLast hlast]

theorem strip_sublist (p : α → Bool) (s : List α) : (strip p s).Sublist s :=
  (List.rdropWhile_prefix p _).sublist.trans (List.dropWhile_sublist p)

theorem not_of_head_strip (hc : c ∈ (strip p s).head?) : p c = false := by
  have hprefix : strip p s <+: s.dropWhile p := List.rdropWhile_prefix p _
  obtain ⟨t, ht⟩ := hprefix
  cases hstrip : strip p s with
  | nil =>
    rw [hstrip] at hc
    cases hc
  | cons e rest =>
    rw [hstrip] at hc ht
    obtain rfl : e = c := Option.some.inj hc
    have hhead := List.head?_dropWhile_not p s
    rw [← ht] at hhead
    simpa using hhead

theorem not_of_getLast_strip (hc : c ∈ (strip p s).getLast?) : p c = false := by
  unfold strip at hc
  have hne : (s.dropWhile p).rdropWhile p ≠ [] := by
    intro h
    rw [h] at hc
    cases hc
  have hlast := List.rdropWhile_last_not p (s.dropWhile p) hne
  rw [List.getLast?_eq_getLast_of_ne_nil hne] at hc
  obtain rfl := Option.some.inj hc
  simpa using hlast

theorem strip_strip (p : α → Bool) (s : List α) : strip p (strip p s) = strip p s :=
  strip_eq_self (fun _ hc => not_of_head_strip hc) fun _ hc => not_of_getLast_strip hc

/-! ## Joining and splitting -/

theorem intercalate_concat (sep : α) {init : List (List α)} (last : List α) (hinit : init ≠ []) :
    [sep].intercalate (init ++ [last]) = [sep].intercalate init ++ sep :: last := by
  induction init with
  | nil => exact absurd rfl hinit
  | cons e init ih =>
    cases init with
    | nil => simp [List.intercalate_cons_cons, List.intercalate_singleton]
    | cons e' init =>
      have ih := ih (List.cons_ne_nil e' init)
      rw [List.cons_append, List.cons_append, List.intercalate_cons_cons,
        List.intercalate_cons_cons, ← List.cons_append, ih]
      simp [List.append_assoc]

theorem not_mem_intercalate {sep : α} {texts : List (List α)} (hsep : c ≠ sep)
    (h : ∀ text ∈ texts, c ∉ text) : c ∉ [sep].intercalate texts := by
  induction texts with
  | nil => simp [List.intercalate_nil]
  | cons text texts ih =>
    have htext := h text List.mem_cons_self
    have ih := ih fun t ht => h t (List.mem_cons_of_mem _ ht)
    cases texts with
    | nil =>
      rw [List.intercalate_singleton]
      exact htext
    | cons text' texts =>
      rw [List.intercalate_cons_cons]
      simp [htext, hsep, ih]

variable [DecidableEq α]

/-- The piece that may still grow. -/
def lastPiece (c : α) (s : List α) : List α := (s.splitOn c).getLastD []

theorem exists_lastPiece (hc : c ∈ s) :
    ∃ a, s = a ++ c :: lastPiece c s ∧ s.splitOn c = a.splitOn c ++ [lastPiece c s] ∧
      c ∉ lastPiece c s := by
  obtain ⟨b, a, hs, hb⟩ := List.eq_append_cons_of_mem (List.mem_reverse.mpr hc)
  have hs : s = a.reverse ++ c :: b.reverse := by
    rw [← List.reverse_reverse s, hs]
    simp
  have hsplit : s.splitOn c = a.reverse.splitOn c ++ [b.reverse] := by
    have hb : c ∉ b.reverse := by rwa [List.mem_reverse]
    rw [hs, List.splitOn_append_cons_self, List.splitOn_eq_singleton hb]
  have hlast : lastPiece c s = b.reverse := by rw [lastPiece, hsplit, List.getLastD_concat]
  rw [hlast]
  exact ⟨a.reverse, hs, hsplit, by rwa [List.mem_reverse]⟩

theorem lastPiece_of_not_mem (hc : c ∉ s) : lastPiece c s = s := by
  rw [lastPiece, List.splitOn_eq_singleton hc]
  rfl

theorem not_mem_lastPiece (c : α) (s : List α) : c ∉ lastPiece c s := by
  by_cases hc : c ∈ s
  · obtain ⟨a, -, -, hlast⟩ := exists_lastPiece hc
    exact hlast
  · rwa [lastPiece_of_not_mem hc]

theorem mem_of_mem_lastPiece {x : α} (h : x ∈ lastPiece c s) : x ∈ s := by
  by_cases hc : c ∈ s
  · obtain ⟨a, hs, -, -⟩ := exists_lastPiece hc
    rw [hs]
    exact List.mem_append_right a (List.mem_cons_of_mem c h)
  · rwa [lastPiece_of_not_mem hc] at h

theorem splitOn_append_of_not_mem (hs : c ∉ s) (t : List α) :
    (s ++ t).splitOn c = (t.splitOn c).modifyHead (s ++ ·) := by
  induction s with
  | nil =>
    cases h : t.splitOn c with
    | nil => exact absurd h (List.splitOn_ne_nil c t)
    | cons p pieces => simp [h]
  | cons x s ih =>
    have hx : (x == c) = false := by
      rw [beq_eq_false_iff_ne]
      rintro rfl
      exact hs List.mem_cons_self
    have ih := ih fun h => hs (List.mem_cons_of_mem _ h)
    rw [List.cons_append, List.splitOn_cons_eq_if_modifyHead, hx, ih, List.modifyHead_modifyHead]
    rfl

theorem dropLast_append_lastPiece (c : α) (s : List α) :
    (s.splitOn c).dropLast ++ [lastPiece c s] = s.splitOn c := by
  by_cases hc : c ∈ s
  · obtain ⟨a, -, hsplit, -⟩ := exists_lastPiece hc
    rw [hsplit, List.dropLast_concat]
  · rw [lastPiece_of_not_mem hc, List.splitOn_eq_singleton hc]
    rfl

theorem splitOn_append (c : α) (s t : List α) :
    (s ++ t).splitOn c = (s.splitOn c).dropLast ++ (lastPiece c s ++ t).splitOn c := by
  by_cases hc : c ∈ s
  · obtain ⟨a, hs, hsplit, -⟩ := exists_lastPiece hc
    rw [hsplit, List.dropLast_concat]
    conv_lhs => rw [hs, List.append_assoc, List.cons_append]
    exact List.splitOn_append_cons_self a (lastPiece c s ++ t)
  · rw [lastPiece_of_not_mem hc, List.splitOn_eq_singleton hc]
    rfl

theorem lastPiece_append (c : α) (s t : List α) :
    lastPiece c (s ++ t) = lastPiece c (lastPiece c s ++ t) := by
  obtain ⟨pieces, hpieces⟩ : ∃ pieces, (lastPiece c s ++ t).splitOn c =
      pieces ++ [lastPiece c (lastPiece c s ++ t)] := ⟨_, (dropLast_append_lastPiece c _).symm⟩
  have hsplit := splitOn_append c s t
  rw [hpieces, ← List.append_assoc] at hsplit
  conv_lhs => rw [lastPiece, hsplit, List.getLastD_concat]

omit [DecidableEq α] in
theorem exists_of_flatten_eq_map {β : Type} {f : α → β} {parts : List (List β)}
    (h : parts.flatten = s.map f) :
    ∃ chunks : List (List α), chunks.flatten = s ∧ chunks.map (·.map f) = parts := by
  induction parts generalizing s with
  | nil => exact ⟨[], (List.map_eq_nil_iff.mp h.symm).symm, rfl⟩
  | cons part parts ih =>
    obtain ⟨a, b, rfl, ha, hb⟩ := List.map_eq_append_iff.mp h.symm
    obtain ⟨chunks, rfl, hparts⟩ := ih hb.symm
    exact ⟨a :: chunks, rfl, by rw [List.map_cons, ha, hparts]⟩

end Windrose.Foundation

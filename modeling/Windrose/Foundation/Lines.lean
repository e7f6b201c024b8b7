/-
  Foundation/Lines.lean --- cutting a text into lines, with a limit on their length.

  A line is only seen when its end is in the buffer with it, so a line as long as the
  buffer is not read, and nothing of the text is (`scanLines_join`).
-/
import Windrose.Foundation.Bytes

set_option autoImplicit false

namespace Windrose.Foundation

/-- `dropCR` of `bufio`. -/
def dropCR (line : Bytes) : Bytes := if line.getLast? = some 13 then line.dropLast else line

/-- The lines of what is in the buffer already and of the rest; none when the buffer is
full and holds no end of a line. -/
def scanFrom (limit : Nat) : Bytes → Bytes → Option (List Bytes)
  | buf, [] => if limit ≤ buf.length then none else if buf = [] then some [] else some [dropCR buf]
  | buf, c :: t =>
    if limit ≤ buf.length then none
    else if c = 10 then (scanFrom limit [] t).map (dropCR buf :: ·)
    else scanFrom limit (buf ++ [c]) t

/-- `bufio.Scanner` with `ScanLines` and a buffer of at most `limit` bytes. -/
def scanLines (limit : Nat) (t : Bytes) : Option (List Bytes) := scanFrom limit [] t

/-- Each line with its end. -/
def joinLines (lines : List Bytes) : Bytes := lines.flatMap (· ++ [10])

theorem scanFrom_line (limit : Nat) {line : Bytes} (hline : 10 ∉ line) (buf t : Bytes) :
    scanFrom limit buf (line ++ 10 :: t) =
      if buf.length + line.length < limit then
        (scanFrom limit [] t).map (dropCR (buf ++ line) :: ·)
      else none := by
  induction line generalizing buf with
  | nil =>
    rw [List.nil_append, scanFrom, if_pos rfl, List.append_nil, List.length_nil, Nat.add_zero]
    by_cases h : limit ≤ buf.length
    · rw [if_pos h, if_neg (Nat.not_lt.mpr h)]
    · rw [if_neg h, if_pos (Nat.not_le.mp h)]
  | cons c line ih =>
    obtain ⟨hc, hline⟩ := List.ne_and_not_mem_of_not_mem_cons hline
    rw [List.cons_append, scanFrom, if_neg hc.symm, ih hline, List.append_assoc,
      List.singleton_append, List.length_append, List.length_singleton, List.length_cons,
      Nat.add_assoc, Nat.add_comm 1]
    by_cases h : limit ≤ buf.length
    · rw [if_pos h, if_neg (by omega)]
    · rw [if_neg h]

theorem scanLines_join {limit : Nat} (hlimit : 0 < limit) {lines : List Bytes}
    (hlines : ∀ line ∈ lines, 10 ∉ line ∧ line.getLast? ≠ some 13) :
    scanLines limit (joinLines lines) =
      if ∀ line ∈ lines, line.length < limit then some lines else none := by
  induction lines with
  | nil =>
    rw [if_pos (List.forall_mem_nil _)]
    exact if_neg (Nat.not_le.mpr hlimit)
  | cons line lines ih =>
    rw [List.forall_mem_cons] at hlines
    have hcons : joinLines (line :: lines) = line ++ 10 :: joinLines lines := by simp [joinLines]
    rw [scanLines, hcons, scanFrom_line limit hlines.1.1, List.length_nil, Nat.zero_add,
      List.nil_append, dropCR, if_neg hlines.1.2]
    have hrest : scanFrom limit [] (joinLines lines) = _ := ih hlines.2
    rw [hrest]
    simp only [List.forall_mem_cons]
    by_cases hlt : line.length < limit
    · by_cases hall : ∀ l ∈ lines, l.length < limit
      · rw [if_pos hlt, if_pos hall, if_pos ⟨hlt, hall⟩]
        rfl
      · rw [if_pos hlt, if_neg hall, if_neg (fun h => hall h.2)]
        rfl
    · rw [if_neg hlt, if_neg (fun h => hlt h.1)]

end Windrose.Foundation

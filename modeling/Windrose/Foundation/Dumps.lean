/-
  Foundation/Dumps.lean --- the text of a JSON value as `json.dumps` writes it.

  Python keeps a text in ASCII: a character outside the printable ones is written as its
  UTF-16 units, each behind `\u`, and two texts written alike are one.
-/
import Windrose.Foundation.Json

set_option autoImplicit false

namespace Windrose.Foundation

/-! ## Strings -/

/-- Four hexadecimal digits. -/
def hex4 (n : Nat) : Bytes := hexByte (UInt8.ofNat (n / 256)) ++ hexByte (UInt8.ofNat n)

variable {x y : Bytes}

theorem hex4_inj {n m : Nat} (hn : n < 65536) (hm : m < 65536)
    (h : hex4 n ++ x = hex4 m ++ y) : n = m ∧ x = y := by
  obtain ⟨hnm, hxy⟩ := List.append_inj h rfl
  obtain ⟨hhigh, hlow⟩ := List.append_inj hnm rfl
  have hhigh := congrArg UInt8.toNat (hexByte_injective hhigh)
  have hlow := congrArg UInt8.toNat (hexByte_injective hlow)
  rw [UInt8.toNat_ofNat', UInt8.toNat_ofNat'] at hhigh hlow
  exact ⟨by omega, hxy⟩

/-- One UTF-16 unit of a string. -/
def escapeUnit (n : Nat) : Bytes :=
  match if n < 128 then shortEscapes.lookup (UInt8.ofNat n) else none with
  | some e => [92, e]
  | none => if 32 ≤ n ∧ n < 127 then [UInt8.ofNat n] else 92 :: 117 :: hex4 n

theorem escapeUnit_cases (n : Nat) : (escapeUnit n = [UInt8.ofNat n] ∧ n < 127 ∧ n ≠ 92 ∧ n ≠ 34) ∨
      (∃ e, escapeUnit n = [92, e] ∧ (unescape e).toNat = n ∧ e ≠ 117) ∨
      escapeUnit n = 92 :: 117 :: hex4 n := by
  unfold escapeUnit
  split
  · next e he =>
    split at he
    · next hn =>
      obtain ⟨hback, hne⟩ := unescape_of_lookup he
      refine .inr (.inl ⟨e, rfl, ?_, hne⟩)
      rw [hback, UInt8.toNat_ofNat', Nat.mod_eq_of_lt (by omega)]
    · cases he
  · next he =>
    split
    · next hprint =>
      rw [if_pos (by omega)] at he
      refine .inl ⟨rfl, hprint.2, ?_, ?_⟩ <;> rintro rfl <;> cases he
    · exact .inr (.inr rfl)

theorem escapeUnit_append_inj {n m : Nat} (hn : n < 65536) (hm : m < 65536)
    (h : escapeUnit n ++ x = escapeUnit m ++ y) : n = m ∧ x = y := by
  have hplain : ∀ {n : Nat}, n < 127 → n ≠ 92 → UInt8.ofNat n ≠ 92 := by
    intro n hn hne heq
    have := congrArg UInt8.toNat heq
    rw [UInt8.toNat_ofNat', Nat.mod_eq_of_lt (by omega)] at this
    exact hne this
  obtain ⟨hu, hu127, hu92, -⟩ | ⟨e, hu, hue, he⟩ | hu := escapeUnit_cases n
  · obtain ⟨hw, hw127, -, -⟩ | ⟨e', hw, -, -⟩ | hw := escapeUnit_cases m
    · rw [hu, hw] at h
      obtain ⟨hhead, hxy⟩ := List.cons.inj h
      have := congrArg UInt8.toNat hhead
      rw [UInt8.toNat_ofNat', UInt8.toNat_ofNat'] at this
      exact ⟨by omega, hxy⟩
    · rw [hu, hw] at h
      exact absurd (List.cons.inj h).1 (hplain hu127 hu92)
    · rw [hu, hw] at h
      exact absurd (List.cons.inj h).1 (hplain hu127 hu92)
  · obtain ⟨hw, hw127, hw92, -⟩ | ⟨e', hw, hwe, -⟩ | hw := escapeUnit_cases m
    · rw [hu, hw] at h
      exact absurd (List.cons.inj h).1.symm (hplain hw127 hw92)
    · rw [hu, hw] at h
      obtain ⟨hee, hxy⟩ := List.cons.inj (List.cons.inj h).2
      exact ⟨by rw [← hue, ← hwe, hee], hxy⟩
    · rw [hu, hw] at h
      exact absurd (List.cons.inj (List.cons.inj h).2).1 he
  · obtain ⟨hw, hw127, hw92, -⟩ | ⟨e', hw, -, he'⟩ | hw := escapeUnit_cases m
    · rw [hu, hw] at h
      exact absurd (List.cons.inj h).1.symm (hplain hw127 hw92)
    · rw [hu, hw] at h
      exact absurd (List.cons.inj (List.cons.inj h).2).1.symm he'
    · rw [hu, hw] at h
      exact hex4_inj hn hm (List.cons.inj (List.cons.inj h).2).2

theorem escapeUnit_append_ne (n : Nat) (x y : Bytes) : escapeUnit n ++ x ≠ 34 :: y := by
  intro h
  obtain ⟨hu, hu127, -, hu34⟩ | ⟨e, hu, -, -⟩ | hu := escapeUnit_cases n
  · rw [hu] at h
    have := congrArg UInt8.toNat (List.cons.inj h).1
    rw [UInt8.toNat_ofNat', Nat.mod_eq_of_lt (by omega)] at this
    exact hu34 this
  · rw [hu] at h
    exact absurd (List.cons.inj h).1 (by decide)
  · rw [hu] at h
    exact absurd (List.cons.inj h).1 (by decide)

/-- The UTF-16 units of a character. -/
def utf16 (c : Char) : List Nat :=
  if c.toNat < 0x10000 then [c.toNat]
  else [0xD800 + (c.toNat - 0x10000) / 0x400, 0xDC00 + (c.toNat - 0x10000) % 0x400]

theorem charLt (c : Char) : c.toNat < 0xD800 ∨ 0xDFFF < c.toNat ∧ c.toNat < 0x110000 := c.valid

theorem utf16_lt (c : Char) : ∀ n ∈ utf16 c, n < 65536 := by
  have hc := charLt c
  unfold utf16
  split
  · simpa using ‹_›
  · intro n hn
    simp only [List.mem_cons, List.not_mem_nil, or_false] at hn
    omega

theorem utf16_prefix {c d : Char} {u v : List Nat} (h : utf16 c ++ u = utf16 d ++ v) : c = d := by
  have hc := charLt c
  have hd := charLt d
  have heq : ∀ {n : Nat}, c.toNat = n → d.toNat = n → c = d := fun hcn hdn =>
    Char.ext (UInt32.toNat_inj.mp (hcn.trans hdn.symm))
  unfold utf16 at h
  split at h
  · split at h
    · exact heq (List.cons.inj h).1 rfl
    · have := (List.cons.inj h).1
      omega
  · split at h
    · have := (List.cons.inj h).1
      omega
    · obtain ⟨hhigh, hrest⟩ := List.cons.inj h
      have hlow := (List.cons.inj hrest).1
      exact heq rfl (by omega)

/-- `py_encode_basestring_ascii`. -/
def quoteAscii (s : String) : Bytes := 34 :: ((s.toList.flatMap utf16).flatMap escapeUnit ++ [34])

theorem escapeUnits_append_inj {us vs : List Nat} (hus : ∀ n ∈ us, n < 65536)
    (hvs : ∀ n ∈ vs, n < 65536)
    (h : us.flatMap escapeUnit ++ 34 :: x = vs.flatMap escapeUnit ++ 34 :: y) :
    us = vs ∧ x = y := by
  induction us generalizing vs with
  | nil =>
    cases vs with
    | nil => exact ⟨rfl, (List.cons.inj h).2⟩
    | cons m vs =>
      rw [List.flatMap_cons, List.append_assoc] at h
      exact absurd h.symm (escapeUnit_append_ne m _ _)
  | cons n us ih =>
    cases vs with
    | nil =>
      rw [List.flatMap_cons, List.append_assoc] at h
      exact absurd h (escapeUnit_append_ne n _ _)
    | cons m vs =>
      obtain ⟨hn, hus'⟩ := List.forall_mem_cons.mp hus
      obtain ⟨hm, hvs'⟩ := List.forall_mem_cons.mp hvs
      rw [List.flatMap_cons, List.flatMap_cons, List.append_assoc, List.append_assoc] at h
      obtain ⟨rfl, hrest⟩ := escapeUnit_append_inj hn hm h
      obtain ⟨rfl, hxy⟩ := ih hus' hvs' hrest
      exact ⟨rfl, hxy⟩

theorem utf16s_injective {cs ds : List Char} (h : cs.flatMap utf16 = ds.flatMap utf16) :
    cs = ds := by
  have hne : ∀ c, utf16 c ≠ [] := by
    intro c
    unfold utf16
    split <;> exact List.cons_ne_nil _ _
  induction cs generalizing ds with
  | nil =>
    cases ds with
    | nil => rfl
    | cons d ds => exact absurd (List.append_eq_nil_iff.mp h.symm).1 (hne d)
  | cons c cs ih =>
    cases ds with
    | nil => exact absurd (List.append_eq_nil_iff.mp h).1 (hne c)
    | cons d ds =>
      rw [List.flatMap_cons, List.flatMap_cons] at h
      obtain rfl := utf16_prefix h
      rw [ih (List.append_cancel_left h)]

theorem quoteAscii_append_inj {s t : String}
    (h : quoteAscii s ++ x = quoteAscii t ++ y) : s = t ∧ x = y := by
  have hlt : ∀ s : String, ∀ n ∈ s.toList.flatMap utf16, n < 65536 := by
    intro s n hn
    obtain ⟨c, -, hn⟩ := List.mem_flatMap.mp hn
    exact utf16_lt c n hn
  simp only [quoteAscii, List.cons_append, List.append_assoc, List.nil_append] at h
  obtain ⟨hunits, hxy⟩ := escapeUnits_append_inj (hlt s) (hlt t) (List.cons.inj h).2
  exact ⟨String.toList_inj.mp (utf16s_injective hunits), hxy⟩

/-- How `json.dumps` writes, with a blank behind its separators or none. -/
def pyWriter (blanks : Bool) : Writer where
  quote := quoteAscii
  item := if blanks then [44, 32] else [44]
  key := if blanks then [58, 32] else [58]
  quote_inj := quoteAscii_append_inj
  quote_lead := fun _ => ⟨_, rfl⟩
  item_lead := by cases blanks <;> exact ⟨_, rfl⟩

example : (pyWriter true).write (.obj [("a", .arr [.null, .bool true]), ("b", .str "é\n")]) =
    bytes "\x7b\"a\": [null, true], \"b\": \"\\u00e9\\n\"\x7d" := by
  decide

end Windrose.Foundation

/-
  Foundation/Uuid.lean --- UUIDs and their canonical text.

  A UUID is its sixteen bytes; `String()` writes them in lower-case hexadecimal
  with a dash after bytes 4, 6, 8 and 10.  The text has a fixed length, no byte
  outside `[0-9a-f-]`, and determines the UUID.
-/
import Windrose.Foundation.Bytes

set_option autoImplicit false

namespace Windrose.Foundation

/-- `uuid.UUID`. -/
structure Uuid where
  raw : Bytes
  length_raw : raw.length = 16
  deriving DecidableEq

namespace Uuid

/-- The UUID whose last byte is `n` and whose other bytes are zero. -/
def ofByte (n : UInt8) : Uuid := ⟨List.replicate 15 0 ++ [n], rfl⟩

instance : Inhabited Uuid := ⟨ofByte 0⟩

/-- `String()`. -/
def text (u : Uuid) : Bytes :=
  hexEncode (u.raw.take 4) ++ bytes "-" ++ hexEncode ((u.raw.drop 4).take 2) ++ bytes "-" ++
    hexEncode ((u.raw.drop 6).take 2) ++ bytes "-" ++ hexEncode ((u.raw.drop 8).take 2) ++
    bytes "-" ++ hexEncode (u.raw.drop 10)

theorem length_text (u : Uuid) : u.text.length = 36 := by
  have h := u.length_raw
  simp only [text, List.length_append, hexEncode_length, List.length_take, List.length_drop, h]
  rfl

theorem not_mem_text {c : UInt8} (hhex : isHexDigit c = false) (hdash : c ≠ 45) (u : Uuid) :
    c ∉ u.text := by
  have hd : c ∉ bytes "-" := by
    intro h
    exact hdash (List.mem_singleton.mp h)
  simp only [text, List.mem_append, not_or]
  exact ⟨⟨⟨⟨⟨⟨⟨⟨not_mem_hexEncode hhex, hd⟩, not_mem_hexEncode hhex⟩, hd⟩,
    not_mem_hexEncode hhex⟩, hd⟩, not_mem_hexEncode hhex⟩, hd⟩, not_mem_hexEncode hhex⟩

theorem dash_mem_text (u : Uuid) : (45 : UInt8) ∈ u.text := by
  simp only [text, List.mem_append]
  exact .inl (.inr (List.mem_singleton.mpr rfl))

theorem groups_append (w : Bytes) : w.take 4 ++ ((w.drop 4).take 2 ++ ((w.drop 6).take 2 ++
    ((w.drop 8).take 2 ++ w.drop 10))) = w := by
  rw [show w.drop 10 = (w.drop 8).drop 2 by rw [List.drop_drop], List.take_append_drop,
    show w.drop 8 = (w.drop 6).drop 2 by rw [List.drop_drop], List.take_append_drop,
    show w.drop 6 = (w.drop 4).drop 2 by rw [List.drop_drop], List.take_append_drop,
    List.take_append_drop]

theorem text_injective : Function.Injective text := by
  rintro ⟨u, hu⟩ ⟨v, hv⟩ h
  simp only [text, List.append_assoc] at h
  have hlen : ∀ i j : Nat, (hexEncode ((u.drop i).take j)).length =
      (hexEncode ((v.drop i).take j)).length := by
    intro i j
    rw [hexEncode_length, hexEncode_length, List.length_take, List.length_take,
      List.length_drop, List.length_drop, hu, hv]
  obtain ⟨h0, h⟩ := List.append_inj h (by simpa using hlen 0 4)
  obtain ⟨h4, h⟩ := List.append_inj (List.append_cancel_left h) (hlen 4 2)
  obtain ⟨h6, h⟩ := List.append_inj (List.append_cancel_left h) (hlen 6 2)
  obtain ⟨h8, h⟩ := List.append_inj (List.append_cancel_left h) (hlen 8 2)
  have h10 := hexEncode_injective (List.append_cancel_left h)
  have huv : u = v := by
    rw [← groups_append u, ← groups_append v, hexEncode_injective h0, hexEncode_injective h4,
      hexEncode_injective h6, hexEncode_injective h8, h10]
  subst huv
  rfl

/-- The UUID with a given canonical text. -/
def ofText (b : Bytes) : Option Uuid :=
  if h : (hexDecode (b.filter (· ≠ 45))).length = 16 then
    if text ⟨hexDecode (b.filter (· ≠ 45)), h⟩ = b then
      some ⟨hexDecode (b.filter (· ≠ 45)), h⟩
    else none
  else none

theorem filter_text (u : Uuid) : u.text.filter (· ≠ 45) = hexEncode u.raw := by
  have hkeep : ∀ bs : Bytes, (hexEncode bs).filter (· ≠ 45) = hexEncode bs := by
    intro bs
    rw [List.filter_eq_self]
    intro c hc
    have hhex := isHexDigit_of_mem_hexEncode hc
    apply decide_eq_true
    rintro rfl
    exact Bool.noConfusion hhex
  have hdash : (bytes "-").filter (· ≠ 45) = [] := rfl
  have hjoin : ∀ as bs : Bytes, hexEncode as ++ hexEncode bs = hexEncode (as ++ bs) := by
    intro as bs
    exact List.flatMap_append.symm
  simp only [text, List.filter_append, hkeep, hdash, List.append_nil, hjoin]
  rw [List.append_assoc, List.append_assoc, List.append_assoc, groups_append]

theorem ofText_text (u : Uuid) : ofText u.text = some u := by
  have hraw : hexDecode (u.text.filter (· ≠ 45)) = u.raw := by rw [filter_text, hexDecode_hexEncode]
  unfold ofText
  simp only [hraw, u.length_raw, dif_pos, if_pos]

end Uuid

end Windrose.Foundation

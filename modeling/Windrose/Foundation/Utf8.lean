/-
  Foundation/Utf8.lean --- the UTF-8 bytes of a text.

  A text is encoded character by character, so its order is that of its bytes: comparing
  two texts by code points or by bytes is the same (`bytes_lt_iff`).
-/
import Mathlib.Data.String.Basic
import Windrose.Foundation.Bytes

set_option autoImplicit false

namespace Windrose.Foundation

theorem bytes_eq_flatMap (s : String) : bytes s = s.toList.flatMap String.utf8EncodeChar := by
  have h : ∀ l : List Char, l.utf8Encode.data.toList = l.flatMap String.utf8EncodeChar := by
    intro l
    simp [List.utf8Encode]
  rw [← h, String.utf8Encode_toList]
  rfl

theorem utf8_cases (c : Char) : (c.toNat < 128 ∧ String.utf8EncodeChar c = [UInt8.ofNat c.toNat]) ∨
    (128 ≤ c.toNat ∧ c.toNat < 2048 ∧ String.utf8EncodeChar c =
      [UInt8.ofNat (c.toNat / 64 % 32 + 192), UInt8.ofNat (c.toNat % 64 + 128)]) ∨
    (2048 ≤ c.toNat ∧ c.toNat < 65536 ∧ String.utf8EncodeChar c =
      [UInt8.ofNat (c.toNat / 4096 % 16 + 224), UInt8.ofNat (c.toNat / 64 % 64 + 128),
        UInt8.ofNat (c.toNat % 64 + 128)]) ∨
    (65536 ≤ c.toNat ∧ c.toNat < 1114112 ∧ String.utf8EncodeChar c =
      [UInt8.ofNat (c.toNat / 262144 % 8 + 240), UInt8.ofNat (c.toNat / 4096 % 64 + 128),
        UInt8.ofNat (c.toNat / 64 % 64 + 128), UInt8.ofNat (c.toNat % 64 + 128)]) := by
  have hvalid : c.toNat < 1114112 := by
    obtain h | h := c.valid
    · exact h.trans (by decide)
    · exact h.2
  have hval : c.toNat = c.val.toNat := rfl
  fun_cases String.utf8EncodeChar c with
  | case1 v h => exact .inl ⟨by omega, rfl⟩
  | case2 v h h' => exact .inr (.inl ⟨by omega, by omega, rfl⟩)
  | case3 v h h' h'' => exact .inr (.inr (.inl ⟨by omega, by omega, rfl⟩))
  | case4 v h h' h'' => exact .inr (.inr (.inr ⟨by omega, hvalid, rfl⟩))

theorem utf8_append_lt {c d : Char} (h : c < d) (x y : Bytes) :
    String.utf8EncodeChar c ++ x < String.utf8EncodeChar d ++ y := by
  have hlt : c.toNat < d.toNat := h
  obtain ⟨hc, hc'⟩ | ⟨hc, hcu, hc'⟩ | ⟨hc, hcu, hc'⟩ | ⟨hc, hcu, hc'⟩ := utf8_cases c <;>
    obtain ⟨hd, hd'⟩ | ⟨hd, hdu, hd'⟩ | ⟨hd, hdu, hd'⟩ | ⟨hd, hdu, hd'⟩ := utf8_cases d <;>
    rw [hc', hd'] <;>
    simp only [List.cons_append, List.nil_append, List.cons_lt_cons_iff, UInt8.lt_iff_toNat_lt,
      ← UInt8.toNat_inj, UInt8.toNat_ofNat'] <;>
    try (left; omega)
  -- the same number of bytes: the first group of bits that differs
  · by_cases h₁ : c.toNat / 64 = d.toNat / 64
    · exact .inr ⟨by omega, .inl (by omega)⟩
    · exact .inl (by omega)
  · by_cases h₁ : c.toNat / 4096 = d.toNat / 4096
    · refine .inr ⟨by omega, ?_⟩
      by_cases h₂ : c.toNat / 64 = d.toNat / 64
      · exact .inr ⟨by omega, .inl (by omega)⟩
      · exact .inl (by omega)
    · exact .inl (by omega)
  · by_cases h₁ : c.toNat / 262144 = d.toNat / 262144
    · refine .inr ⟨by omega, ?_⟩
      by_cases h₂ : c.toNat / 4096 = d.toNat / 4096
      · refine .inr ⟨by omega, ?_⟩
        by_cases h₃ : c.toNat / 64 = d.toNat / 64
        · exact .inr ⟨by omega, .inl (by omega)⟩
        · exact .inl (by omega)
      · exact .inl (by omega)
    · exact .inl (by omega)

theorem bytes_lt_of_lt {s t : String} (h : s < t) : bytes s < bytes t := by
  have hlist : ∀ l m : List Char, l < m →
      l.flatMap String.utf8EncodeChar < m.flatMap String.utf8EncodeChar := by
    intro l
    induction l with
    | nil =>
      intro m hm
      cases m with
      | nil => exact absurd hm (List.not_lt_nil _)
      | cons d m =>
        rw [List.flatMap_cons, List.flatMap_nil]
        obtain ⟨b, rest, hb⟩ := List.exists_cons_of_ne_nil (String.utf8EncodeChar_ne_nil (c := d))
        rw [hb, List.cons_append]
        exact List.nil_lt_cons _ _
    | cons c l ih =>
      intro m hm
      cases m with
      | nil => exact absurd hm (List.not_lt_nil _)
      | cons d m =>
        rw [List.flatMap_cons, List.flatMap_cons]
        obtain hcd | ⟨rfl, hlm⟩ := List.cons_lt_cons_iff.mp hm
        · exact utf8_append_lt hcd _ _
        · exact List.append_left_lt (ih m hlm)
  rw [bytes_eq_flatMap, bytes_eq_flatMap]
  exact hlist _ _ h

theorem bytes_lt_iff {s t : String} : bytes s < bytes t ↔ s < t := by
  refine ⟨fun h => ?_, bytes_lt_of_lt⟩
  obtain hlt | heq | hgt := lt_trichotomy s t
  · exact hlt
  · rw [heq] at h
    exact absurd h (List.lt_irrefl _)
  · exact absurd h (List.lt_asymm (bytes_lt_of_lt hgt))

end Windrose.Foundation

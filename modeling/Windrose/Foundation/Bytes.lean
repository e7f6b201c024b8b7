/-
  Foundation/Bytes.lean --- byte strings, hexadecimal and decimal text.

  Go strings are byte sequences and need not be UTF-8, so every text is a `Bytes`.  Here are
  the literals `bytes "..."`, the cancellation rules for a text that is joined with a
  separator byte, and `hex.EncodeToString` and the decimal verb of `fmt`, each injective
  where its users need it.
-/
import Mathlib.Data.List.Basic
import Mathlib.Data.Nat.Digits.Defs

set_option autoImplicit false

namespace Windrose.Foundation

/-- A Go string or byte slice. -/
abbrev Bytes : Type := List UInt8

instance : LawfulBEq Bytes := List.instLawfulBEq

/-- The bytes of a literal. -/
def bytes (s : String) : Bytes := s.toUTF8.data.toList

/-! ## Separators -/

/-- A text joined with a separator splits at the FIRST separator when the left
part has none. -/
theorem append_sep_inj {α : Type} {sep : α} {a b x y : List α}
    (ha : sep ∉ a) (hb : sep ∉ b) (h : a ++ sep :: x = b ++ sep :: y) : a = b ∧ x = y := by
  induction a generalizing b with
  | nil =>
    cases b with
    | nil => exact ⟨rfl, by simpa using h⟩
    | cons c b =>
      simp only [List.nil_append, List.cons_append, List.cons.injEq] at h
      exact absurd (by simp [h.1]) hb
  | cons c a ih =>
    cases b with
    | nil =>
      simp only [List.nil_append, List.cons_append, List.cons.injEq] at h
      exact absurd (by simp [← h.1]) ha
    | cons d b =>
      simp only [List.cons_append, List.cons.injEq] at h
      obtain ⟨hab, hxy⟩ := ih (fun hm => ha (List.mem_cons_of_mem _ hm))
        (fun hm => hb (List.mem_cons_of_mem _ hm)) h.2
      exact ⟨by rw [h.1, hab], hxy⟩

/-- A text joined with a separator splits at the LAST separator when the right
part has none. -/
theorem append_last_sep_inj {α : Type} {sep : α} {a b x y : List α}
    (hx : sep ∉ x) (hy : sep ∉ y) (h : a ++ sep :: x = b ++ sep :: y) : a = b ∧ x = y := by
  have hrev : x.reverse ++ sep :: a.reverse = y.reverse ++ sep :: b.reverse := by
    simpa using congrArg List.reverse h
  obtain ⟨hxy, hab⟩ := append_sep_inj (by simpa using hx) (by simpa using hy) hrev
  exact ⟨List.reverse_injective hab, List.reverse_injective hxy⟩

/-- Texts joined with a separator that none of them has can be told apart again,
when none is empty. -/
theorem intercalate_sep_inj {α : Type} [DecidableEq α] {sep : α} {as bs : List (List α)}
    (has : ∀ a ∈ as, sep ∉ a ∧ a ≠ []) (hbs : ∀ b ∈ bs, sep ∉ b ∧ b ≠ [])
    (h : [sep].intercalate as = [sep].intercalate bs) : as = bs := by
  have hnil : ∀ {as : List (List α)}, (∀ a ∈ as, sep ∉ a ∧ a ≠ []) →
      [sep].intercalate as = [] → as = [] := by
    intro as has hjoin
    cases as with
    | nil => rfl
    | cons a as =>
      have ha := (has a List.mem_cons_self).2
      cases as with
      | nil =>
        rw [List.intercalate_singleton] at hjoin
        exact absurd hjoin ha
      | cons b as =>
        rw [List.intercalate_cons_cons] at hjoin
        simp at hjoin
  by_cases has0 : as = []
  · rw [has0] at h ⊢
    exact (hnil hbs h.symm).symm
  · have hbs0 : bs ≠ [] := by
      rintro rfl
      exact has0 (hnil has h)
    rw [← List.splitOn_intercalate sep (fun a ha => (has a ha).1) has0, h,
      List.splitOn_intercalate sep (fun b hb => (hbs b hb).1) hbs0]

/-! ## Hexadecimal text -/

/-- One lower-case hexadecimal digit. -/
def hexDigit (n : Nat) : UInt8 := if n < 10 then UInt8.ofNat (48 + n) else UInt8.ofNat (87 + n)

/-- The two digits of one byte. -/
def hexByte (b : UInt8) : Bytes := [hexDigit (b.toNat / 16), hexDigit (b.toNat % 16)]

/-- `hex.EncodeToString`. -/
def hexEncode (bs : Bytes) : Bytes := bs.flatMap hexByte

@[simp] theorem hexEncode_nil : hexEncode [] = [] := rfl

@[simp] theorem hexEncode_cons (b : UInt8) (bs : Bytes) :
    hexEncode (b :: bs) = hexByte b ++ hexEncode bs := rfl

theorem hexDigit_injective : ∀ m < 16, ∀ n < 16, hexDigit m = hexDigit n → m = n := by decide

variable {c : UInt8}

theorem hexByte_injective {b : UInt8} (h : hexByte b = hexByte c) : b = c := by
  simp only [hexByte, List.cons.injEq, and_true] at h
  have hb := b.toNat_lt
  have hc := c.toNat_lt
  have hdiv := hexDigit_injective _ (by omega) _ (by omega) h.1
  have hmod := hexDigit_injective _ (by omega) _ (by omega) h.2
  apply UInt8.toNat.inj
  omega

theorem hexEncode_length (bs : Bytes) : (hexEncode bs).length = 2 * bs.length := by
  induction bs with
  | nil => rfl
  | cons b bs ih => simp [hexByte, ih]; omega

theorem hexEncode_injective : Function.Injective hexEncode := by
  intro bs
  induction bs with
  | nil =>
    intro cs h
    cases cs with
    | nil => rfl
    | cons c cs => simp [hexByte] at h
  | cons b bs ih =>
    intro cs h
    cases cs with
    | nil => simp [hexByte] at h
    | cons c cs =>
      obtain ⟨hhead, htail⟩ := List.append_inj (by simpa using h) (by simp [hexByte])
      rw [hexByte_injective hhead, ih htail]

/-- The digits `0-9a-f`. -/
def isHexDigit (c : UInt8) : Bool := (48 ≤ c && c ≤ 57) || (97 ≤ c && c ≤ 102)

theorem isHexDigit_hexDigit : ∀ n < 16, isHexDigit (hexDigit n) = true := by decide

theorem isHexDigit_of_mem_hexEncode {bs : Bytes} (h : c ∈ hexEncode bs) : isHexDigit c = true := by
  obtain ⟨b, -, hc⟩ := List.mem_flatMap.mp h
  have hb := b.toNat_lt
  simp only [hexByte, List.mem_cons, List.not_mem_nil, or_false] at hc
  rcases hc with rfl | rfl
  · exact isHexDigit_hexDigit _ (by omega)
  · exact isHexDigit_hexDigit _ (by omega)

theorem not_mem_hexEncode {bs : Bytes} (hc : isHexDigit c = false) : c ∉ hexEncode bs := by
  intro h
  rw [isHexDigit_of_mem_hexEncode h] at hc
  exact Bool.noConfusion hc

/-- The value of a hexadecimal digit. -/
def hexVal (c : UInt8) : Nat := if c ≤ 57 then c.toNat - 48 else c.toNat - 87

theorem hexVal_hexDigit : ∀ n < 16, hexVal (hexDigit n) = n := by decide

/-- `hex.DecodeString` of a text of digits. -/
def hexDecode : Bytes → Bytes
  | c :: d :: s => UInt8.ofNat (16 * hexVal c + hexVal d) :: hexDecode s
  | _ => []

theorem hexDecode_hexEncode (bs : Bytes) : hexDecode (hexEncode bs) = bs := by
  induction bs with
  | nil => rfl
  | cons b bs ih =>
    have hb := b.toNat_lt
    have hval : 16 * (b.toNat / 16) + b.toNat % 16 = b.toNat := by omega
    rw [hexEncode_cons, hexByte, List.cons_append, List.singleton_append, hexDecode,
      hexVal_hexDigit _ (by omega), hexVal_hexDigit _ (by omega), hval, ih,
      UInt8.ofNat_toNat]

/-! ## Decimal text -/

/-- The decimal digit of a number below ten. -/
def digit (n : Nat) : UInt8 := UInt8.ofNat (48 + n)

/-- The digits `0-9`. -/
def isDigit (c : UInt8) : Bool := 48 ≤ c && c ≤ 57

/-- `%d` of a natural number. -/
def itoa (n : Nat) : Bytes := if n = 0 then [digit 0] else (Nat.digits 10 n).reverse.map digit

/-- The number a digit string denotes. -/
def decVal (bs : Bytes) : Nat := bs.foldl (fun acc c => 10 * acc + (c.toNat - 48)) 0

theorem toNat_digit : ∀ n < 10, (digit n).toNat = 48 + n := by decide

theorem isDigit_digit : ∀ n < 10, isDigit (digit n) = true := by decide

theorem decVal_append_singleton (bs : Bytes) (c : UInt8) :
    decVal (bs ++ [c]) = 10 * decVal bs + (c.toNat - 48) := by
  simp [decVal]

theorem decVal_map_digit {l : List Nat} (h : ∀ d ∈ l, d < 10) :
    decVal (l.reverse.map digit) = Nat.ofDigits 10 l := by
  induction l with
  | nil => rfl
  | cons d l ih =>
    have hd : d < 10 := h d (by simp)
    rw [List.reverse_cons, List.map_append, List.map_singleton,
      decVal_append_singleton, ih (fun e he => h e (by simp [he])),
      toNat_digit d hd, Nat.ofDigits_cons]
    omega

@[simp] theorem decVal_itoa (n : Nat) : decVal (itoa n) = n := by
  unfold itoa
  split
  · rename_i hn
    subst hn
    rfl
  · rw [decVal_map_digit fun d hd => Nat.digits_lt_base (by omega) hd,
      Nat.ofDigits_digits]

theorem itoa_injective : Function.Injective itoa := Function.LeftInverse.injective decVal_itoa

theorem isDigit_of_mem_itoa {n : Nat} (h : c ∈ itoa n) : isDigit c = true := by
  unfold itoa at h
  split at h
  · simp only [List.mem_singleton] at h
    subst h
    rfl
  · simp only [List.mem_map, List.mem_reverse] at h
    obtain ⟨d, hd, rfl⟩ := h
    exact isDigit_digit d (Nat.digits_lt_base (by omega) hd)

theorem itoa_ne_nil (n : Nat) : itoa n ≠ [] := by
  unfold itoa
  split
  · simp
  · rename_i hn
    simp [Nat.digits_eq_nil_iff_eq_zero, hn]

end Windrose.Foundation

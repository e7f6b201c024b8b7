/-
  Foundation/Base64.lean --- bytes as letters of six bits.

  Three bytes are four letters, and a rest of one or two bytes is two or three.  What is
  encoded is read back (`decode_encode`), with any alphabet whose letters have values.
-/
import Windrose.Foundation.Bytes

set_option autoImplicit false

namespace Windrose.Foundation

/-- Letters for the numbers below 64. -/
structure Alphabet where
  letter : Nat → UInt8
  value : UInt8 → Option Nat
  value_letter : ∀ n < 64, value (letter n) = some n

namespace Alphabet

/-- Capital letters, small letters, digits and two more. -/
def letterOf (c₆₂ c₆₃ : UInt8) (n : Nat) : UInt8 :=
  if n < 26 then UInt8.ofNat (n + 65)
  else if n < 52 then UInt8.ofNat (n + 71)
  else if n < 62 then UInt8.ofNat (n - 4)
  else if n = 62 then c₆₂ else c₆₃

def valueOf (c₆₂ c₆₃ c : UInt8) : Option Nat :=
  if 65 ≤ c ∧ c ≤ 90 then some (c.toNat - 65)
  else if 97 ≤ c ∧ c ≤ 122 then some (c.toNat - 71)
  else if isDigit c then some (c.toNat + 4)
  else if c = c₆₂ then some 62
  else if c = c₆₃ then some 63
  else none

/-- `base64.StdEncoding`: `+` and `/`. -/
def std : Alphabet := ⟨letterOf 43 47, valueOf 43 47, by decide⟩

/-- `base64.URLEncoding`: `-` and `_`. -/
def url : Alphabet := ⟨letterOf 45 95, valueOf 45 95, by decide⟩

variable (a : Alphabet)

/-- Without padding. -/
def encode : Bytes → Bytes
  | b₀ :: b₁ :: b₂ :: r =>
    a.letter (b₀.toNat / 4) :: a.letter (b₀.toNat % 4 * 16 + b₁.toNat / 16) ::
      a.letter (b₁.toNat % 16 * 4 + b₂.toNat / 64) :: a.letter (b₂.toNat % 64) :: encode r
  | [b₀, b₁] =>
    [a.letter (b₀.toNat / 4), a.letter (b₀.toNat % 4 * 16 + b₁.toNat / 16),
      a.letter (b₁.toNat % 16 * 4)]
  | [b₀] => [a.letter (b₀.toNat / 4), a.letter (b₀.toNat % 4 * 16)]
  | [] => []

/-- Padded to a multiple of four letters. -/
def encodePadded (bs : Bytes) : Bytes := a.encode bs ++ List.replicate ((3 - bs.length % 3) % 3) 61

/-- The bits of a last letter that fill no byte are not looked at. -/
def decode : Bytes → Option Bytes
  | c₀ :: c₁ :: c₂ :: c₃ :: r => do
      let n₀ ← a.value c₀
      let n₁ ← a.value c₁
      let n₂ ← a.value c₂
      let n₃ ← a.value c₃
      let bs ← decode r
      return UInt8.ofNat (n₀ * 4 + n₁ / 16) :: UInt8.ofNat (n₁ % 16 * 16 + n₂ / 4) ::
        UInt8.ofNat (n₂ % 4 * 64 + n₃) :: bs
  | [c₀, c₁, c₂] => do
      let n₀ ← a.value c₀
      let n₁ ← a.value c₁
      let n₂ ← a.value c₂
      return [UInt8.ofNat (n₀ * 4 + n₁ / 16), UInt8.ofNat (n₁ % 16 * 16 + n₂ / 4)]
  | [c₀, c₁] => do
      let n₀ ← a.value c₀
      let n₁ ← a.value c₁
      return [UInt8.ofNat (n₀ * 4 + n₁ / 16)]
  | [_] => none
  | [] => some []

theorem ofNat_eq {b : UInt8} {n : Nat} (h : n = b.toNat) : UInt8.ofNat n = b := by
  rw [h, UInt8.ofNat_toNat]

theorem decode_encode (bs : Bytes) : a.decode (a.encode bs) = some bs := by
  induction bs using encode.induct with
  | case1 b₀ b₁ b₂ r ih =>
    have h₀ := b₀.toNat_lt
    have h₁ := b₁.toNat_lt
    have h₂ := b₂.toNat_lt
    have e₀ : UInt8.ofNat (b₀.toNat / 4 * 4 + (b₀.toNat % 4 * 16 + b₁.toNat / 16) / 16) = b₀ :=
      ofNat_eq (by omega)
    have e₁ : UInt8.ofNat ((b₀.toNat % 4 * 16 + b₁.toNat / 16) % 16 * 16 +
        (b₁.toNat % 16 * 4 + b₂.toNat / 64) / 4) = b₁ := ofNat_eq (by omega)
    have e₂ : UInt8.ofNat ((b₁.toNat % 16 * 4 + b₂.toNat / 64) % 4 * 64 + b₂.toNat % 64) = b₂ :=
      ofNat_eq (by omega)
    simp only [encode, decode, ih]
    rw [a.value_letter _ (by omega), a.value_letter _ (by omega), a.value_letter _ (by omega),
      a.value_letter _ (by omega)]
    simp only [Option.pure_def, Option.bind_eq_bind, Option.bind_some, e₀, e₁, e₂]
  | case2 b₀ b₁ =>
    have h₀ := b₀.toNat_lt
    have h₁ := b₁.toNat_lt
    have e₀ : UInt8.ofNat (b₀.toNat / 4 * 4 + (b₀.toNat % 4 * 16 + b₁.toNat / 16) / 16) = b₀ :=
      ofNat_eq (by omega)
    have e₁ : UInt8.ofNat ((b₀.toNat % 4 * 16 + b₁.toNat / 16) % 16 * 16 +
        (b₁.toNat % 16 * 4) / 4) = b₁ := ofNat_eq (by omega)
    simp only [encode, decode]
    rw [a.value_letter _ (by omega), a.value_letter _ (by omega), a.value_letter _ (by omega)]
    simp only [Option.pure_def, Option.bind_eq_bind, Option.bind_some, e₀, e₁]
  | case3 b₀ =>
    have h₀ := b₀.toNat_lt
    have e₀ : UInt8.ofNat (b₀.toNat / 4 * 4 + b₀.toNat % 4 * 16 / 16) = b₀ := ofNat_eq (by omega)
    simp only [encode, decode]
    rw [a.value_letter _ (by omega), a.value_letter _ (by omega)]
    simp only [Option.pure_def, Option.bind_eq_bind, Option.bind_some, e₀]
  | case4 => rfl

theorem exists_letter_of_mem_encode {bs : Bytes} {c : UInt8} (h : c ∈ a.encode bs) :
    ∃ n < 64, c = a.letter n := by
  induction bs using encode.induct with
  | case1 b₀ b₁ b₂ r ih =>
    have h₀ := b₀.toNat_lt
    have h₁ := b₁.toNat_lt
    have h₂ := b₂.toNat_lt
    simp only [encode, List.mem_cons] at h
    rcases h with rfl | rfl | rfl | rfl | h
    · exact ⟨_, by omega, rfl⟩
    · exact ⟨_, by omega, rfl⟩
    · exact ⟨_, by omega, rfl⟩
    · exact ⟨_, by omega, rfl⟩
    · exact ih h
  | case2 b₀ b₁ =>
    have h₀ := b₀.toNat_lt
    have h₁ := b₁.toNat_lt
    simp only [encode, List.mem_cons, List.not_mem_nil, or_false] at h
    rcases h with rfl | rfl | rfl
    · exact ⟨_, by omega, rfl⟩
    · exact ⟨_, by omega, rfl⟩
    · exact ⟨_, by omega, rfl⟩
  | case3 b₀ =>
    have h₀ := b₀.toNat_lt
    simp only [encode, List.mem_cons, List.not_mem_nil, or_false] at h
    rcases h with rfl | rfl
    · exact ⟨_, by omega, rfl⟩
    · exact ⟨_, by omega, rfl⟩
  | case4 => cases h

end Alphabet

end Windrose.Foundation

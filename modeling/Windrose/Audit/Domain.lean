/-
  Audit/Domain.lean --- the hash functions and the record of the audit chain.

  Source: services/audit-service/internal/domain/domain.go (GenesisHash,
  ChainHash, SHA256Hex) and record.go.

  SHA-256 is a parameter `sum256` of everything below.  The one property a
  result ever asks of it is injectivity; its digest length is not used, since
  the two preimages are told apart by their texts and not by their lengths.

  A record keeps the fields that the chain functions read or write.
-/
import Windrose.Foundation.Digest
import Windrose.Foundation.Time
import Windrose.Foundation.Uuid

set_option autoImplicit false

namespace Windrose.Audit

open Windrose.Foundation

/-- One row of the `audit_events` table. -/
structure Record where
  eventID : Uuid
  tenantID : Uuid
  occurredAt : Time
  payloadDigest : Bytes
  chainDate : Bytes
  chainSeq : Nat
  chainHash : Bytes
  deriving DecidableEq

section Hashes

variable (sum256 : Bytes → Bytes)

def sha256Hex (b : Bytes) : Bytes := hexEncode (sum256 b)

/-- The preimage `GenesisHash` hashes. -/
def genesisPreimage (tenant : Uuid) (date : Bytes) : Bytes := tenant.text ++ bytes "|" ++ date

/-- `GenesisHash`: day one's previous hash of a tenant's chain. -/
def genesisHash (tenant : Uuid) (date : Bytes) : Bytes :=
  sha256Hex sum256 (genesisPreimage tenant date)

/-- The preimage `ChainHash` hashes. -/
def chainPreimage (prev : Bytes) (eventID : Uuid) (payloadDigest : Bytes)
    (occurredAt : Time) : Bytes :=
  prev ++ bytes "|" ++ eventID.text ++ bytes "|" ++ payloadDigest ++ bytes "|" ++
    formatRFC3339Nano occurredAt.utc

/-- `ChainHash`: the per-event chain hash. -/
def chainHash (prev : Bytes) (eventID : Uuid) (payloadDigest : Bytes) (occurredAt : Time) :
    Bytes :=
  sha256Hex sum256 (chainPreimage prev eventID payloadDigest occurredAt)

end Hashes

/-! ## The joined preimage

The payload digest is free text, so the separators inside it cannot be told
from the three that `ChainHash` writes.  The text still parses: the previous
hash ends at the first bar because it is hexadecimal, the event id has a fixed
length, and the time ends the text without a bar of its own. -/

/-- A well-formed previous hash: some hexadecimal text. -/
def IsHexText (h : Bytes) : Prop := ∃ d : Bytes, h = hexEncode d

theorem isHexText_sha256Hex (sum256 : Bytes → Bytes) (b : Bytes) :
    IsHexText (sha256Hex sum256 b) := ⟨_, rfl⟩

theorem IsHexText.not_mem {h : Bytes} (hh : IsHexText h) {c : UInt8}
    (hc : isHexDigit c = false) : c ∉ h := by
  obtain ⟨d, rfl⟩ := hh
  exact not_mem_hexEncode hc

theorem bar_not_mem_formatRFC3339Nano_utc (t : Time) : (124 : UInt8) ∉ formatRFC3339Nano t.utc := by
  have hpad : ∀ w n : Nat, (124 : UInt8) ∉ pad w n := by
    intro w n h
    exact absurd (isDigit_of_mem_pad h) (by decide)
  have hyear : ∀ y : Int, (124 : UInt8) ∉ yearText y := by
    intro y h
    unfold yearText at h
    split at h
    · rcases List.mem_append.mp h with h | h
      · exact absurd h (by decide)
      · exact hpad _ _ h
    · exact hpad _ _ h
  have htrim : ∀ bs : Bytes, (124 : UInt8) ∉ bs → (124 : UInt8) ∉ trimZeros bs := by
    intro bs hbs h
    rw [trimZeros, List.mem_reverse] at h
    exact hbs (List.mem_reverse.mp ((List.dropWhile_sublist _).mem h))
  have hnano : ∀ n : Nat, (124 : UInt8) ∉ nanoText n := by
    intro n h
    unfold nanoText at h
    split at h
    · exact absurd h (by simp)
    · rcases List.mem_append.mp h with h | h
      · exact absurd h (by decide)
      · exact htrim _ (hpad _ _) h
  have hsep : (124 : UInt8) ∉ bytes "-" ∧ (124 : UInt8) ∉ bytes "T" ∧
      (124 : UInt8) ∉ bytes ":" ∧ (124 : UInt8) ∉ bytes "Z" := by decide
  simp only [formatRFC3339Nano, civilText, Time.utc, zoneText, if_true, List.mem_append, not_or]
  simp only [hpad, hyear, hnano, hsep, not_false_eq_true, and_self]

theorem bytes_bar : bytes "|" = [124] := rfl

variable {prev : Bytes}

theorem chainPreimage_inj {prev' : Bytes} {e e' : Uuid} {d d' : Bytes} {t t' : Time}
    (hp : IsHexText prev) (hp' : IsHexText prev')
    (h : chainPreimage prev e d t = chainPreimage prev' e' d' t') :
    prev = prev' ∧ e = e' ∧ d = d' ∧ t.instant = t'.instant := by
  simp only [chainPreimage, bytes_bar, List.append_assoc, List.singleton_append] at h
  obtain ⟨hprev, h⟩ := append_sep_inj (hp.not_mem (by decide)) (hp'.not_mem (by decide)) h
  obtain ⟨hid, h⟩ := List.append_inj h (by rw [e.length_text, e'.length_text])
  obtain ⟨hdigest, htime⟩ := append_last_sep_inj (bar_not_mem_formatRFC3339Nano_utc t)
    (bar_not_mem_formatRFC3339Nano_utc t') (List.cons.inj h).2
  exact ⟨hprev, Uuid.text_injective hid, hdigest, formatRFC3339Nano_utc_inj htime⟩

/-- A genesis preimage is no link preimage: before the first bar one has the
dashes of a UUID, the other only hexadecimal digits. -/
theorem chainPreimage_ne_genesisPreimage (hp : IsHexText prev) (e : Uuid)
    (d : Bytes) (t : Time) (tenant : Uuid) (date : Bytes) :
    chainPreimage prev e d t ≠ genesisPreimage tenant date := by
  intro h
  simp only [chainPreimage, genesisPreimage, bytes_bar, List.append_assoc,
    List.singleton_append] at h
  obtain ⟨hprev, -⟩ := append_sep_inj (hp.not_mem (by decide))
    (tenant.not_mem_text (by decide) (by decide)) h
  exact hp.not_mem (c := 45) (by decide) (hprev ▸ tenant.dash_mem_text)

section Injectivity

variable {sum256 : Bytes → Bytes} (hsum : Function.Injective sum256)
include hsum

theorem sha256Hex_injective : Function.Injective (sha256Hex sum256) := hexEncode_injective.comp hsum

theorem chainHash_inj {prev' : Bytes} {e e' : Uuid} {d d' : Bytes} {t t' : Time}
    (hp : IsHexText prev) (hp' : IsHexText prev')
    (h : chainHash sum256 prev e d t = chainHash sum256 prev' e' d' t') :
    prev = prev' ∧ e = e' ∧ d = d' ∧ t.instant = t'.instant :=
  chainPreimage_inj hp hp' (sha256Hex_injective hsum h)

theorem chainHash_ne_genesisHash (hp : IsHexText prev) (e : Uuid) (d : Bytes)
    (t : Time) (tenant : Uuid) (date : Bytes) :
    chainHash sum256 prev e d t ≠ genesisHash sum256 tenant date := by
  intro h
  exact chainPreimage_ne_genesisPreimage hp e d t tenant date (sha256Hex_injective hsum h)

end Injectivity

/-! ## The digests of a small day -/

/-- SHA-256 on the preimages of a small day: tenant `...01` on 2026-07-08, event
`...02` as first link and again as second, event `...03` as second link. -/
def sampleSum256 : Bytes → Bytes := digestTable [
  (bytes "00000000-0000-0000-0000-000000000001|2026-07-08",
    [76, 143, 145, 82, 65, 98, 231, 48, 200, 17, 85, 159, 221, 111, 229, 9,
     170, 124, 63, 34, 177, 131, 235, 163, 175, 233, 7, 242, 244, 113, 161, 161]),
  (bytes "4c8f91524162e730c811559fdd6fe509aa7c3f22b183eba3afe907f2f471a1a1|00000000-0000-0000-0000-000000000002|a|b|2026-07-08T00:00:00.5Z",
    [253, 92, 24, 101, 50, 163, 199, 227, 108, 15, 33, 95, 151, 54, 11, 189,
     203, 176, 158, 152, 254, 250, 88, 236, 147, 60, 197, 135, 71, 94, 18, 8]),
  (bytes "fd5c186532a3c7e36c0f215f97360bbdcbb09e98fefa58ec933cc587475e1208|00000000-0000-0000-0000-000000000002|a|b|2026-07-08T00:00:00.5Z",
    [47, 185, 84, 255, 84, 157, 168, 4, 20, 82, 178, 193, 122, 164, 102, 120,
     215, 115, 207, 93, 115, 79, 108, 147, 155, 195, 11, 255, 143, 12, 122, 246]),
  (bytes "fd5c186532a3c7e36c0f215f97360bbdcbb09e98fefa58ec933cc587475e1208|00000000-0000-0000-0000-000000000003|a|b|2026-07-08T00:00:00.5Z",
    [232, 42, 160, 179, 75, 140, 25, 222, 162, 209, 153, 148, 175, 125, 154, 184,
     230, 35, 239, 133, 226, 198, 224, 245, 246, 82, 231, 86, 197, 224, 210, 9])]

theorem sampleSum256_injective : Function.Injective sampleSum256 :=
  digestTable_injective (by decide) (by decide)

theorem sampleSum256_ne_nil : ∀ b, sampleSum256 b ≠ [] := digestTable_ne_nil (by decide)

end Windrose.Audit

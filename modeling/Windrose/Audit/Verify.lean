/-
  Audit/Verify.lean --- chain replay and tamper evidence.

  Source: services/audit-service/internal/chain/chain.go (BatchItem,
  VerifyResult, Verify).

  `verify` walks the stored rows in order with the previous hash and the expected sequence
  number, and reports the first row that breaks either.
-/
import Windrose.Foundation.HashChain
import Windrose.Audit.Domain

set_option autoImplicit false

namespace Windrose.Audit

open Windrose.Foundation

/-- `BatchItem`: what the chain hashes of an event. -/
structure BatchItem where
  eventID : Uuid
  payloadDigest : Bytes
  occurredAt : Time
  deriving DecidableEq

/-- The hashed part of a stored row. -/
def Record.item (r : Record) : BatchItem := ⟨r.eventID, r.payloadDigest, r.occurredAt⟩

/-- Two items are the same event content; times are compared as instants. -/
def BatchItem.Same (a b : BatchItem) : Prop :=
  a.eventID = b.eventID ∧ a.payloadDigest = b.payloadDigest ∧
    a.occurredAt.instant = b.occurredAt.instant

/-- The answer of `Verify`. -/
structure VerifyResult where
  valid : Bool
  eventsChecked : Nat
  chainHead : Bytes
  manifestMatch : Bool
  firstMismatch : Option Nat
  isSealed : Bool
  deriving DecidableEq

section Verify

variable (sum256 : Bytes → Bytes)

/-- `ChainHash` on an item: the link function of the chain. -/
def linkHash (prev : Bytes) (it : BatchItem) : Bytes :=
  chainHash sum256 prev it.eventID it.payloadDigest it.occurredAt

/-- The loop of `Verify` over the remaining rows, and what follows the loop. -/
def verifyFrom (sealedHead : Bytes) (prev : Bytes) (expectedSeq checked : Nat) :
    List Record → VerifyResult
  | [] =>
    if sealedHead ≠ [] then
      ⟨prev == sealedHead, checked, prev, prev == sealedHead, none, false⟩
    else ⟨true, checked, prev, false, none, false⟩
  | r :: rows =>
    if r.chainSeq ≠ expectedSeq then
      -- gap or duplicate in the sequence
      ⟨false, checked + 1, prev, false, some r.chainSeq, false⟩
    else if linkHash sum256 prev r.item ≠ r.chainHash then
      ⟨false, checked + 1, prev, false, some r.chainSeq, false⟩
    else verifyFrom sealedHead r.chainHash (expectedSeq + 1) (checked + 1) rows

/-- `Verify`. -/
def verify (rows : List Record) (tenant : Uuid) (date sealedHead : Bytes) : VerifyResult :=
  verifyFrom sum256 sealedHead (genesisHash sum256 tenant date) 1 0 rows

/-- The rows carry the numbers `n, n+1, ...` and the hashes of the chain that
starts at `prev`. -/
def Chained : Bytes → Nat → List Record → Prop
  | _, _, [] => True
  | prev, n, r :: rows =>
    r.chainSeq = n ∧ r.chainHash = linkHash sum256 prev r.item ∧
      Chained r.chainHash (n + 1) rows

theorem verifyFrom_valid_iff (sealedHead : Bytes) :
    ∀ (rows : List Record) (prev : Bytes) (n checked : Nat),
      (verifyFrom sum256 sealedHead prev n checked rows).valid = true ↔
        Chained sum256 prev n rows ∧ (sealedHead ≠ [] →
          HashChain.head (linkHash sum256) prev (rows.map Record.item) = sealedHead) := by
  intro rows
  induction rows with
  | nil =>
    intro prev n checked
    by_cases hs : sealedHead = []
    · simp [verifyFrom, Chained, hs]
    · simp [verifyFrom, Chained, hs]
  | cons r rows ih =>
    intro prev n checked
    rw [verifyFrom]
    split
    · rename_i hseq
      simp [Chained, hseq]
    · rename_i hseq
      split
      · rename_i hhash
        simp [Chained, Ne.symm hhash]
      · rename_i hhash
        have hseq' : r.chainSeq = n := not_not.mp hseq
        have hhash' : linkHash sum256 prev r.item = r.chainHash := not_not.mp hhash
        rw [ih r.chainHash (n + 1) (checked + 1), Chained, List.map_cons,
          HashChain.head_cons, hhash']
        simp [hseq']

theorem verify_valid_iff (rows : List Record) (tenant : Uuid) (date sealedHead : Bytes) :
    (verify sum256 rows tenant date sealedHead).valid = true ↔
      Chained sum256 (genesisHash sum256 tenant date) 1 rows ∧ (sealedHead ≠ [] →
        HashChain.head (linkHash sum256) (genesisHash sum256 tenant date)
          (rows.map Record.item) = sealedHead) :=
  verifyFrom_valid_iff sum256 sealedHead rows _ 1 0

theorem verifyFrom_manifestMatch {sealedHead : Bytes} (hsealed : sealedHead ≠ []) :
    ∀ (rows : List Record) (prev : Bytes) (n checked : Nat),
      (verifyFrom sum256 sealedHead prev n checked rows).valid = true →
        (verifyFrom sum256 sealedHead prev n checked rows).manifestMatch = true := by
  intro rows
  induction rows with
  | nil =>
    intro prev n checked h
    rw [verifyFrom, if_pos hsealed] at h ⊢
    exact h
  | cons r rows ih =>
    intro prev n checked h
    rw [verifyFrom] at h ⊢
    split
    · next hseq =>
      rw [if_pos hseq] at h
      cases h
    · next hseq =>
      rw [if_neg hseq] at h
      split
      · next hhash =>
        rw [if_pos hhash] at h
        cases h
      · next hhash =>
        rw [if_neg hhash] at h
        exact ih _ _ _ h

theorem verify_manifestMatch {rows : List Record} {tenant : Uuid} {date sealedHead : Bytes}
    (hsealed : sealedHead ≠ []) (h : (verify sum256 rows tenant date sealedHead).valid = true) :
    (verify sum256 rows tenant date sealedHead).manifestMatch = true :=
  verifyFrom_manifestMatch sum256 hsealed rows _ _ _ h

/-- Two rows agree on everything the chain protects. -/
def Record.Agree (r r' : Record) : Prop :=
  r.chainSeq = r'.chainSeq ∧ r.eventID = r'.eventID ∧ r.payloadDigest = r'.payloadDigest ∧
    r.occurredAt.instant = r'.occurredAt.instant ∧ r.chainHash = r'.chainHash

theorem linkHash_congr {a b : BatchItem} (h : a.Same b) (prev : Bytes) :
    linkHash sum256 prev a = linkHash sum256 prev b := by
  obtain ⟨hid, hdigest, htime⟩ := h
  obtain ⟨hsec, hnsec⟩ := Prod.mk.inj htime
  have hutc : a.occurredAt.utc = b.occurredAt.utc := by
    simp only [Time.utc, Time.mk.injEq]
    exact ⟨hsec, hnsec, trivial⟩
  simp only [linkHash, chainHash, chainPreimage, hid, hdigest, hutc]

/-- Chains that start alike and have the same contents are the same rows. -/
theorem Chained.agree {prev : Bytes} {n : Nat} {as bs : List Record}
    (ha : Chained sum256 prev n as) (hb : Chained sum256 prev n bs)
    (h : List.Forall₂ BatchItem.Same (as.map Record.item) (bs.map Record.item)) :
    List.Forall₂ Record.Agree as bs := by
  induction as generalizing prev n bs with
  | nil =>
    cases bs with
    | nil => exact .nil
    | cons b bs => cases h
  | cons a as ih =>
    cases bs with
    | nil => cases h
    | cons b bs =>
      rw [List.map_cons, List.map_cons, List.forall₂_cons] at h
      obtain ⟨hseq, hhash, hrest⟩ := ha
      obtain ⟨hseq', hhash', hrest'⟩ := hb
      have heq : a.chainHash = b.chainHash := by rw [hhash, hhash', linkHash_congr sum256 h.1]
      refine .cons ⟨hseq.trans hseq'.symm, h.1.1, h.1.2.1, h.1.2.2, heq⟩ ?_
      rw [← heq] at hrest'
      exact ih hrest hrest' h.2

theorem same_of_head_eq {sum256 : Bytes → Bytes} (hsum : Function.Injective sum256)
    {tenant : Uuid} {date : Bytes} {as bs : List BatchItem}
    (h : HashChain.head (linkHash sum256) (genesisHash sum256 tenant date) as =
      HashChain.head (linkHash sum256) (genesisHash sum256 tenant date) bs) :
    List.Forall₂ BatchItem.Same as bs :=
  HashChain.head_determines_entries (R := BatchItem.Same)
    (isHexText_sha256Hex sum256 (genesisPreimage tenant date))
    (fun _ _ => isHexText_sha256Hex sum256 _)
    (fun _ _ _ _ hh hh' heq => chainHash_inj hsum hh hh' heq)
    (fun _ _ hh => chainHash_ne_genesisHash hsum hh _ _ _ tenant date) as bs h

end Verify

/-- **Tamper evidence.**  For a sealed day the rows that replay as valid are
unique up to what the chain protects: any other list, shorter or longer,
reordered or edited, is reported. -/
theorem verify_tamper_evident (sum256 : Bytes → Bytes) (hsum : Function.Injective sum256)
    (tenant : Uuid) (date sealedHead : Bytes) (hsealed : sealedHead ≠ []) (as : List Record)
    (ha : (verify sum256 as tenant date sealedHead).valid = true) :
    (∀ bs : List Record, (verify sum256 bs tenant date sealedHead).valid = true →
      as.length = bs.length ∧ List.Forall₂ Record.Agree as bs) ∧
    (∀ bs : List Record, ¬ List.Forall₂ Record.Agree as bs →
      (verify sum256 bs tenant date sealedHead).valid = false) := by
  have hunique : ∀ bs : List Record,
      (verify sum256 bs tenant date sealedHead).valid = true → List.Forall₂ Record.Agree as bs := by
    intro bs hb
    rw [verify_valid_iff] at ha hb
    have hheads := (ha.2 hsealed).trans (hb.2 hsealed).symm
    exact ha.1.agree sum256 hb.1 (same_of_head_eq hsum hheads)
  refine ⟨fun bs hb => ⟨(hunique bs hb).length_eq, hunique bs hb⟩, fun bs hne => ?_⟩
  exact Bool.eq_false_iff.mpr fun hb => hne (hunique bs hb)

/-- The content of the sample day's first event. -/
def sampleItem : BatchItem := ⟨Uuid.ofByte 2, bytes "a|b", ⟨63919065600, 500000000, by decide, 0⟩⟩

/-- The sample day's first row, its time read in the given zone. -/
def sampleRow (zone : Int) : Record where
  eventID := sampleItem.eventID
  tenantID := Uuid.ofByte 1
  occurredAt := { sampleItem.occurredAt with zone := zone }
  payloadDigest := sampleItem.payloadDigest
  chainDate := bytes "2026-07-08"
  chainSeq := 1
  chainHash := bytes "fd5c186532a3c7e36c0f215f97360bbdcbb09e98fefa58ec933cc587475e1208"

/-- The sealed sample day replays as valid in whatever zone its time is read,
and its rows agree; a row with another digest is reported. -/
theorem verify_tamper_evident_sample :
    (verify sampleSum256 [sampleRow 3600] (Uuid.ofByte 1) (bytes "2026-07-08")
      (sampleRow 0).chainHash).valid = true ∧
    List.Forall₂ Record.Agree [sampleRow 0] [sampleRow 3600] ∧
    (verify sampleSum256 [{ sampleRow 0 with payloadDigest := bytes "a" }] (Uuid.ofByte 1)
      (bytes "2026-07-08") (sampleRow 0).chainHash).valid = false := by
  have hA : (verify sampleSum256 [sampleRow 0] (Uuid.ofByte 1) (bytes "2026-07-08")
      (sampleRow 0).chainHash).valid = true := by decide +kernel
  have hB : (verify sampleSum256 [sampleRow 3600] (Uuid.ofByte 1) (bytes "2026-07-08")
      (sampleRow 0).chainHash).valid = true := by decide +kernel
  have h := verify_tamper_evident sampleSum256 sampleSum256_injective (Uuid.ofByte 1)
    (bytes "2026-07-08") (sampleRow 0).chainHash (by decide) [sampleRow 0] hA
  refine ⟨hB, (h.1 _ hB).2, h.2 _ ?_⟩
  intro hagree
  cases hagree with
  | cons hrow _ => exact absurd hrow.2.2.1 (by decide)

end Windrose.Audit

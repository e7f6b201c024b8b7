/-
  X12/Handlers.lean --- the rows of each transaction set.

  Source: services/ingestion-service/app/domain/x12.py (the six handlers and `_HANDLERS`).

  A handler collects the loop in flight and appends its row when the next one begins or
  the transaction ends; `feed` and `flush` give the handler and the rows it appends.  The
  envelope is an argument: the handlers share the object that `decode_x12` writes to, so a
  row carries the numbers that are in force when it is appended.
-/
import Windrose.X12.Domain

set_option autoImplicit false

namespace Windrose.X12

open Windrose.Foundation

/-- `raw.append`, up to the cap. -/
def keepRaw (raw : List Bytes) (s : Segment) : List Bytes :=
  if raw.length < maxRawSegmentsPerClaim then raw ++ [s.raw] else raw

/-- `"\n".join(raw[:MAX_RAW_SEGMENTS_PER_CLAIM])`. -/
def rawCell (raw : List Bytes) : Cell := .text ([10].intercalate (raw.take maxRawSegmentsPerClaim))

/-- `sep.join` for a separator of one character. -/
def joined (sep : UInt8) (texts : List Bytes) : Cell := .text ([sep].intercalate texts)

/-- `f"{last} {first}".strip()`. -/
def fullName (last first : Bytes) : Bytes := pyStrip (last ++ bytes " " ++ first)

/-! ## 837 -/

/-- A claim in flight (837). -/
structure Claim where
  claimId : Bytes := []
  totalCharge : Bytes := []
  placeOfService : Bytes := []
  diagnosisCodes : List Bytes := []
  serviceLines : Nat := 0
  raw : List Bytes := []
  deriving DecidableEq

/-- The handler of 837. -/
structure ClaimHandler where
  claim : Option Claim := none
  billingNpi : Bytes := []
  subscriberId : Bytes := []
  deriving DecidableEq

/-- The code of one component of an HI segment. -/
def diagnosisCode (d : Delimiters) (comp : Bytes) : Option Bytes :=
  let parts := comp.splitOn d.component
  if 2 ≤ parts.length ∧ pyStrip (parts.getD 1 []) ≠ [] then some (pyStrip (parts.getD 1 []))
  else none

namespace ClaimHandler

/-- `CLAIM_COLUMNS`. -/
def columns : List Bytes :=
  envelopeColumns ++
    [bytes "claim_id", bytes "total_charge", bytes "place_of_service",
      bytes "billing_provider_npi", bytes "subscriber_id", bytes "diagnosis_codes",
      bytes "service_line_count", bytes "loop_path", bytes "raw_segments"]

/-- The row of the claim `c`. -/
def row (h : ClaimHandler) (env : Envelope) (c : Claim) : Row :=
  env.cells ++
    [.text c.claimId, .text c.totalCharge, .text c.placeOfService, .text h.billingNpi,
      .text h.subscriberId, joined 44 c.diagnosisCodes, .count c.serviceLines,
      .text (bytes "ISA/GS/ST(" ++ env.st01 ++ bytes ")/2300"), rawCell c.raw]

/-- `flush`. -/
def flush (h : ClaimHandler) (env : Envelope) : ClaimHandler × List Row :=
  match h.claim with
  | none => (h, [])
  | some c => ({ h with claim := none }, [h.row env c])

/-- The claim that a CLM segment opens. -/
def opened (s : Segment) : Claim :=
  { claimId := s.elStrip 1
    totalCharge := s.elStrip 2
    placeOfService := pyStrip (((s.el 5).splitOn s.delims.component).headD [])
    raw := [s.raw] }

/-- `feed`. -/
def feed (h : ClaimHandler) (env : Envelope) (s : Segment) : ClaimHandler × List Row :=
  let h := { h with claim := h.claim.map fun c => { c with raw := keepRaw c.raw s } }
  if s.tag = bytes "CLM" then
    let flushed := h.flush env
    ({ flushed.1 with claim := some (opened s) }, flushed.2)
  else if s.tag = bytes "NM1" then
    if s.elStrip 1 = bytes "85" then ({ h with billingNpi := s.elStrip 9 }, [])
    else if s.elStrip 1 = bytes "IL" then ({ h with subscriberId := s.elStrip 9 }, [])
    else (h, [])
  else if s.tag = bytes "HI" then
    let codes := (s.elements.drop 1).filterMap (diagnosisCode s.delims)
    ({ h with
        claim := h.claim.map fun c => { c with diagnosisCodes := c.diagnosisCodes ++ codes } },
      [])
  else if s.tag = bytes "SV1" then
    ({ h with claim := h.claim.map fun c => { c with serviceLines := c.serviceLines + 1 } }, [])
  else (h, [])

end ClaimHandler

/-! ## 835 -/

/-- A claim payment in flight (835). -/
structure Remit where
  claimId : Bytes := []
  status : Bytes := []
  charged : Bytes := []
  paid : Bytes := []
  patientResp : Bytes := []
  serviceLines : Nat := 0
  adjustments : List Bytes := []
  raw : List Bytes := []
  deriving DecidableEq

/-- The handler of 835. -/
structure RemitHandler where
  payer : Bytes := []
  payee : Bytes := []
  trace : Bytes := []
  totalPaid : Bytes := []
  payMethod : Bytes := []
  payDate : Bytes := []
  nm1Ctx : Bytes := []
  clp : Option Remit := none
  deriving DecidableEq

/-- One adjustment, when it has a code and an amount. -/
def adjustment (grp code amt : Bytes) : List Bytes :=
  if pyStrip code ≠ [] ∧ pyStrip amt ≠ [] then
    [grp ++ bytes ":" ++ pyStrip code ++ bytes ":" ++ pyStrip amt]
  else []

/-- The loop over the (code, amount, quantity) triplets of a CAS segment. -/
def adjustmentsOf (grp : Bytes) : List Bytes → List Bytes
  | code :: amt :: _ :: rest =>
    if code = [] then [] else adjustment grp code amt ++ adjustmentsOf grp rest
  | [code, amt] => adjustment grp code amt
  | _ => []

namespace RemitHandler

/-- `REMIT_COLUMNS`. -/
def columns : List Bytes :=
  envelopeColumns ++
    [bytes "payer_name", bytes "payee_name", bytes "check_or_eft_trace", bytes "total_paid",
      bytes "payment_method", bytes "payment_date", bytes "claim_id", bytes "claim_status_code",
      bytes "charged_amount", bytes "paid_amount", bytes "patient_responsibility",
      bytes "adjustments", bytes "service_line_count", bytes "loop_path", bytes "raw_segments"]

/-- The row of the payment `r`. -/
def row (h : RemitHandler) (env : Envelope) (r : Remit) : Row :=
  env.cells ++
    [.text h.payer, .text h.payee, .text h.trace, .text h.totalPaid, .text h.payMethod,
      .text h.payDate, .text r.claimId, .text r.status, .text r.charged, .text r.paid,
      .text r.patientResp, joined 59 r.adjustments, .count r.serviceLines,
      .text (bytes "ISA/GS/ST(835)/2100"), rawCell r.raw]

/-- `flush`. -/
def flush (h : RemitHandler) (env : Envelope) : RemitHandler × List Row :=
  match h.clp with
  | none => (h, [])
  | some r => ({ h with clp := none }, [h.row env r])

/-- The payment that a CLP segment opens. -/
def opened (s : Segment) : Remit :=
  { claimId := s.elStrip 1
    status := s.elStrip 2
    charged := s.elStrip 3
    paid := s.elStrip 4
    patientResp := s.elStrip 5
    raw := [s.raw] }

/-- `feed`. -/
def feed (h : RemitHandler) (env : Envelope) (s : Segment) : RemitHandler × List Row :=
  let h := { h with clp := h.clp.map fun r => { r with raw := keepRaw r.raw s } }
  if s.tag = bytes "BPR" then
    ({ h with payMethod := s.elStrip 4, totalPaid := s.elStrip 2, payDate := s.elStrip 16 }, [])
  else if s.tag = bytes "TRN" then ({ h with trace := s.elStrip 2 }, [])
  else if s.tag = bytes "N1" then
    let h := { h with nm1Ctx := s.elStrip 1 }
    if h.nm1Ctx = bytes "PR" then ({ h with payer := s.elStrip 2 }, [])
    else if h.nm1Ctx = bytes "PE" then ({ h with payee := s.elStrip 2 }, [])
    else (h, [])
  else if s.tag = bytes "CLP" then
    let flushed := h.flush env
    ({ flushed.1 with clp := some (opened s) }, flushed.2)
  else if s.tag = bytes "CAS" then
    let more := adjustmentsOf (s.elStrip 1) (s.elements.drop 2)
    ({ h with clp := h.clp.map fun r => { r with adjustments := r.adjustments ++ more } }, [])
  else if s.tag = bytes "SVC" then
    ({ h with clp := h.clp.map fun r => { r with serviceLines := r.serviceLines + 1 } }, [])
  else (h, [])

end RemitHandler

/-! ## 271 -/

/-- A benefit in flight (271). -/
structure Benefit where
  status : Bytes := []
  coverageLevel : Bytes := []
  serviceType : Bytes := []
  plan : Bytes := []
  amount : Bytes := []
  percent : Bytes := []
  raw : List Bytes := []
  deriving DecidableEq

/-- The handler of 271. -/
structure EligibilityHandler where
  source : Bytes := []
  subscriberId : Bytes := []
  subscriberName : Bytes := []
  ctx : Bytes := []
  eb : Option Benefit := none
  deriving DecidableEq

namespace EligibilityHandler

/-- `ELIGIBILITY_COLUMNS`. -/
def columns : List Bytes :=
  envelopeColumns ++
    [bytes "information_source", bytes "subscriber_id", bytes "subscriber_name",
      bytes "benefit_status", bytes "coverage_level", bytes "service_type",
      bytes "plan_description", bytes "benefit_amount", bytes "benefit_percent",
      bytes "loop_path", bytes "raw_segments"]

/-- The row of the benefit `b`. -/
def row (h : EligibilityHandler) (env : Envelope) (b : Benefit) : Row :=
  env.cells ++
    [.text h.source, .text h.subscriberId, .text h.subscriberName, .text b.status,
      .text b.coverageLevel, .text b.serviceType, .text b.plan, .text b.amount, .text b.percent,
      .text (bytes "ISA/GS/ST(271)/2110"), rawCell b.raw]

/-- `flush`. -/
def flush (h : EligibilityHandler) (env : Envelope) : EligibilityHandler × List Row :=
  match h.eb with
  | none => (h, [])
  | some b => ({ h with eb := none }, [h.row env b])

/-- The benefit that an EB segment opens. -/
def opened (s : Segment) : Benefit :=
  { status := s.elStrip 1
    coverageLevel := s.elStrip 2
    serviceType := s.elStrip 3
    plan := s.elStrip 5
    amount := s.elStrip 7
    percent := s.elStrip 8
    raw := [s.raw] }

/-- `feed`. -/
def feed (h : EligibilityHandler) (env : Envelope) (s : Segment) :
    EligibilityHandler × List Row :=
  let h := { h with eb := h.eb.map fun b => { b with raw := keepRaw b.raw s } }
  if s.tag = bytes "NM1" then
    let h := { h with ctx := s.elStrip 1 }
    if h.ctx ∈ [bytes "PR", bytes "P5", bytes "2B", bytes "36"] then
      ({ h with source := s.elStrip 3 }, [])
    else if h.ctx = bytes "IL" then
      ({ h with
          subscriberName := fullName (s.elStrip 3) (s.elStrip 4)
          subscriberId := s.elStrip 9 },
        [])
    else (h, [])
  else if s.tag = bytes "EB" then
    let flushed := h.flush env
    ({ flushed.1 with eb := some (opened s) }, flushed.2)
  else (h, [])

end EligibilityHandler

/-! ## 277 -/

/-- A claim status in flight (277). -/
structure ClaimStatus where
  claimId : Bytes := []
  category : Bytes := []
  code : Bytes := []
  effectiveDate : Bytes := []
  totalCharge : Bytes := []
  paid : Bytes := []
  raw : List Bytes := []
  deriving DecidableEq

/-- The handler of 277. -/
structure ClaimStatusHandler where
  source : Bytes := []
  provider : Bytes := []
  claimId : Bytes := []
  ctx : Bytes := []
  stc : Option ClaimStatus := none
  deriving DecidableEq

namespace ClaimStatusHandler

/-- `CLAIM_STATUS_COLUMNS`. -/
def columns : List Bytes :=
  envelopeColumns ++
    [bytes "information_source", bytes "provider_id", bytes "claim_id", bytes "status_category",
      bytes "status_code", bytes "status_effective_date", bytes "total_charge",
      bytes "paid_amount", bytes "loop_path", bytes "raw_segments"]

/-- The row of the status `c`. -/
def row (h : ClaimStatusHandler) (env : Envelope) (c : ClaimStatus) : Row :=
  env.cells ++
    [.text h.source, .text h.provider, .text c.claimId, .text c.category, .text c.code,
      .text c.effectiveDate, .text c.totalCharge, .text c.paid,
      .text (bytes "ISA/GS/ST(277)/2200"), rawCell c.raw]

/-- `flush`. -/
def flush (h : ClaimStatusHandler) (env : Envelope) : ClaimStatusHandler × List Row :=
  match h.stc with
  | none => (h, [])
  | some c => ({ h with stc := none }, [h.row env c])

/-- The status that an STC segment opens. -/
def opened (h : ClaimStatusHandler) (s : Segment) : ClaimStatus :=
  let first := (s.el 1).splitOn s.delims.component
  { claimId := h.claimId
    category := pyStrip (first.headD [])
    code := pyStrip (first.getD 1 [])
    effectiveDate := s.elStrip 2
    totalCharge := s.elStrip 4
    paid := s.elStrip 5
    raw := [s.raw] }

/-- `feed`. -/
def feed (h : ClaimStatusHandler) (env : Envelope) (s : Segment) :
    ClaimStatusHandler × List Row :=
  let h := { h with stc := h.stc.map fun c => { c with raw := keepRaw c.raw s } }
  if s.tag = bytes "NM1" then
    let h := { h with ctx := s.elStrip 1 }
    if h.ctx ∈ [bytes "PR", bytes "AY", bytes "41"] then ({ h with source := s.elStrip 3 }, [])
    else if h.ctx ∈ [bytes "1P", bytes "85", bytes "82"] then
      ({ h with provider := s.elStrip 9 }, [])
    else (h, [])
  else if s.tag = bytes "TRN" then ({ h with claimId := s.elStrip 2 }, [])
  else if s.tag = bytes "REF" ∧ s.elStrip 1 ∈ [bytes "1K", bytes "D9", bytes "BLT"] then
    (if h.claimId = [] then { h with claimId := s.elStrip 2 } else h, [])
  else if s.tag = bytes "STC" then
    let flushed := h.flush env
    ({ flushed.1 with stc := some (flushed.1.opened s) }, flushed.2)
  else (h, [])

end ClaimStatusHandler

/-! ## 834 -/

/-- A coverage in flight (834). -/
structure Coverage where
  coverageType : Bytes := []
  plan : Bytes := []
  beginDate : Bytes := []
  endDate : Bytes := []
  raw : List Bytes := []
  deriving DecidableEq

/-- The handler of 834. -/
structure EnrollmentHandler where
  memberId : Bytes := []
  memberName : Bytes := []
  maintType : Bytes := []
  maintReason : Bytes := []
  hd : Option Coverage := none
  deriving DecidableEq

namespace EnrollmentHandler

/-- `ENROLLMENT_COLUMNS`. -/
def columns : List Bytes :=
  envelopeColumns ++
    [bytes "member_id", bytes "member_name", bytes "maintenance_type",
      bytes "maintenance_reason", bytes "coverage_type", bytes "plan_description",
      bytes "benefit_begin", bytes "benefit_end", bytes "loop_path", bytes "raw_segments"]

/-- The row of the coverage `c`. -/
def row (h : EnrollmentHandler) (env : Envelope) (c : Coverage) : Row :=
  env.cells ++
    [.text h.memberId, .text h.memberName, .text h.maintType, .text h.maintReason,
      .text c.coverageType, .text c.plan, .text c.beginDate, .text c.endDate,
      .text (bytes "ISA/GS/ST(834)/2300"), rawCell c.raw]

/-- `flush`. -/
def flush (h : EnrollmentHandler) (env : Envelope) : EnrollmentHandler × List Row :=
  match h.hd with
  | none => (h, [])
  | some c => ({ h with hd := none }, [h.row env c])

/-- `feed`. -/
def feed (h : EnrollmentHandler) (env : Envelope) (s : Segment) :
    EnrollmentHandler × List Row :=
  let h := { h with hd := h.hd.map fun c => { c with raw := keepRaw c.raw s } }
  if s.tag = bytes "INS" then
    let flushed := h.flush env
    ({ flushed.1 with maintType := s.elStrip 3, maintReason := s.elStrip 4 }, flushed.2)
  else if s.tag = bytes "REF" ∧ s.elStrip 1 ∈ [bytes "0F", bytes "1L", bytes "17"] then
    ({ h with memberId := s.elStrip 2 }, [])
  else if s.tag = bytes "NM1" ∧ s.elStrip 1 = bytes "IL" then
    ({ h with memberName := fullName (s.elStrip 3) (s.elStrip 4) }, [])
  else if s.tag = bytes "HD" then
    let flushed := h.flush env
    ({ flushed.1 with
        hd := some { coverageType := s.elStrip 3, plan := s.elStrip 4, raw := [s.raw] } },
      flushed.2)
  else if s.tag = bytes "DTP" then
    if s.elStrip 1 = bytes "348" then
      ({ h with hd := h.hd.map fun c => { c with beginDate := s.elStrip 3 } }, [])
    else if s.elStrip 1 = bytes "349" then
      ({ h with hd := h.hd.map fun c => { c with endDate := s.elStrip 3 } }, [])
    else (h, [])
  else (h, [])

end EnrollmentHandler

/-! ## 999 -/

/-- An acknowledged transaction in flight (999). -/
structure AckUnit where
  tsId : Bytes := []
  tsControl : Bytes := []
  ackCode : Bytes := []
  errorCodes : List Bytes := []
  segmentErrorCodes : List Bytes := []
  raw : List Bytes := []
  deriving DecidableEq

/-- The handler of 999. -/
structure AckHandler where
  groupFunctionalId : Bytes := []
  groupControl : Bytes := []
  groupAckCode : Bytes := []
  units : List AckUnit := []
  unit : Option AckUnit := none
  deriving DecidableEq

namespace AckHandler

/-- `ACK_COLUMNS`. -/
def columns : List Bytes :=
  envelopeColumns ++
    [bytes "acked_functional_id_code", bytes "acked_group_control_number",
      bytes "acked_transaction_set_id", bytes "acked_transaction_set_control_number",
      bytes "transaction_ack_code", bytes "transaction_error_codes",
      bytes "segment_error_codes", bytes "group_ack_code", bytes "loop_path",
      bytes "raw_segments"]

/-- The row of the unit `u`. -/
def row (h : AckHandler) (env : Envelope) (u : AckUnit) : Row :=
  env.cells ++
    [.text h.groupFunctionalId, .text h.groupControl, .text u.tsId, .text u.tsControl,
      .text u.ackCode, joined 44 u.errorCodes, joined 44 u.segmentErrorCodes,
      .text h.groupAckCode, .text (bytes "ISA/GS/ST(999)/AK2"), rawCell u.raw]

/-- `_close_unit`. -/
def closeUnit (h : AckHandler) : AckHandler :=
  { h with units := h.units ++ h.unit.toList, unit := none }

/-- `flush`. -/
def flush (h : AckHandler) (env : Envelope) : AckHandler × List Row :=
  let h := h.closeUnit
  ({ h with units := [] }, h.units.map (h.row env))

/-- `feed`. -/
def feed (h : AckHandler) (_env : Envelope) (s : Segment) : AckHandler × List Row :=
  let h := { h with unit := h.unit.map fun u => { u with raw := keepRaw u.raw s } }
  if s.tag = bytes "AK1" then
    ({ h with groupFunctionalId := s.elStrip 1, groupControl := s.elStrip 2 }, [])
  else if s.tag = bytes "AK2" then
    ({ h.closeUnit with
        unit := some { tsId := s.elStrip 1, tsControl := s.elStrip 2, raw := [s.raw] } },
      [])
  else if s.tag = bytes "IK3" then
    let codes := [s.elStrip 4].filter (· ≠ [])
    ({ h with
        unit := h.unit.map fun u => { u with segmentErrorCodes := u.segmentErrorCodes ++ codes } },
      [])
  else if s.tag = bytes "AK5" then
    let codes := ([2, 3, 4, 5, 6].map s.elStrip).filter (· ≠ [])
    ({ h with
        unit := h.unit.map fun u =>
          { u with ackCode := s.elStrip 1, errorCodes := u.errorCodes ++ codes } },
      [])
  else if s.tag = bytes "AK9" then ({ h with groupAckCode := s.elStrip 1 }, [])
  else (h, [])

end AckHandler

/-! ## The handler of a transaction -/

/-- The handlers, by transaction set. -/
inductive Handler where
  | claim (h : ClaimHandler)
  | remit (h : RemitHandler)
  | eligibility (h : EligibilityHandler)
  | claimStatus (h : ClaimStatusHandler)
  | enrollment (h : EnrollmentHandler)
  | ack (h : AckHandler)
  deriving DecidableEq

namespace Handler

/-- `COLUMNS`. -/
def columns : Handler → List Bytes
  | .claim _ => ClaimHandler.columns
  | .remit _ => RemitHandler.columns
  | .eligibility _ => EligibilityHandler.columns
  | .claimStatus _ => ClaimStatusHandler.columns
  | .enrollment _ => EnrollmentHandler.columns
  | .ack _ => AckHandler.columns

/-- `flush`. -/
def flush (env : Envelope) : Handler → Handler × List Row
  | .claim h => ((h.flush env).map .claim id)
  | .remit h => ((h.flush env).map .remit id)
  | .eligibility h => ((h.flush env).map .eligibility id)
  | .claimStatus h => ((h.flush env).map .claimStatus id)
  | .enrollment h => ((h.flush env).map .enrollment id)
  | .ack h => ((h.flush env).map .ack id)

/-- `feed`. -/
def feed (env : Envelope) (s : Segment) : Handler → Handler × List Row
  | .claim h => ((h.feed env s).map .claim id)
  | .remit h => ((h.feed env s).map .remit id)
  | .eligibility h => ((h.feed env s).map .eligibility id)
  | .claimStatus h => ((h.feed env s).map .claimStatus id)
  | .enrollment h => ((h.feed env s).map .enrollment id)
  | .ack h => ((h.feed env s).map .ack id)

end Handler

/-- `SUPPORTED_TRANSACTION_SETS`. -/
def supportedTransactionSets : List Bytes :=
  [bytes "837", bytes "835", bytes "271", bytes "277", bytes "834", bytes "999"]

/-- `KNOWN_TRANSACTION_SETS`. -/
def knownTransactionSets : List Bytes := [bytes "270", bytes "276", bytes "997"]

/-- `_HANDLERS`, each as it is built. -/
def handlers : List (Bytes × Handler) :=
  [(bytes "837", .claim {}), (bytes "835", .remit {}), (bytes "271", .eligibility {}),
    (bytes "277", .claimStatus {}), (bytes "834", .enrollment {}), (bytes "999", .ack {})]

theorem handlers_lookup {st01 : Bytes} :
    (∃ h, handlers.lookup st01 = some h) ↔ st01 ∈ supportedTransactionSets := by
  have hkeys : handlers.map Prod.fst = supportedTransactionSets := rfl
  rw [← Option.isSome_iff_exists, List.lookup_isSome_iff, ← hkeys]
  simp

end Windrose.X12

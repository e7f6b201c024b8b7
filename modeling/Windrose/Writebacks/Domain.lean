/-
  Writebacks/Domain.lean --- writebacks, and the interchanges that are pinned to them.

  Source: services/ingestion-service/app/domain/x12_out.py (is_x12_writeback,
  render_for_writeback, approved_bytes), services/writebacks.py, x12_control.py
  (reserve_control_numbers) and store/models.py (Writeback).

  A payload is a dictionary.  An item of a list in it is read as a claim or as an inquiry,
  so it has both readings.  A target is read through `str(target.get(k) or "")` only, so it
  is the record of these texts.  Texts are latin-1.
-/
import Windrose.Foundation.Holds
import Windrose.Ingestions.Domain
import Windrose.X12.Render

set_option autoImplicit false

namespace Windrose.Writebacks

open Windrose.Foundation

/-! ## Payloads and targets -/

/-- An item of a list, as a claim and as an inquiry. -/
structure Item where
  claim : X12.OutClaim
  inquiry : X12.Inquiry
  deriving DecidableEq

/-- A value of a payload. -/
inductive Value where
  | text (s : Bytes)
  /-- a list, with its `str` -/
  | list (items : List Item) (shown : Bytes)
  /-- a number, a boolean, null or an object, by its `str` -/
  | other (shown : Bytes)
  deriving DecidableEq

/-- `str` of a value. -/
def Value.str : Value → Bytes
  | .text s => s
  | .list _ shown => shown
  | .other shown => shown

/-- The payload of a writeback. -/
abbrev Payload : Type := Dict Bytes Value

/-- The target of a connection. -/
structure Target where
  format : Bytes := []
  transactionSet : Bytes := []
  senderID : Bytes := []
  receiverID : Bytes := []
  isaControl : Bytes := []
  gsControl : Bytes := []
  stControl : Bytes := []
  dateYymmdd : Bytes := []
  timeHhmm : Bytes := []
  dateCcyymmdd : Bytes := []
  usageIndicator : Bytes := []
  billingProviderNpi : Bytes := []
  subscriberID : Bytes := []
  subscriberLast : Bytes := []
  subscriberFirst : Bytes := []
  payerID : Bytes := []
  payerName : Bytes := []
  providerNpi : Bytes := []
  providerName : Bytes := []
  path : Bytes := []
  method : Bytes := []
  schema : Bytes := []
  table : Bytes := []
  keyColumn : Bytes := []
  deriving DecidableEq

/-- `RENDERED_KEY` and `CHECKSUM_KEY`. -/
def renderedKey : Bytes := bytes "x12_rendered"

/-- `CHECKSUM_KEY`. -/
def checksumKey : Bytes := bytes "x12_checksum"

/-- The exceptions. -/
inductive Exn where
  | notFound (message : String)
  | validationFailed (message : String)
  | conflict (message : String)
  /-- a refusal of a renderer -/
  | render (e : X12.RenderError)
  /-- a refusal of `x12_out` that names fields -/
  | missing (message : String) (fields : List Bytes)
  /-- any other `PermanentJobError` of `x12_out` -/
  | job (message : String)
  /-- a failure of what is called: the database, the vault, the target -/
  | other

/-! ## Rendering -/

/-- `is_x12_writeback`; `X12` is the only other text that `lower` maps to `x12`. -/
def isX12Writeback (target : Target) : Bool :=
  target.format = bytes "x12" || target.format = bytes "X12"

/-- `or` of two texts. -/
def orElse (s default : Bytes) : Bytes := if s = [] then default else s

/-- The fields that are blank. -/
def blank (fields : List (Bytes × Bytes)) : List Bytes :=
  (fields.filter fun f => X12.pyStrip f.2 = []).map (·.1)

def Target.control (target : Target) : X12.OutboundControl :=
  { senderId := target.senderID
    receiverId := target.receiverID
    isaControl := target.isaControl
    gsControl := target.gsControl
    stControl := target.stControl
    dateYymmdd := orElse target.dateYymmdd (bytes "000101")
    timeHhmm := orElse target.timeHhmm (bytes "0000")
    dateCcyymmdd := orElse target.dateCcyymmdd (bytes "20000101")
    usageIndicator := orElse target.usageIndicator (bytes "P") }

def Target.parties (target : Target) : X12.StatusParties :=
  { payerId := target.payerID
    payerName := target.payerName
    providerNpi := target.providerNpi
    providerName := target.providerName
    subscriberId := target.subscriberID
    subscriberLast := target.subscriberLast
    subscriberFirst := target.subscriberFirst }

/-- The rendering of `render_for_writeback`. -/
def renderTarget (payload : Payload) (target : Target) : Except Exn Bytes :=
  let missing := blank
    [(bytes "sender_id", target.senderID), (bytes "receiver_id", target.receiverID),
      (bytes "isa_control", target.isaControl), (bytes "gs_control", target.gsControl),
      (bytes "st_control", target.stControl)]
  let transactionSet := orElse target.transactionSet (bytes "837")
  if missing ≠ [] then .error (.missing "X12 writeback: target is missing control field(s)" missing)
  else if transactionSet = bytes "837" then
    match payload.lookup (bytes "claims") with
    | some (.list items _) =>
      (X12.render837 (items.map (·.claim)) target.control target.billingProviderNpi
        target.subscriberID X12.defaultDelimiters transactionSet).mapError .render
    | _ => .error (.job "X12 writeback: payload.claims must be a list of claims")
  else if transactionSet = bytes "276" then
    match payload.lookup (bytes "inquiries") with
    | some (.list items _) =>
      let missing := blank
        [(bytes "payer_id", target.payerID), (bytes "payer_name", target.payerName),
          (bytes "provider_npi", target.providerNpi), (bytes "provider_name", target.providerName),
          (bytes "subscriber_id", target.subscriberID),
          (bytes "subscriber_last", target.subscriberLast),
          (bytes "subscriber_first", target.subscriberFirst)]
      if missing ≠ [] then .error (.missing "X12 writeback: 276 target is missing field(s)" missing)
      else
        (X12.render276 (items.map (·.inquiry)) target.control target.parties
          X12.defaultDelimiters).mapError .render
    | _ => .error (.job "X12 writeback: payload.inquiries must be a list for a 276 request")
  else .error (.job "X12 writeback: transaction set is not supported for outbound")

/-- `render_for_writeback`; `checksum` is the hexadecimal SHA-256. -/
def renderForWriteback (checksum : Bytes → Bytes) (payload : Payload) (target : Target) :
    Except Exn Payload :=
  (renderTarget payload target).map fun rendered =>
    (payload.insert renderedKey (.text rendered)).insert checksumKey (.text (checksum rendered))

/-- `approved_bytes`. -/
def approvedBytes (checksum : Bytes → Bytes) (payload : Payload) : Except Exn Bytes :=
  match payload.lookup renderedKey with
  | some (.text (c :: rendered)) =>
    if payload.lookup checksumKey = some (.text (checksum (c :: rendered))) then
      .ok (c :: rendered)
    else
      .error (.job "X12 writeback: rendered interchange does not match the approved checksum")
  | _ => .error (.job "X12 writeback: no rendered interchange stored on this writeback")

theorem lookup_of_approvedBytes {checksum : Bytes → Bytes} {payload : Payload} {content : Bytes}
    (h : approvedBytes checksum payload = .ok content) :
    payload.lookup renderedKey = some (.text content) := by
  unfold approvedBytes at h
  split at h
  · rename_i c rendered hlookup
    split at h
    · rw [hlookup, Except.ok.inj h]
    · cases h
  · cases h

/-! ## Rows -/

/-- The status of a writeback. -/
inductive Status where
  | pendingApproval
  | delivering
  | delivered
  | failed
  | rejected
  deriving DecidableEq

def Status.text : Status → String
  | pendingApproval => "pending_approval"
  | delivering => "delivering"
  | delivered => "delivered"
  | failed => "failed"
  | rejected => "rejected"

/-- A row of `writebacks`. -/
structure Writeback where
  id : Bytes
  tenantID : Bytes
  connectionID : Bytes
  idempotencyKey : Bytes
  target : Target
  payload : Payload
  status : Status := .pendingApproval
  requestedBy : Bytes
  approvedBy : Option Bytes := none
  attempts : Nat := 0
  lastError : Option String := none
  targetRef : Option Bytes := none

/-- The two executors. -/
inductive Executor where
  | dbUpsert
  | httpPost
  deriving DecidableEq

/-- A row of `connections`, with what the executors read of its configuration. -/
structure Connection where
  tenantID : Bytes
  trafficDirection : Bytes
  connectorType : Bytes
  url : Bytes := []
  baseURL : Bytes := []
  method : Bytes := []
  host : Bytes := []
  deleted : Bool := false
  deriving DecidableEq

/-- `_EXECUTORS`. -/
def Connection.executor (conn : Connection) : Option Executor :=
  if conn.connectorType = bytes "postgres" then some .dbUpsert
  else if conn.connectorType = bytes "http_api" then some .httpPost
  else none

/-! ## Control numbers -/

/-- Tenant, sender and receiver. -/
structure Partner where
  tenantID : Bytes
  senderID : Bytes
  receiverID : Bytes
  deriving DecidableEq

/-- A row of `x12_control_sequences`. -/
structure ControlSequence where
  isa : Nat
  gs : Nat
  st : Nat
  deriving DecidableEq

def ControlSequence.next (c : ControlSequence) : ControlSequence := ⟨c.isa + 1, c.gs + 1, c.st + 1⟩

/-- `:09d`. -/
def nineDigits (n : Nat) : Bytes := List.replicate (9 - (itoa n).length) 48 ++ itoa n

/-- The target with the numbers that were reserved. -/
def Target.withControl (target : Target) (c : ControlSequence) : Target :=
  { target with isaControl := nineDigits c.isa, gsControl := itoa c.gs, stControl := itoa c.st }

end Windrose.Writebacks

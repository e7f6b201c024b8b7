/-
  X12/Render.lean --- the renderers.

  Source: services/ingestion-service/app/domain/x12_out.py.

  A value that a claim or an inquiry lacks is the empty text, as `get(..) or ""` has it.
  The segments are kept as lists of elements; `Composed.text` joins the elements and then
  the segments, where the source joins each list of elements at once.
-/
import Mathlib.Data.List.Dedup
import Mathlib.Data.List.Sort
import Windrose.Foundation.Lexer
import Windrose.X12.Domain

set_option autoImplicit false

namespace Windrose.X12

open Windrose.Foundation

/-! ## Values -/

/-- What `_safe` is told to name in its error. -/
inductive Field where
  | parameter (name : Bytes)
  | control (name : Bytes)
  | claimId
  | ofClaim (claimId name : Bytes)
  | ofLine (claimId : Bytes) (idx : Nat) (name : Bytes)
  | ofInquiry (claimId name : Bytes)
  deriving DecidableEq

/-- The refusals, one for each place that raises. -/
inductive RenderError where
  /-- "… contains reserved delimiter(s) …" -/
  | reserved (field : Field) (found : List UInt8)
  /-- "ISA field … exceeds its fixed width …" -/
  | isaFieldTooLong (value : Bytes) (width : Nat)
  /-- "assembled ISA is … chars, must be 106" -/
  | isaLength (length : Nat)
  /-- "claim is missing claim_id (CLM01)" -/
  | missingClaimId
  /-- "claim … is missing total_charge (CLM02)" -/
  | missingTotalCharge (claimId : Bytes)
  /-- "claim … service line … needs procedure_code + charge" -/
  | incompleteLine (claimId : Bytes) (idx : Nat)
  /-- "transaction set … is not supported for outbound" -/
  | unsupportedSet (transactionSet : Bytes)
  /-- "refusing to render an interchange with zero claims" -/
  | noClaims
  /-- "refusing to render an interchange with zero status inquiries" -/
  | noInquiries
  /-- "status inquiry is missing claim_id (TRN02)" -/
  | missingInquiry
  deriving DecidableEq

/-- The delimiters and the repetition separator that ISA11 declares. -/
def reserved (d : Delimiters) : List UInt8 := [d.element, d.component, d.segment, 94]

/-- `_safe`. -/
def safe (d : Delimiters) (field : Field) (value : Bytes) : Except RenderError Bytes :=
  let found := ((reserved d).dedup.insertionSort (· ≤ ·)).filter (· ∈ value)
  if found ≠ [] then .error (.reserved field found) else .ok value

/-- The value has none of the characters that `_safe` refuses. -/
def Safe (d : Delimiters) (value : Bytes) : Prop := ∀ c ∈ reserved d, c ∉ value

instance (d : Delimiters) (value : Bytes) : Decidable (Safe d value) :=
  inferInstanceAs (Decidable (∀ c ∈ reserved d, c ∉ value))

variable {d : Delimiters} {segs : List (List Bytes)}

theorem safe_eq_ok {field : Field} {value r : Bytes} :
    safe d field value = .ok r ↔ Safe d value ∧ r = value := by
  have hfound : ((reserved d).dedup.insertionSort (· ≤ ·)).filter (· ∈ value) = [] ↔
      Safe d value := by
    simp [List.filter_eq_nil_iff, Safe, List.mem_dedup]
  unfold safe
  by_cases hsafe : Safe d value
  · simp [hfound.mpr hsafe, hsafe, eq_comm]
  · have hne := mt hfound.mp hsafe
    simp [hne, hsafe]

/-! ## The header -/

/-- The control numbers of an interchange. -/
structure OutboundControl where
  senderId : Bytes
  receiverId : Bytes
  isaControl : Bytes
  gsControl : Bytes
  stControl : Bytes
  dateYymmdd : Bytes := bytes "000101"
  timeHhmm : Bytes := bytes "0000"
  dateCcyymmdd : Bytes := bytes "20000101"
  usageIndicator : Bytes := bytes "P"
  deriving DecidableEq

/-- The fields, in the order in which they are checked. -/
def OutboundControl.fields (control : OutboundControl) : List (Bytes × Bytes) :=
  [(bytes "sender_id", control.senderId), (bytes "receiver_id", control.receiverId),
    (bytes "isa_control", control.isaControl), (bytes "gs_control", control.gsControl),
    (bytes "st_control", control.stControl), (bytes "date_yymmdd", control.dateYymmdd),
    (bytes "time_hhmm", control.timeHhmm), (bytes "date_ccyymmdd", control.dateCcyymmdd),
    (bytes "usage_indicator", control.usageIndicator)]

/-- `_ISA_WIDTHS`. -/
def isaWidths : List Nat := [2, 10, 2, 10, 2, 15, 2, 15, 6, 4, 1, 5, 9, 1, 1, 1]

/-- The elements of the header. -/
def isaFields (control : OutboundControl) (d : Delimiters) : List Bytes :=
  [bytes "00", [], bytes "00", [], bytes "ZZ", control.senderId, bytes "ZZ", control.receiverId,
    control.dateYymmdd, control.timeHhmm, bytes "^", bytes "00501", control.isaControl,
    bytes "0", control.usageIndicator, [d.component]]

/-- `value.ljust(width)`. -/
def ljust (value : Bytes) (width : Nat) : Bytes := value ++ List.replicate (width - value.length) 32

/-- The padded elements, unless one is too long. -/
def padded : List (Bytes × Nat) → Except RenderError (List Bytes)
  | [] => .ok []
  | (value, width) :: fields =>
    if width < value.length then .error (.isaFieldTooLong value width)
    else (padded fields).map (ljust value width :: ·)

/-- `_isa`, without the terminator. -/
def isa (control : OutboundControl) (d : Delimiters) : Except RenderError (List Bytes) := do
  let out ← padded ((isaFields control d).zip isaWidths)
  let seg := [d.element].intercalate (bytes "ISA" :: out) ++ [d.segment]
  if seg.length ≠ isaLen then .error (.isaLength seg.length) else .ok (bytes "ISA" :: out)

/-! ## Claims -/

/-- A service line. -/
structure ServiceLine where
  procedureCode : Bytes
  charge : Bytes
  deriving DecidableEq

/-- A claim. -/
structure OutClaim where
  claimId : Bytes
  totalCharge : Bytes
  placeOfService : Bytes := []
  diagnosisCodes : List Bytes := []
  serviceLines : List ServiceLine := []
  deriving DecidableEq

namespace OutClaim

/-- `claim.get("place_of_service") or "11"`. -/
def place (claim : OutClaim) : Bytes :=
  if claim.placeOfService = [] then bytes "11" else claim.placeOfService

/-- The diagnoses that are not blank. -/
def diagnoses (claim : OutClaim) : List Bytes := (claim.diagnosisCodes.map pyStrip).filter (· ≠ [])

end OutClaim

/-- The CLM segment. -/
def clmElements (d : Delimiters) (claimId charge pos : Bytes) : List Bytes :=
  [bytes "CLM", claimId, charge, [], [], [d.component].intercalate [pos, bytes "B", bytes "1"]]

/-- The HI segment: the first diagnosis is the principal. -/
def hiElements (d : Delimiters) : List Bytes → List (List Bytes)
  | [] => []
  | principal :: codes =>
    [bytes "HI" :: [d.component].intercalate [bytes "ABK", principal] ::
      codes.map fun code => [d.component].intercalate [bytes "ABF", code]]

/-- The LX and the SV1 segment of a line. -/
def lineElements (d : Delimiters) (idx : Nat) (proc amount : Bytes) : List (List Bytes) :=
  [[bytes "LX", itoa idx],
    [bytes "SV1", [d.component].intercalate [bytes "HC", proc], amount, bytes "UN", bytes "1"]]

/-- The loop over the service lines. -/
def lineSegments (claimId : Bytes) (d : Delimiters) :
    Nat → List ServiceLine → Except RenderError (List (List Bytes))
  | _, [] => .ok []
  | idx, line :: lines => do
      let proc := pyStrip line.procedureCode
      let amount := pyStrip line.charge
      if proc = [] ∨ amount = [] then .error (.incompleteLine claimId idx)
      else
        let proc ← safe d (.ofLine claimId idx (bytes "procedure_code")) proc
        let amount ← safe d (.ofLine claimId idx (bytes "charge")) amount
        let more ← lineSegments claimId d (idx + 1) lines
        .ok (lineElements d idx proc amount ++ more)

/-- `_claim_segments`. -/
def claimSegments (claim : OutClaim) (d : Delimiters) : Except RenderError (List (List Bytes)) :=
  let claimId := pyStrip claim.claimId
  let charge := pyStrip claim.totalCharge
  if claimId = [] then .error .missingClaimId
  else do
    let claimId ← safe d .claimId claimId
    if charge = [] then .error (.missingTotalCharge claimId)
    else
      let charge ← safe d (.ofClaim claimId (bytes "total_charge")) charge
      let pos ← safe d (.ofClaim claimId (bytes "place_of_service")) claim.place
      let diagnoses ← claim.diagnoses.mapM (safe d (.ofClaim claimId (bytes "diagnosis code")))
      let lines ← lineSegments claimId d 1 claim.serviceLines
      .ok (clmElements d claimId charge pos :: hiElements d diagnoses ++ lines)

/-! ## Interchanges -/

/-- The header, and the segments behind it. -/
structure Composed where
  isa : List Bytes
  segments : List (List Bytes)
  deriving DecidableEq

namespace Composed

/-- The header as a segment. -/
def header (composed : Composed) (d : Delimiters) : Bytes := [d.element].intercalate composed.isa

/-- The segments as texts. -/
def raws (composed : Composed) (d : Delimiters) : List Bytes :=
  composed.segments.map ([d.element].intercalate ·)

/-- What is rendered. -/
def text (composed : Composed) (d : Delimiters) : Bytes :=
  composed.header d ++ [d.segment] ++ [d.segment].intercalate (composed.raws d) ++ [d.segment]

end Composed

/-- `_safe` for each of several values. -/
def safeAll (d : Delimiters) : List (Field × Bytes) → Except RenderError Unit
  | [] => .ok ()
  | (field, value) :: more => do
      let _ ← safe d field value
      safeAll d more

/-- The checks of the parameters and of the control fields. -/
def checkParameters (d : Delimiters) (parameters : List (Bytes × Bytes))
    (control : OutboundControl) : Except RenderError Unit :=
  safeAll d (parameters.map (fun p => (.parameter p.1, p.2)) ++
    control.fields.map fun p => (.control p.1, p.2))

/-- GS, the body and its SE, GE and IEA. -/
def enveloped (control : OutboundControl) (functionalId version : Bytes)
    (body : List (List Bytes)) : List (List Bytes) :=
  [[bytes "GS", functionalId, pyStrip control.senderId, pyStrip control.receiverId,
    control.dateCcyymmdd, control.timeHhmm, control.gsControl, bytes "X", version]] ++
    body ++
    [[bytes "SE", itoa (body.length + 1), control.stControl],
      [bytes "GE", bytes "1", control.gsControl], [bytes "IEA", bytes "1", control.isaControl]]

/-- `SUPPORTED_OUTBOUND`. -/
def supportedOutbound : List Bytes := [bytes "837", bytes "276"]

/-- The first segments of a `render_837` body. -/
def head837 (control : OutboundControl) (billingProviderNpi subscriberId transactionSet : Bytes) :
    List (List Bytes) :=
  [[bytes "ST", transactionSet, control.stControl],
    [bytes "NM1", bytes "85", bytes "2", bytes "BILLING PROVIDER", [], [], [], [], bytes "XX",
      billingProviderNpi],
    [bytes "NM1", bytes "IL", bytes "1", bytes "SUBSCRIBER", [], [], [], [], bytes "MI",
      subscriberId]]

/-- What `render_837` composes. -/
def compose837 (claims : List OutClaim) (control : OutboundControl)
    (billingProviderNpi subscriberId : Bytes) (d : Delimiters) (transactionSet : Bytes) :
    Except RenderError Composed :=
  if transactionSet ∉ supportedOutbound then .error (.unsupportedSet transactionSet)
  else if claims = [] then .error .noClaims
  else do
    checkParameters d
      [(bytes "billing_provider_npi", billingProviderNpi), (bytes "subscriber_id", subscriberId)]
      control
    let loops ← claims.mapM (claimSegments · d)
    let body := head837 control billingProviderNpi subscriberId transactionSet ++ loops.flatten
    let isa ← isa control d
    .ok { isa, segments := enveloped control (bytes "HC") (bytes "005010X222A1") body }

def render837 (claims : List OutClaim) (control : OutboundControl)
    (billingProviderNpi subscriberId : Bytes) (d : Delimiters) (transactionSet : Bytes) :
    Except RenderError Bytes :=
  (compose837 claims control billingProviderNpi subscriberId d transactionSet).map (·.text d)

/-! ## Status inquiries -/

/-- An inquiry. -/
structure Inquiry where
  claimId : Bytes
  payerClaimControlNumber : Bytes := []
  totalCharge : Bytes := []
  serviceDate : Bytes := []
  deriving DecidableEq

/-- A segment for a value that is there. -/
def optional (value : Bytes) (elements : List Bytes) : List (List Bytes) :=
  if value = [] then [] else [elements]

/-- The segments of one inquiry. -/
def inquirySegments (inquiry : Inquiry) (d : Delimiters) :
    Except RenderError (List (List Bytes)) :=
  let claimId := pyStrip inquiry.claimId
  let control := pyStrip inquiry.payerClaimControlNumber
  let charge := pyStrip inquiry.totalCharge
  let date := pyStrip inquiry.serviceDate
  if claimId = [] then .error .missingInquiry
  else do
    let claimId ← safe d .claimId claimId
    let control ← safe d (.ofInquiry claimId (bytes "payer_claim_control_number")) control
    let charge ← safe d (.ofInquiry claimId (bytes "total_charge")) charge
    let date ← safe d (.ofInquiry claimId (bytes "service_date")) date
    .ok ([[bytes "TRN", bytes "1", claimId]] ++
      optional control [bytes "REF", bytes "1K", control] ++
      optional charge [bytes "AMT", bytes "T3", charge] ++
      optional date [bytes "DTP", bytes "472", bytes "D8", date])

/-- Who asks whom about whom. -/
structure StatusParties where
  payerId : Bytes
  payerName : Bytes
  providerNpi : Bytes
  providerName : Bytes
  subscriberId : Bytes
  subscriberLast : Bytes
  subscriberFirst : Bytes
  deriving DecidableEq

/-- The first segments of a `render_276` body. -/
def head276 (control : OutboundControl) (p : StatusParties) : List (List Bytes) :=
  [[bytes "ST", bytes "276", control.stControl],
    [bytes "BHT", bytes "0010", bytes "13", control.stControl, control.dateCcyymmdd,
      control.timeHhmm],
    [bytes "NM1", bytes "PR", bytes "2", p.payerName, [], [], [], [], bytes "PI", p.payerId],
    [bytes "NM1", bytes "1P", bytes "2", p.providerName, [], [], [], [], bytes "XX",
      p.providerNpi],
    [bytes "NM1", bytes "IL", bytes "1", p.subscriberLast, p.subscriberFirst, [], [], [],
      bytes "MI", p.subscriberId]]

/-- What `render_276` composes. -/
def compose276 (inquiries : List Inquiry) (control : OutboundControl) (p : StatusParties)
    (d : Delimiters) : Except RenderError Composed :=
  if inquiries = [] then .error .noInquiries
  else do
    checkParameters d
      [(bytes "payer_id", p.payerId), (bytes "payer_name", p.payerName),
        (bytes "provider_npi", p.providerNpi), (bytes "provider_name", p.providerName),
        (bytes "subscriber_id", p.subscriberId), (bytes "subscriber_last", p.subscriberLast),
        (bytes "subscriber_first", p.subscriberFirst)]
      control
    let loops ← inquiries.mapM (inquirySegments · d)
    let body := head276 control p ++ loops.flatten
    let isa ← isa control d
    .ok { isa, segments := enveloped control (bytes "HR") (bytes "005010X212") body }

def render276 (inquiries : List Inquiry) (control : OutboundControl) (p : StatusParties)
    (d : Delimiters) : Except RenderError Bytes :=
  (compose276 inquiries control p d).map (·.text d)

/-! ## What is rendered -/

theorem mapM_ok {α β ε : Type} {f : α → Except ε β} {P : α → Prop} {g : α → β}
    (hf : ∀ a b, f a = .ok b → P a ∧ b = g a) {l : List α} {r : List β}
    (h : l.mapM f = .ok r) : (∀ a ∈ l, P a) ∧ r = l.map g := by
  induction l generalizing r with
  | nil => exact ⟨by simp, (Except.ok.inj h).symm⟩
  | cons a l ih =>
    rw [List.mapM_cons] at h
    obtain ⟨b, hb, h⟩ := bind_eq_ok.mp h
    obtain ⟨bs, hbs, h⟩ := bind_eq_ok.mp h
    obtain ⟨ha, rfl⟩ := hf a b hb
    obtain ⟨hl, rfl⟩ := ih hbs
    exact ⟨List.forall_mem_cons.mpr ⟨ha, hl⟩, (Except.ok.inj h).symm⟩

theorem padded_ok {fields : List (Bytes × Nat)} {out : List Bytes}
    (h : padded fields = .ok out) : out = fields.map fun f => ljust f.1 f.2 := by
  induction fields generalizing out with
  | nil => exact (Except.ok.inj h).symm
  | cons f fields ih =>
    obtain ⟨value, width⟩ := f
    rw [padded] at h
    split at h
    · cases h
    · obtain ⟨more, hmore, rfl⟩ := map_eq_ok.mp h
      rw [ih hmore]
      rfl

/-- The header that is rendered. -/
def isaElements (control : OutboundControl) (d : Delimiters) : List Bytes :=
  bytes "ISA" :: ((isaFields control d).zip isaWidths).map fun f => ljust f.1 f.2

variable {control : OutboundControl}

theorem isa_eq_ok {out : List Bytes} (h : isa control d = .ok out) :
    out = isaElements control d ∧ ([d.element].intercalate out).length = isaLen - 1 := by
  unfold isa at h
  obtain ⟨fields, hpadded, h⟩ := bind_eq_ok.mp h
  obtain rfl := padded_ok hpadded
  dsimp only at h
  split at h
  · cases h
  · rename_i hlen
    obtain rfl := Except.ok.inj h
    refine ⟨rfl, ?_⟩
    rw [not_not, List.length_append] at hlen
    exact Nat.eq_sub_of_add_eq hlen

namespace ServiceLine

/-- The line can be transmitted. -/
structure Sound (d : Delimiters) (line : ServiceLine) : Prop where
  procedureCode : Safe d (pyStrip line.procedureCode)
  charge : Safe d (pyStrip line.charge)

/-- The segments of a line. -/
def elements (d : Delimiters) (idx : Nat) (line : ServiceLine) : List (List Bytes) :=
  lineElements d idx (pyStrip line.procedureCode) (pyStrip line.charge)

end ServiceLine

/-- The segments of all lines, numbered from `idx` on. -/
def linesElements (d : Delimiters) : Nat → List ServiceLine → List (List Bytes)
  | _, [] => []
  | idx, line :: lines => line.elements d idx ++ linesElements d (idx + 1) lines

theorem lineSegments_ok {claimId : Bytes} {idx : Nat} {lines : List ServiceLine}
    (h : lineSegments claimId d idx lines = .ok segs) :
    (∀ line ∈ lines, line.Sound d) ∧ segs = linesElements d idx lines := by
  induction lines generalizing idx segs with
  | nil => exact ⟨by simp, (Except.ok.inj h).symm⟩
  | cons line lines ih =>
    unfold lineSegments at h
    dsimp only at h
    split at h
    · cases h
    · simp only [bind_eq_ok, safe_eq_ok] at h
      obtain ⟨_, ⟨hproc, rfl⟩, _, ⟨hcharge, rfl⟩, more, hmore, h⟩ := h
      obtain ⟨hlines, rfl⟩ := ih hmore
      obtain rfl := Except.ok.inj h
      exact ⟨List.forall_mem_cons.mpr ⟨⟨hproc, hcharge⟩, hlines⟩, rfl⟩

namespace OutClaim

/-- The claim can be transmitted. -/
structure Sound (d : Delimiters) (claim : OutClaim) : Prop where
  claimId : Safe d (pyStrip claim.claimId)
  totalCharge : Safe d (pyStrip claim.totalCharge)
  place : Safe d claim.place
  diagnoses : ∀ code ∈ claim.diagnoses, Safe d code
  serviceLines : ∀ line ∈ claim.serviceLines, line.Sound d

/-- The segments of a claim. -/
def elements (d : Delimiters) (claim : OutClaim) : List (List Bytes) :=
  clmElements d (pyStrip claim.claimId) (pyStrip claim.totalCharge) claim.place ::
    hiElements d claim.diagnoses ++ linesElements d 1 claim.serviceLines

end OutClaim

theorem claimSegments_ok {claim : OutClaim}
    (h : claimSegments claim d = .ok segs) : claim.Sound d ∧ segs = claim.elements d := by
  have hcode : ∀ field code r, safe d field code = .ok r → Safe d code ∧ r = id code :=
    fun field code r => safe_eq_ok.mp
  unfold claimSegments at h
  dsimp only at h
  split at h
  · cases h
  · simp only [bind_eq_ok, safe_eq_ok] at h
    obtain ⟨_, ⟨hid, rfl⟩, h⟩ := h
    split at h
    · cases h
    · simp only [bind_eq_ok, safe_eq_ok] at h
      obtain ⟨_, ⟨hcharge, rfl⟩, _, ⟨hplace, rfl⟩, codes, hcodes, lines, hlines, h⟩ := h
      obtain ⟨hdiagnoses, rfl⟩ := mapM_ok (hcode _) hcodes
      rw [List.map_id] at h
      obtain ⟨hsound, rfl⟩ := lineSegments_ok hlines
      exact ⟨⟨hid, hcharge, hplace, hdiagnoses, hsound⟩, (Except.ok.inj h).symm⟩

theorem safeAll_ok {values : List (Field × Bytes)}
    (h : safeAll d values = .ok ()) : ∀ v ∈ values, Safe d v.2 := by
  induction values with
  | nil => simp
  | cons v values ih =>
    obtain ⟨field, value⟩ := v
    simp only [safeAll, bind_eq_ok, safe_eq_ok] at h
    obtain ⟨_, ⟨hvalue, rfl⟩, h⟩ := h
    exact List.forall_mem_cons.mpr ⟨hvalue, ih h⟩

theorem checkParameters_ok {parameters : List (Bytes × Bytes)}
    (h : checkParameters d parameters control = .ok ()) :
    (∀ p ∈ parameters, Safe d p.2) ∧ ∀ p ∈ control.fields, Safe d p.2 := by
  have hall := safeAll_ok h
  simp only [List.mem_append, List.mem_map] at hall
  exact ⟨fun p hp => hall (.parameter p.1, p.2) (Or.inl ⟨p, hp, rfl⟩),
    fun p hp => hall (.control p.1, p.2) (Or.inr ⟨p, hp, rfl⟩)⟩

/-- The body of an interchange of claims. -/
def body837 (claims : List OutClaim) (control : OutboundControl)
    (billingProviderNpi subscriberId : Bytes) (d : Delimiters) (transactionSet : Bytes) :
    List (List Bytes) :=
  head837 control billingProviderNpi subscriberId transactionSet ++
    claims.flatMap (OutClaim.elements d)

theorem compose837_ok {claims : List OutClaim}
    {billingProviderNpi subscriberId : Bytes} {transactionSet : Bytes} {composed : Composed}
    (h : compose837 claims control billingProviderNpi subscriberId d transactionSet =
      .ok composed) :
    (Safe d billingProviderNpi ∧ Safe d subscriberId ∧ (∀ p ∈ control.fields, Safe d p.2) ∧
        ∀ claim ∈ claims, claim.Sound d) ∧
      (composed.header d).length = isaLen - 1 ∧
      composed =
        { isa := isaElements control d
          segments := enveloped control (bytes "HC") (bytes "005010X222A1")
            (body837 claims control billingProviderNpi subscriberId d transactionSet) } := by
  unfold compose837 at h
  split at h
  · cases h
  · split at h
    · cases h
    · simp only [bind_eq_ok] at h
      obtain ⟨_, hcheck, loops, hloops, header, hheader, h⟩ := h
      obtain ⟨hparameters, hcontrol⟩ := checkParameters_ok hcheck
      obtain ⟨hclaims, rfl⟩ := mapM_ok (fun claim _ => claimSegments_ok) hloops
      obtain ⟨rfl, hlength⟩ := isa_eq_ok hheader
      obtain rfl := Except.ok.inj h
      simp only [List.forall_mem_cons] at hparameters
      refine ⟨⟨hparameters.1, hparameters.2.1, hcontrol, hclaims⟩, hlength, ?_⟩
      rw [body837, List.flatMap_def]

namespace Inquiry

/-- What is checked of an inquiry. -/
structure Sound (d : Delimiters) (inquiry : Inquiry) : Prop where
  claimId : Safe d (pyStrip inquiry.claimId)
  payerClaimControlNumber : Safe d (pyStrip inquiry.payerClaimControlNumber)
  totalCharge : Safe d (pyStrip inquiry.totalCharge)
  serviceDate : Safe d (pyStrip inquiry.serviceDate)

/-- The segments of an inquiry. -/
def elements (inquiry : Inquiry) : List (List Bytes) :=
  [[bytes "TRN", bytes "1", pyStrip inquiry.claimId]] ++
    optional (pyStrip inquiry.payerClaimControlNumber)
      [bytes "REF", bytes "1K", pyStrip inquiry.payerClaimControlNumber] ++
    optional (pyStrip inquiry.totalCharge) [bytes "AMT", bytes "T3", pyStrip inquiry.totalCharge] ++
    optional (pyStrip inquiry.serviceDate)
      [bytes "DTP", bytes "472", bytes "D8", pyStrip inquiry.serviceDate]

end Inquiry

theorem inquirySegments_ok {inquiry : Inquiry}
    (h : inquirySegments inquiry d = .ok segs) : inquiry.Sound d ∧ segs = inquiry.elements := by
  unfold inquirySegments at h
  dsimp only at h
  split at h
  · cases h
  · simp only [bind_eq_ok, safe_eq_ok] at h
    obtain ⟨_, ⟨hid, rfl⟩, _, ⟨hcontrol, rfl⟩, _, ⟨hcharge, rfl⟩, _, ⟨hdate, rfl⟩, h⟩ := h
    exact ⟨⟨hid, hcontrol, hcharge, hdate⟩, (Except.ok.inj h).symm⟩

/-- The parameters of `render_276`. -/
def StatusParties.values (p : StatusParties) : List Bytes :=
  [p.payerId, p.payerName, p.providerNpi, p.providerName, p.subscriberId, p.subscriberLast,
    p.subscriberFirst]

theorem compose276_ok {inquiries : List Inquiry} {p : StatusParties} {composed : Composed}
    (h : compose276 inquiries control p d = .ok composed) :
    ((∀ value ∈ p.values, Safe d value) ∧ (∀ p ∈ control.fields, Safe d p.2) ∧
        ∀ inquiry ∈ inquiries, inquiry.Sound d) ∧
      (composed.header d).length = isaLen - 1 ∧
      composed =
        { isa := isaElements control d
          segments := enveloped control (bytes "HR") (bytes "005010X212")
            (head276 control p ++ inquiries.flatMap Inquiry.elements) } := by
  unfold compose276 at h
  split at h
  · cases h
  · simp only [bind_eq_ok] at h
    obtain ⟨_, hcheck, loops, hloops, header, hheader, h⟩ := h
    obtain ⟨hparameters, hcontrol⟩ := checkParameters_ok hcheck
    obtain ⟨hinquiries, rfl⟩ := mapM_ok (fun inquiry _ => inquirySegments_ok) hloops
    obtain ⟨rfl, hlength⟩ := isa_eq_ok hheader
    obtain rfl := Except.ok.inj h
    refine ⟨⟨?_, hcontrol, hinquiries⟩, hlength, by rw [List.flatMap_def]⟩
    simp only [List.forall_mem_cons] at hparameters
    simp only [StatusParties.values, List.forall_mem_cons]
    exact ⟨hparameters.1, hparameters.2.1, hparameters.2.2.1, hparameters.2.2.2.1,
      hparameters.2.2.2.2.1, hparameters.2.2.2.2.2.1, hparameters.2.2.2.2.2.2.1, by simp⟩

end Windrose.X12

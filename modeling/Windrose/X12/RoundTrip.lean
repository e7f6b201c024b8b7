/-
  X12/RoundTrip.lean --- what is rendered is read back.

  The interchange that `render_837` composes is an `Interchange` whose envelopes are
  closed, so the decoder accepts it when it fits the caps that only the decoder has; its
  one transaction holds the claims, and `claims_rows` says what the handler makes of
  them.
-/
import Windrose.Foundation.Time
import Windrose.X12.Composed
import Windrose.X12.Envelopes

set_option autoImplicit false

namespace Windrose.X12

open Windrose.Foundation

/-- A segment of a rendered interchange, as it is read. -/
abbrev readBack (elements : List Bytes) : Segment := Segment.ofElements defaultDelimiters elements

section Segments

variable {tag : Bytes} {rest : List Bytes}

theorem tag_readBack (h : Clean defaultDelimiters (tag :: rest)) :
    (readBack (tag :: rest)).tag = pyStrip tag :=
  h.elStrip plain_defaultDelimiters 0

theorem kind_readBack (h : Clean defaultDelimiters (tag :: rest)) :
    (readBack (tag :: rest)).kind = Kind.ofTag (pyStrip tag) := by
  unfold Segment.kind
  rw [tag_readBack h]

end Segments

theorem delims_readBack (elements : List Bytes) :
    (readBack elements).delims = defaultDelimiters := rfl

/-! ## The claims of a transaction -/

theorem bodyRows_append (env : Envelope) (h : Handler) (segs more : List Segment) :
    bodyRows env h (segs ++ more) =
      ((bodyRows env (bodyRows env h segs).1 more).1,
        (bodyRows env h segs).2 ++ (bodyRows env (bodyRows env h segs).1 more).2) := by
  induction segs generalizing h with
  | nil => rfl
  | cons seg segs ih => simp only [List.cons_append, bodyRows, ih, List.append_assoc]

/-- What a claim becomes, with these raw segments. -/
def OutClaim.read (claim : OutClaim) (raw : List Bytes) : Claim :=
  { claimId := pyStrip claim.claimId
    totalCharge := pyStrip claim.totalCharge
    placeOfService := pyStrip claim.place
    diagnosisCodes := claim.diagnoses
    serviceLines := claim.serviceLines.length
    raw }

/-- The handler with the claim `c` in flight. -/
def ClaimHandler.holding (h : ClaimHandler) (c : Claim) : ClaimHandler := { h with claim := some c }

variable {claim : OutClaim}

section Claims

variable (env : Envelope) (h : ClaimHandler) (c : Claim) {seg : Segment}

theorem bodyRow_fed (hkind : seg.kind = .data) :
    bodyRow env (.claim h) seg = (.claim (h.feed env seg).1, (h.feed env seg).2) := by
  have hne : ¬ seg.kind = .ta1 := by
    rw [hkind]
    decide
  rw [bodyRow, if_neg hne]
  rfl

theorem dropLast_row (claim : OutClaim) (raw : List Bytes) :
    (∀ c', ((h.holding c').row env c).dropLast = (h.row env c).dropLast) ∧
      (h.row env (claim.read raw)).dropLast = (h.row env (claim.read [])).dropLast :=
  ⟨fun _ => rfl, rfl⟩

theorem feed_clm (htag : seg.tag = bytes "CLM") :
    (h.feed env seg).1 = h.holding (ClaimHandler.opened seg) ∧
      (h.feed env seg).2.map List.dropLast = h.claim.toList.map fun c =>
      (h.row env c).dropLast := by
  unfold ClaimHandler.feed
  simp only [htag, if_true]
  cases hclaim : h.claim with
  | none => exact ⟨rfl, rfl⟩
  | some c => exact ⟨rfl, rfl⟩

theorem feed_hi (htag : seg.tag = bytes "HI") : ∃ raw, (h.holding c).feed env seg =
      (h.holding
        { c with
          raw
          diagnosisCodes :=
            c.diagnosisCodes ++ (seg.elements.drop 1).filterMap (diagnosisCode seg.delims) },
        []) := by
  refine ⟨keepRaw c.raw seg, ?_⟩
  simp +decide only [ClaimHandler.feed, ClaimHandler.holding, htag, if_false, if_true,
    Option.map_some]

theorem feed_lx (htag : seg.tag = bytes "LX") :
    ∃ raw, (h.holding c).feed env seg = (h.holding { c with raw }, []) := by
  refine ⟨keepRaw c.raw seg, ?_⟩
  simp +decide only [ClaimHandler.feed, ClaimHandler.holding, htag, if_false, Option.map_some]

theorem feed_sv1 (htag : seg.tag = bytes "SV1") : ∃ raw, (h.holding c).feed env seg =
      (h.holding { c with raw, serviceLines := c.serviceLines + 1 }, []) := by
  refine ⟨keepRaw c.raw seg, ?_⟩
  simp +decide only [ClaimHandler.feed, ClaimHandler.holding, htag, if_false, if_true,
    Option.map_some]

theorem bodyRow_nm1 {rest : List Bytes} (qualifier id : Bytes)
    (hclean : Clean defaultDelimiters (bytes "NM1" :: rest)) (hclaim : h.claim = none)
    (hqualifier : pyStrip (rest.getD 0 []) = qualifier) (hid : rest.getD 8 [] = id) :
    bodyRow env (.claim h) (readBack (bytes "NM1" :: rest)) =
      (.claim (if qualifier = bytes "85" then { h with billingNpi := pyStrip id }
        else if qualifier = bytes "IL" then { h with subscriberId := pyStrip id } else h), []) := by
  have hclm : ¬ bytes "NM1" = bytes "CLM" := by decide
  have hq : (readBack (bytes "NM1" :: rest)).elStrip 1 = qualifier := by
    rw [hclean.elStrip plain_defaultDelimiters, List.getD_cons_succ, hqualifier]
  have h9 : (readBack (bytes "NM1" :: rest)).elStrip 9 = pyStrip id := by
    rw [hclean.elStrip plain_defaultDelimiters, List.getD_cons_succ, hid]
  have htag : (readBack (bytes "NM1" :: rest)).tag = bytes "NM1" := tag_readBack hclean
  obtain ⟨claim, npi, subscriber⟩ := h
  dsimp only at hclaim
  subst hclaim
  rw [bodyRow_fed env _ (kind_readBack hclean)]
  simp only [ClaimHandler.feed, htag, hclm, hq, h9, if_false, if_true, Option.map_none]
  split
  · rfl
  · split <;> rfl

theorem bodyRows_lines (idx : Nat) {lines : List ServiceLine}
    (hsound : ∀ line ∈ lines, line.Sound defaultDelimiters) :
    ∃ raw, bodyRows env (.claim (h.holding c))
        ((linesElements defaultDelimiters idx lines).map readBack) =
      (.claim (h.holding { c with raw, serviceLines := c.serviceLines + lines.length }), []) := by
  induction lines generalizing c idx with
  | nil => exact ⟨c.raw, rfl⟩
  | cons line lines ih =>
    have hclean : ∀ elements ∈ linesElements defaultDelimiters idx (line :: lines),
        Clean defaultDelimiters elements := clean_linesElements hsound
    have hlx := hclean [bytes "LX", itoa idx] (by simp [linesElements, ServiceLine.elements,
      lineElements])
    have hsv1 := hclean _ (by
      simp only [linesElements, ServiceLine.elements, lineElements]
      exact List.mem_cons_of_mem _ List.mem_cons_self)
    obtain ⟨raw, hfeedLx⟩ := feed_lx env h c (tag_readBack hlx)
    obtain ⟨raw', hfeedSv1⟩ := feed_sv1 env h { c with raw } (tag_readBack hsv1)
    obtain ⟨raw'', hrest⟩ := ih { c with raw := raw', serviceLines := c.serviceLines + 1 } (idx + 1)
      fun line hline => hsound line (List.mem_cons_of_mem _ hline)
    refine ⟨raw'', ?_⟩
    simp only [linesElements, ServiceLine.elements, lineElements, List.cons_append,
      List.nil_append, List.map_cons, bodyRows, bodyRow_fed env _ (kind_readBack hlx),
      bodyRow_fed env _ (kind_readBack hsv1), hfeedLx, hfeedSv1, hrest, List.length_cons]
    rw [Nat.add_assoc, Nat.add_comm 1]

/-- A code that is transmitted: it is not blank, and has no white space around it. -/
structure Code (code : Bytes) : Prop where
  safe : Safe defaultDelimiters code
  ne_nil : code ≠ []
  strip : pyStrip code = code

theorem OutClaim.Sound.code (hsound : claim.Sound defaultDelimiters)
    {code : Bytes} (hcode : code ∈ claim.diagnoses) : Code code := by
  have hsafe := hsound.diagnoses code hcode
  unfold OutClaim.diagnoses at hcode
  obtain ⟨hmem, hne⟩ := List.mem_filter.mp hcode
  obtain ⟨x, -, rfl⟩ := List.mem_map.mp hmem
  exact ⟨hsafe, by simpa using hne, strip_strip isWhite x⟩

theorem Code.component {code : Bytes} (hcode : Code code) (qualifier : Bytes)
    (hqualifier : defaultDelimiters.component ∉ qualifier) : diagnosisCode defaultDelimiters
        ([defaultDelimiters.component].intercalate [qualifier, code]) = some code ∧
      ∀ c ∈ ([defaultDelimiters.component].intercalate [qualifier, code]).getLast?,
        isLineEnd c = false := by
  have hfree : defaultDelimiters.component ∉ code :=
    hcode.safe defaultDelimiters.component (by simp [reserved])
  constructor
  · have hsplit : ([defaultDelimiters.component].intercalate [qualifier, code]).splitOn
        defaultDelimiters.component = [qualifier, code] := by
      apply List.splitOn_intercalate
      · simp only [List.forall_mem_cons]
        exact ⟨hqualifier, hfree, by simp⟩
      · exact List.cons_ne_nil _ _
    have hne : pyStrip code ≠ [] := by
      rw [hcode.strip]
      exact hcode.ne_nil
    unfold diagnosisCode
    dsimp only
    rw [hsplit]
    exact (if_pos ⟨le_rfl, hne⟩).trans (congrArg some hcode.strip)
  · intro c hc
    have hlast : ([defaultDelimiters.component].intercalate [qualifier, code]).getLast? =
        code.getLast? := by
      rw [List.intercalate_cons_cons, List.intercalate_singleton,
        List.getLast?_append_of_ne_nil _ hcode.ne_nil]
    rw [hlast, ← hcode.strip] at hc
    have hwhite := not_of_getLast_strip hc
    cases hend : isLineEnd c with
    | false => rfl
    | true =>
      rw [isWhite_of_isLineEnd c hend] at hwhite
      cases hwhite

theorem bodyRows_hi {codes : List Bytes} (hcodes : ∀ code ∈ codes, Code code) :
    ∃ raw, bodyRows env (.claim (h.holding c))
        ((hiElements defaultDelimiters codes).map readBack) =
      (.claim (h.holding { c with raw, diagnosisCodes := c.diagnosisCodes ++ codes }), []) := by
  cases codes with
  | nil => exact ⟨c.raw, by simp [hiElements, bodyRows]⟩
  | cons principal codes =>
    obtain ⟨hprincipal, hcodes'⟩ := List.forall_mem_cons.mp hcodes
    have hclean := clean_hiElements fun code hcode => (hcodes code hcode).safe.free
    have hhi := hclean _ List.mem_cons_self
    obtain ⟨hfirst, hfirstEnd⟩ := hprincipal.component (bytes "ABK") (by decide)
    have hmore := fun code hcode => (hcodes' code hcode).component (bytes "ABF") (by decide)
    have hexact := hhi.elements_exact plain_defaultDelimiters (by
      intro last hlast
      have hmem := List.mem_of_getLast? hlast
      simp only [List.mem_cons, List.mem_map] at hmem
      obtain rfl | rfl | ⟨code, hcode, rfl⟩ := hmem
      · decide +kernel
      · exact hfirstEnd
      · exact (hmore code hcode).2)
    obtain ⟨raw, hfeed⟩ := feed_hi env h c (tag_readBack hhi)
    have hread : (codes.map fun code =>
          [defaultDelimiters.component].intercalate [bytes "ABF", code]).filterMap
        (diagnosisCode defaultDelimiters) = codes := by
      rw [List.filterMap_map]
      conv_rhs => rw [← List.filterMap_some (l := codes)]
      exact List.filterMap_congr fun code hcode => (hmore code hcode).1
    refine ⟨raw, ?_⟩
    simp only [hiElements, List.map_cons, List.map_nil, bodyRows,
      bodyRow_fed env _ (kind_readBack hhi), hfeed, hexact, delims_readBack, List.drop_one,
      List.tail_cons, List.append_nil, List.filterMap_cons_some hfirst, hread]

/-- The CLM segment of a claim. -/
abbrev OutClaim.clm (claim : OutClaim) : List Bytes :=
  clmElements defaultDelimiters (pyStrip claim.claimId) (pyStrip claim.totalCharge) claim.place

theorem opened_clm (hsound : claim.Sound defaultDelimiters)
    (hclean : Clean defaultDelimiters claim.clm) :
    ∃ raw, ClaimHandler.opened (readBack claim.clm) =
      { claimId := pyStrip claim.claimId
        totalCharge := pyStrip claim.totalCharge
        placeOfService := pyStrip claim.place
        raw } := by
  have hfree : defaultDelimiters.component ∉ claim.place :=
    hsound.place defaultDelimiters.component (by simp [reserved])
  have hplace : (readBack claim.clm).el 5 =
      [defaultDelimiters.component].intercalate [claim.place, bytes "B", bytes "1"] := by
    unfold Segment.el
    rw [hclean.elements_exact plain_defaultDelimiters]
    · rfl
    · intro last hlast c hc
      have hlast : last = [defaultDelimiters.component].intercalate
          [claim.place, bytes "B", bytes "1"] := (Option.some.inj hlast).symm
      have hend : ([defaultDelimiters.component].intercalate
          [claim.place, bytes "B", bytes "1"]).getLast? = some 49 := by
        rw [List.intercalate_cons_cons, List.getLast?_append_of_ne_nil _ (by decide)]
        decide
      rw [hlast, hend] at hc
      obtain rfl := Option.some.inj hc
      decide
  have hsplit : ([defaultDelimiters.component].intercalate
      [claim.place, bytes "B", bytes "1"]).splitOn defaultDelimiters.component =
        [claim.place, bytes "B", bytes "1"] := by
    apply List.splitOn_intercalate
    · simp only [List.forall_mem_cons]
      exact ⟨hfree, by decide, by decide, by simp⟩
    · exact List.cons_ne_nil _ _
  have hid := (hclean.elStrip plain_defaultDelimiters 1).trans
    (strip_strip isWhite claim.claimId)
  have hcharge := (hclean.elStrip plain_defaultDelimiters 2).trans
    (strip_strip isWhite claim.totalCharge)
  refine ⟨[(readBack claim.clm).raw], ?_⟩
  unfold ClaimHandler.opened
  rw [hid, hcharge, hplace, delims_readBack, hsplit]
  rfl

theorem bodyRows_claim (hsound : claim.Sound defaultDelimiters) :
    ∃ raw rows, bodyRows env (.claim h) ((claim.elements defaultDelimiters).map readBack) =
        (.claim (h.holding (claim.read raw)), rows) ∧
      rows.map List.dropLast = h.claim.toList.map fun c => (h.row env c).dropLast := by
  have hclm := hsound.clean _ List.mem_cons_self
  have htag : (readBack claim.clm).tag = bytes "CLM" := tag_readBack hclm
  have hkind : (readBack claim.clm).kind = .data := kind_readBack hclm
  obtain ⟨raw, hopened⟩ := opened_clm hsound hclm
  obtain ⟨hfeed, hrows⟩ := feed_clm env h htag
  rw [hopened] at hfeed
  obtain ⟨raw', hhi⟩ := bodyRows_hi env h
    { claimId := pyStrip claim.claimId
      totalCharge := pyStrip claim.totalCharge
      placeOfService := pyStrip claim.place
      raw } fun code => hsound.code
  obtain ⟨raw'', hlines⟩ := bodyRows_lines env h
    { claimId := pyStrip claim.claimId
      totalCharge := pyStrip claim.totalCharge
      placeOfService := pyStrip claim.place
      diagnosisCodes := claim.diagnoses
      raw := raw' } 1 hsound.serviceLines
  refine ⟨raw'', _, ?_, hrows⟩
  rw [List.nil_append] at hhi
  simp only [OutClaim.elements, List.cons_append, List.map_cons, List.map_append, bodyRows,
    bodyRow_fed env h hkind, hfeed, bodyRows_append, hhi, hlines, List.append_nil,
    Nat.zero_add]
  rfl

theorem claims_rows {claims : List OutClaim}
    (hsound : ∀ claim ∈ claims, claim.Sound defaultDelimiters) : ∃ h' rows, bodyRows env (.claim h)
        ((claims.flatMap (OutClaim.elements defaultDelimiters)).map readBack) =
        (.claim h', rows) ∧
      (rows ++ (h'.flush env).2).map List.dropLast =
        (h.claim.toList ++ claims.map fun claim => claim.read []).map fun c =>
        (h.row env c).dropLast := by
  induction claims generalizing h with
  | nil =>
    refine ⟨h, [], rfl, ?_⟩
    cases hclaim : h.claim with
    | none => simp [ClaimHandler.flush, hclaim]
    | some c => simp [ClaimHandler.flush, hclaim]
  | cons claim claims ih =>
    obtain ⟨hclaim, hclaims⟩ := List.forall_mem_cons.mp hsound
    obtain ⟨raw, rows, hbody, hrows⟩ := bodyRows_claim env h hclaim
    obtain ⟨h', rows', hbody', hrows'⟩ := ih (h.holding (claim.read raw)) hclaims
    refine ⟨h', rows ++ rows', ?_, ?_⟩
    · simp only [List.flatMap_cons, List.map_append, bodyRows_append, hbody, hbody']
    · have hheld := fun c => (dropLast_row env h c claim raw).1 (claim.read raw)
      have hraw := (dropLast_row env h (claim.read []) claim raw).2
      have hflight : (h.holding (claim.read raw)).claim.toList = [claim.read raw] := rfl
      rw [List.append_assoc, List.map_append, hrows, hrows', hflight]
      simp only [hheld, List.map_append, List.map_cons, hraw, List.cons_append, List.nil_append]

end Claims

/-! ## The interchange -/

theorem kind_claim (hsound : claim.Sound defaultDelimiters) :
    ∀ elements ∈ claim.elements defaultDelimiters, (readBack elements).kind = .data := by
  have hlines : ∀ (lines : List ServiceLine) (idx : Nat),
      ∀ elements ∈ linesElements defaultDelimiters idx lines,
        ∃ tag rest, elements = tag :: rest ∧ Kind.ofTag (pyStrip tag) = .data := by
    intro lines
    induction lines with
    | nil => simp [linesElements]
    | cons line lines ih =>
      intro idx elements helements
      simp only [linesElements, ServiceLine.elements, lineElements, List.mem_append,
        List.mem_cons, List.not_mem_nil, or_false] at helements
      obtain (rfl | rfl) | helements := helements
      · exact ⟨_, _, rfl, by decide⟩
      · exact ⟨_, _, rfl, by decide⟩
      · exact ih (idx + 1) elements helements
  have hhi : ∀ codes, ∀ elements ∈ hiElements defaultDelimiters codes,
      ∃ tag rest, elements = tag :: rest ∧ Kind.ofTag (pyStrip tag) = .data := by
    intro codes elements helements
    cases codes with
    | nil => cases helements
    | cons principal codes =>
      obtain rfl := List.mem_singleton.mp helements
      exact ⟨_, _, rfl, by decide⟩
  intro elements helements
  have hclean := hsound.clean elements helements
  have htag : ∃ tag rest, elements = tag :: rest ∧ Kind.ofTag (pyStrip tag) = .data := by
    obtain helements | helements := List.mem_append.mp helements
    · obtain rfl | helements := List.mem_cons.mp helements
      · exact ⟨_, _, rfl, by decide⟩
      · exact hhi _ elements helements
    · exact hlines _ 1 elements helements
  obtain ⟨tag, rest, rfl, hkind⟩ := htag
  rw [kind_readBack hclean, hkind]

theorem pyInt_itoa {n : Nat} (hn : n < 1000000000) :
    isdigit (pyStrip (itoa n)) = true ∧ pyInt (pyStrip (itoa n)) = some n := by
  have hdigit : ∀ c ∈ itoa n, isDigit c = true := fun c hc => isDigit_of_mem_itoa hc
  have hwhite : ∀ c ∈ itoa n, isWhite c = false := by
    intro c hc
    have hc := hdigit c hc
    unfold isDigit at hc
    unfold isWhite
    grind
  have hstrip : pyStrip (itoa n) = itoa n :=
    strip_eq_self (fun c hc => hwhite c (List.mem_of_head? hc))
      fun c hc => hwhite c (List.mem_of_getLast? hc)
  have hall : (itoa n).all isDigit = true := List.all_eq_true.mpr hdigit
  have hlength : (itoa n).length ≤ maxStrDigits := (length_itoa_le hn).trans (by decide)
  rw [hstrip]
  constructor
  · simp only [isdigit, itoa_ne_nil, ne_eq, not_false_eq_true, decide_true, Bool.true_and,
      List.all_eq_true, Bool.or_eq_true]
    exact fun c hc => Or.inl (hdigit c hc)
  · simp [pyInt, hall, hlength]

/-- The row that a rendered claim should have, up to its raw segments. -/
def transmitted (control : OutboundControl) (billingProviderNpi subscriberId : Bytes)
    (claim : OutClaim) : Row :=
  [.text (pyStrip control.isaControl), .text (pyStrip control.gsControl),
    .text (pyStrip control.stControl), .text (bytes "837"), .text (pyStrip control.senderId),
    .text (pyStrip control.receiverId), .text (pyStrip claim.claimId),
    .text (pyStrip claim.totalCharge), .text (pyStrip claim.place),
    .text (pyStrip billingProviderNpi), .text (pyStrip subscriberId), joined 44 claim.diagnoses,
    .count claim.serviceLines.length, .text (bytes "ISA/GS/ST(837)/2300")]

section Interchange

variable {claims : List OutClaim} {control : OutboundControl}
  {billingProviderNpi subscriberId : Bytes}

/-- The envelope that a rendered claim is read in. -/
def readEnvelope (control : OutboundControl) : Envelope :=
  { isa13 := pyStrip control.isaControl
    isa06 := pyStrip control.senderId
    isa08 := pyStrip control.receiverId
    gs06 := pyStrip control.gsControl
    st01 := bytes "837"
    st02 := pyStrip control.stControl }

theorem rowsOf_single {i : X12.Interchange} {g : Group} {t : Transaction} {h : Handler}
    {env : Envelope} (hparts : i.parts = [.group g]) (hpieces : g.pieces = [.transaction t])
    (hlookup : handlers.lookup (t.st.elStrip 1) = some h) (henv : ({ ({ ({} : Envelope) with
        isa06 := i.isa.elStrip 6, isa08 := i.isa.elStrip 8, isa13 := i.isa.elStrip 13 } : Envelope)
      with gs06 := g.gs.elStrip 6, st01 := t.st.elStrip 1, st02 := t.st.elStrip 2 } : Envelope) =
      env) :
    rowsOf [i] = (bodyRows env h t.body).2 ++ ((bodyRows env h t.body).1.flush env).2 := by
  subst henv
  simp only [rowsOf, collect, Interchange.out, hparts, Part.out, Group.out, hpieces, Piece.out,
    Transaction.out, hlookup, List.append_nil]

variable (hcontrol : ∀ p ∈ control.fields, Safe defaultDelimiters p.2)
  (hnpi : Safe defaultDelimiters billingProviderNpi)
  (hsubscriber : Safe defaultDelimiters subscriberId)
  (hclaims : ∀ claim ∈ claims, claim.Sound defaultDelimiters)
include hcontrol hnpi hsubscriber hclaims

theorem body_rows : ∃ h rows, bodyRows (readEnvelope control) (.claim {})
        ((body837 claims control billingProviderNpi subscriberId defaultDelimiters
          (bytes "837")).tail.map readBack) = (h, rows) ∧
      (rows ++ (h.flush (readEnvelope control)).2).map List.dropLast =
        claims.map (transmitted control billingProviderNpi subscriberId) := by
  have hclean := clean_body837 hcontrol hnpi hsubscriber hclaims
  have hprovider := bodyRow_nm1 (readEnvelope control) {} (bytes "85") billingProviderNpi
    (hclean [bytes "NM1", bytes "85", bytes "2", bytes "BILLING PROVIDER", [], [], [], [],
      bytes "XX", billingProviderNpi] (by simp [body837, head837])) rfl
    (by decide : pyStrip (bytes "85") = _) rfl
  have hperson := bodyRow_nm1 (readEnvelope control)
    { billingNpi := pyStrip billingProviderNpi } (bytes "IL") subscriberId
    (hclean [bytes "NM1", bytes "IL", bytes "1", bytes "SUBSCRIBER", [], [], [], [], bytes "MI",
      subscriberId] (by simp [body837, head837])) rfl (by decide : pyStrip (bytes "IL") = _) rfl
  rw [if_pos rfl] at hprovider
  rw [if_neg (by decide), if_pos rfl] at hperson
  obtain ⟨h, rows, hrun, hrows⟩ := claims_rows (readEnvelope control)
    { billingNpi := pyStrip billingProviderNpi, subscriberId := pyStrip subscriberId } hclaims
  refine ⟨.claim h, rows, ?_, ?_⟩
  · simp only [body837, head837, List.cons_append, List.nil_append, List.tail_cons, List.map_cons,
      bodyRows]
    rw [hprovider]
    dsimp only
    rw [hperson]
    exact congrArg (fun r => (r.1, [] ++ ([] ++ r.2))) hrun
  · rw [show (Handler.claim h).flush (readEnvelope control) =
        (.claim (h.flush (readEnvelope control)).1, (h.flush (readEnvelope control)).2) from rfl,
      hrows, Option.toList_none, List.nil_append, List.map_map]
    rfl

theorem kind_body :
    ∀ elements ∈ (body837 claims control billingProviderNpi subscriberId defaultDelimiters
      (bytes "837")).tail, (readBack elements).kind = .data := by
  have hclean := clean_body837 hcontrol hnpi hsubscriber hclaims
  intro elements helements
  have hmem := hclean elements (List.mem_of_mem_tail helements)
  simp only [body837, head837, List.cons_append, List.nil_append, List.tail_cons,
    List.mem_cons] at helements
  obtain rfl | rfl | helements := helements
  · exact kind_readBack hmem
  · exact kind_readBack hmem
  · obtain ⟨claim, hclaim, helements⟩ := List.mem_flatMap.mp helements
    exact kind_claim (hclaims claim hclaim) elements helements

/-- A rendered interchange has closed envelopes and the rows of its claims. -/
theorem interchange_837 (hcount : (body837 claims control billingProviderNpi subscriberId
    defaultDelimiters
      (bytes "837")).length + 1 < 1000000000) :
    ∃ i : Interchange,
      i.segments = Segment.ofRaw defaultDelimiters
          (joinElements defaultDelimiters (isaElements control defaultDelimiters)) ::
        (enveloped control (bytes "HC") (bytes "005010X222A1")
          (body837 claims control billingProviderNpi subscriberId defaultDelimiters
            (bytes "837"))).map readBack ∧
      i.Closed ∧
      (rowsOf [i]).map List.dropLast =
        claims.map (transmitted control billingProviderNpi subscriberId) := by
  have hbody := clean_body837 hcontrol hnpi hsubscriber hclaims
  have hall : ∀ elements ∈ enveloped control (bytes "HC") (bytes "005010X222A1")
      (body837 claims control billingProviderNpi subscriberId defaultDelimiters (bytes "837")),
      Clean defaultDelimiters elements :=
    clean_enveloped hcontrol (by decide) (by decide) hbody
  have hisa := elements_header hcontrol
  have hkind := kind_body hcontrol hnpi hsubscriber hclaims
  obtain ⟨h, rows, hrun, hrows⟩ := body_rows hcontrol hnpi hsubscriber hclaims
  obtain ⟨body, hsplit⟩ : ∃ body, body837 claims control billingProviderNpi subscriberId
      defaultDelimiters (bytes "837") = [bytes "ST", bytes "837", control.stControl] :: body :=
    ⟨_, rfl⟩
  rw [hsplit] at hbody hall hrun hcount hkind ⊢
  rw [List.tail_cons] at hrun hkind
  have hgs := hall _ List.mem_cons_self
  have hst := hbody _ List.mem_cons_self
  have hse := hall [bytes "SE", itoa (body.length + 2), control.stControl] (by simp [enveloped])
  have hge := hall [bytes "GE", bytes "1", control.gsControl] (by simp [enveloped])
  have hiea := hall [bytes "IEA", bytes "1", control.isaControl] (by simp [enveloped])
  have hinner : ∀ seg ∈ body.map readBack, seg.kind.inner = true := by
    intro seg hseg
    obtain ⟨elements, helements, rfl⟩ := List.mem_map.mp hseg
    rw [hkind elements helements]
    rfl
  let t : Transaction :=
    { st := readBack [bytes "ST", bytes "837", control.stControl]
      body := body.map readBack
      se := readBack [bytes "SE", itoa (body.length + 2), control.stControl]
      st_kind := kind_readBack hst
      body_inner := hinner
      se_kind := kind_readBack hse }
  let g : Group :=
    { gs := readBack [bytes "GS", bytes "HC", pyStrip control.senderId,
        pyStrip control.receiverId, control.dateCcyymmdd, control.timeHhmm, control.gsControl,
        bytes "X", bytes "005010X222A1"]
      pieces := [.transaction t]
      ge := readBack [bytes "GE", bytes "1", control.gsControl]
      gs_kind := kind_readBack hgs
      ge_kind := kind_readBack hge }
  have hst01 : t.st.elStrip 1 = bytes "837" := by
    rw [hst.elStrip plain_defaultDelimiters]
    exact (by decide : pyStrip (bytes "837") = bytes "837")
  have hst02 : t.st.elStrip 2 = pyStrip control.stControl := hst.elStrip plain_defaultDelimiters 2
  have hlength : t.segments.length = body.length + 2 := by simp [t, Transaction.segments]
  have ht : t.Closed := by
    refine ⟨?_, ?_, fun _ => ?_⟩
    · rw [hst01]
      decide
    · rw [hse.elStrip plain_defaultDelimiters, hst.elStrip plain_defaultDelimiters]
      rfl
    · rw [hse.elStrip plain_defaultDelimiters, hlength]
      exact (pyInt_itoa hcount).2
  have hg : g.Closed := by
    refine ⟨?_, by simpa [g, Piece.Closed] using ht⟩
    rw [hge.elStrip plain_defaultDelimiters, hgs.elStrip plain_defaultDelimiters]
    rfl
  have hheader : ∀ k, (Segment.ofRaw defaultDelimiters
      (joinElements defaultDelimiters (isaElements control defaultDelimiters))).elStrip k =
        pyStrip ((isaElements control defaultDelimiters).getD k []) := by
    intro k
    rw [Segment.elStrip, Segment.el, hisa]
  let i : Interchange :=
    { isa := Segment.ofRaw defaultDelimiters
        (joinElements defaultDelimiters (isaElements control defaultDelimiters))
      parts := [.group g]
      iea := readBack [bytes "IEA", bytes "1", control.isaControl]
      isa_kind := by
        rw [Segment.kind, Segment.tag, hheader]
        exact (by decide : Kind.ofTag (pyStrip (bytes "ISA")) = .isa)
      iea_kind := kind_readBack hiea }
  have hi : i.Closed := by
    refine ⟨?_, by simpa [i, Part.Closed] using hg⟩
    rw [hiea.elStrip plain_defaultDelimiters, hheader]
    exact (pyStrip_ljust control.isaControl 9).symm
  have hopened : ({ ({ ({} : Envelope) with
        isa06 := i.isa.elStrip 6, isa08 := i.isa.elStrip 8, isa13 := i.isa.elStrip 13 } : Envelope)
      with gs06 := g.gs.elStrip 6, st01 := t.st.elStrip 1, st02 := t.st.elStrip 2 } : Envelope) =
      readEnvelope control := by
    rw [hst01, hst02, hgs.elStrip plain_defaultDelimiters, hheader, hheader, hheader]
    simp only [readEnvelope, Envelope.mk.injEq]
    exact ⟨pyStrip_ljust control.isaControl 9, pyStrip_ljust control.senderId 15,
      pyStrip_ljust control.receiverId 15, rfl, trivial, trivial⟩
  have hlookup : handlers.lookup (t.st.elStrip 1) = some (.claim {}) := by
    rw [hst01]
    decide
  refine ⟨i, ?_, hi, ?_⟩
  · simp [i, g, t, Interchange.segments, Part.segments, Group.segments, Piece.segments,
      Transaction.segments, enveloped]
  · rw [rowsOf_single rfl rfl hlookup hopened, hrun, hrows]

end Interchange

/-! ## The round trip -/

/-- The segment has the elements, but for line ends behind the last. -/
def Transmits (elements : List Bytes) (s : Segment) : Prop :=
  ∃ init last, elements = init ++ [last] ∧ s.elements = init ++ [last.rdropWhile isLineEnd]

theorem Clean.transmits {elements : List Bytes} (h : Clean defaultDelimiters elements) :
    Transmits elements (readBack elements) := by
  obtain ⟨init, last, rfl, hinit⟩ := h.concat
  exact ⟨init, last, rfl, h.elements_eq plain_defaultDelimiters hinit⟩

theorem transmits_all {control : OutboundControl} {composed : Composed} {chunks : List Bytes}
    (hcontrol : ∀ p ∈ control.fields, Safe defaultDelimiters p.2)
    (hisa : composed.isa = isaElements control defaultDelimiters)
    (hclean : ∀ elements ∈ composed.segments, Clean defaultDelimiters elements)
    (htokens : segments chunks =
      (Segment.ofRaw defaultDelimiters (composed.header defaultDelimiters) ::
        composed.segments.map readBack, .ok ())) :
    (segments chunks).2 = .ok () ∧
      List.Forall₂ Transmits (composed.isa :: composed.segments) (segments chunks).1 := by
  rw [htokens]
  refine ⟨rfl, List.Forall₂.cons ?_ ?_⟩
  · have helements := elements_header hcontrol
    rw [hisa]
    refine ⟨(isaElements control defaultDelimiters).dropLast, [defaultDelimiters.component],
      rfl, ?_⟩
    rw [Composed.header, hisa]
    exact helements
  · exact List.forall₂_map_right_iff.mpr
      (List.forall₂_same.mpr fun elements helements => (hclean elements helements).transmits)

/-- What is rendered with the default delimiters is read back, however it is cut, when it
fits the caps of the decoder.  For claims and for inquiries the tokenizer gives the
segments that were composed, except that line ends behind one are lost, which only a value
at its end can have.  An interchange of claims is accepted, with a row for each claim. -/
theorem x12_round_trip (control : OutboundControl) :
    (∀ claims billingProviderNpi subscriberId composed chunks batchSize,
      compose837 claims control billingProviderNpi subscriberId defaultDelimiters
          (bytes "837") = .ok composed →
        composed.Fits defaultDelimiters →
        composed.segments.length < maxSegmentsPerTransaction →
        chunks.flatten = composed.text defaultDelimiters →
        ((segments chunks).2 = .ok () ∧
            List.Forall₂ Transmits (composed.isa :: composed.segments) (segments chunks).1) ∧
          (decodeX12 batchSize chunks).outcome = .ok () ∧
          (decodeX12 batchSize chunks).rows.map List.dropLast =
            claims.map (transmitted control billingProviderNpi subscriberId)) ∧
      ∀ inquiries p composed chunks,
        compose276 inquiries control p defaultDelimiters = .ok composed →
          composed.Fits defaultDelimiters →
          chunks.flatten = composed.text defaultDelimiters →
          (segments chunks).2 = .ok () ∧
            List.Forall₂ Transmits (composed.isa :: composed.segments) (segments chunks).1 := by
  constructor
  · intro claims billingProviderNpi subscriberId composed chunks batchSize hcompose hfits hcap hcut
    obtain ⟨⟨hnpi, hsubscriber, hcontrol, hclaims⟩, hheader, rfl⟩ := compose837_ok hcompose
    have hclean : ∀ elements ∈ enveloped control (bytes "HC") (bytes "005010X222A1")
        (body837 claims control billingProviderNpi subscriberId defaultDelimiters (bytes "837")),
        Clean defaultDelimiters elements :=
      clean_enveloped hcontrol (by decide) (by decide)
        (clean_body837 hcontrol hnpi hsubscriber hclaims)
    have hread := fun hisa => segments_composed plain_defaultDelimiters hisa hheader hclean
      (by simp [enveloped]) hfits hcut
    have htokens := hread (fromIsa_header hheader)
    have hcount : (body837 claims control billingProviderNpi subscriberId defaultDelimiters
        (bytes "837")).length + 1 < 1000000000 := by
      simp only [enveloped, List.length_append, List.length_cons, List.length_nil,
        maxSegmentsPerTransaction] at hcap
      omega
    obtain ⟨i, hi, hclosed, hrows⟩ := interchange_837 hcontrol hnpi hsubscriber hclaims hcount
    have hnest : (segments chunks).1 = [i].flatMap X12.Interchange.segments := by
      rw [htokens, List.flatMap_singleton, hi]
      rfl
    obtain ⟨haccepts, hdecoded⟩ := decode_interchanges (b := batchSize) hnest
    have hok : (decodeX12 batchSize chunks).outcome = .ok () := by
      refine haccepts.mpr ⟨by rw [htokens], List.cons_ne_nil _ _, by simpa using hclosed, ?_⟩
      rw [htokens]
      simpa using hcap
    exact ⟨transmits_all hcontrol rfl hclean htokens, hok, by rw [hdecoded hok, hrows]⟩
  · intro inquiries p composed chunks hcompose hfits hcut
    obtain ⟨⟨hvalues, hcontrol, hinquiries⟩, hheader, rfl⟩ := compose276_ok hcompose
    have hclean : ∀ elements ∈ enveloped control (bytes "HR") (bytes "005010X212")
        (head276 control p ++ inquiries.flatMap Inquiry.elements),
        Clean defaultDelimiters elements :=
      clean_enveloped hcontrol (by decide) (by decide)
        (clean_body276 hcontrol hvalues hinquiries)
    have hread := fun hisa => segments_composed plain_defaultDelimiters hisa hheader hclean
      (by simp [enveloped]) hfits hcut
    have htokens := hread (fromIsa_header hheader)
    exact transmits_all hcontrol rfl hclean htokens

/-! ## Interchanges to look at -/

/-- Control fields. -/
def sampleControl : OutboundControl :=
  { senderId := bytes "S"
    receiverId := bytes "R"
    isaControl := bytes "000000001"
    gsControl := bytes "5"
    stControl := bytes "0001" }

/-- A claim. -/
def sampleClaim : OutClaim :=
  { claimId := bytes "A"
    totalCharge := bytes "100"
    diagnosisCodes := [bytes "X1", bytes "Y2"]
    serviceLines := [{ procedureCode := bytes "99213", charge := bytes "50" }] }

/-- An inquiry. -/
def sampleInquiry : Inquiry := { claimId := bytes "A", serviceDate := bytes "20000101" }

/-- Who asks. -/
def sampleParties : StatusParties :=
  { payerId := bytes "P1"
    payerName := bytes "PAYER"
    providerNpi := bytes "123"
    providerName := bytes "PROVIDER"
    subscriberId := bytes "M1"
    subscriberLast := bytes "DOE"
    subscriberFirst := bytes "JO" }

/-- The claim, composed. -/
def sample837 : Composed :=
  { isa := isaElements sampleControl defaultDelimiters
    segments := enveloped sampleControl (bytes "HC") (bytes "005010X222A1")
      (body837 [sampleClaim] sampleControl (bytes "123") (bytes "M1") defaultDelimiters
        (bytes "837")) }

/-- The inquiry, composed. -/
def sample276 : Composed :=
  { isa := isaElements sampleControl defaultDelimiters
    segments := enveloped sampleControl (bytes "HR") (bytes "005010X212")
      (head276 sampleControl sampleParties ++ [sampleInquiry].flatMap Inquiry.elements) }

theorem x12_round_trip_sample : (((segments [sample837.text defaultDelimiters]).2 = .ok () ∧
        List.Forall₂ Transmits (sample837.isa :: sample837.segments)
          (segments [sample837.text defaultDelimiters]).1) ∧
      (decodeX12 10 [sample837.text defaultDelimiters]).outcome = .ok () ∧
      (decodeX12 10 [sample837.text defaultDelimiters]).rows.map List.dropLast =
        [sampleClaim].map (transmitted sampleControl (bytes "123") (bytes "M1"))) ∧
      (segments [sample276.text defaultDelimiters]).2 = .ok () ∧
        List.Forall₂ Transmits (sample276.isa :: sample276.segments)
          (segments [sample276.text defaultDelimiters]).1 := by
  have hfits837 : sample837.Fits defaultDelimiters := by
    unfold Composed.Fits
    decide
  have hfits276 : sample276.Fits defaultDelimiters := by
    unfold Composed.Fits
    decide
  exact ⟨(x12_round_trip sampleControl).1 [sampleClaim] (bytes "123") (bytes "M1") sample837
      [sample837.text defaultDelimiters] 10 (by decide) hfits837 (by decide)
      (by simp),
    (x12_round_trip sampleControl).2 [sampleInquiry] sampleParties sample276
      [sample276.text defaultDelimiters] (by decide) hfits276 (by simp)⟩

/-- A claim with more diagnoses than the decoder takes elements. -/
def manyDiagnoses : OutClaim :=
  { sampleClaim with diagnosisCodes := List.replicate 2000 (bytes "A") }

/-- A transaction number with a line end behind it. -/
def lineEndControl : OutboundControl := { sampleControl with stControl := bytes "0001\n" }

/-- The interchange with them, composed. -/
def many837 : Composed :=
  { isa := isaElements sampleControl defaultDelimiters
    segments := enveloped sampleControl (bytes "HC") (bytes "005010X222A1")
      (body837 [manyDiagnoses] sampleControl (bytes "123") (bytes "M1") defaultDelimiters
        (bytes "837")) }

/-- The segment of the diagnoses. -/
def manyElements : List Bytes :=
  bytes "HI" :: [defaultDelimiters.component].intercalate [bytes "ABK", bytes "A"] ::
    (List.replicate 1999 (bytes "A")).map fun code =>
      [defaultDelimiters.component].intercalate [bytes "ABF", code]

theorem segments_many837 :
    many837.segments = sample837.segments.take 5 ++ manyElements :: many837.segments.drop 6 := by
  have hdiagnoses : manyDiagnoses.diagnoses = bytes "A" :: List.replicate 1999 (bytes "A") := by
    have hcodes : manyDiagnoses.diagnosisCodes = List.replicate 2000 (bytes "A") := rfl
    rw [OutClaim.diagnoses, hcodes, List.map_replicate, List.filter_replicate,
      if_pos (by decide), show pyStrip (bytes "A") = bytes "A" by decide,
      ← List.replicate_succ]
  rw [many837, body837, List.flatMap_singleton, OutClaim.elements, hdiagnoses, hiElements]
  rfl

theorem many_refused {text : Bytes}
    (h : render837 [manyDiagnoses] sampleControl (bytes "123") (bytes "M1") defaultDelimiters
      (bytes "837") = .ok text) :
    (decodeX12 10 [text]).outcome = .error (.tooManyElements (bytes "HI") 2001) := by
  obtain ⟨composed, hcompose, rfl⟩ := map_eq_ok.mp h
  obtain ⟨⟨hnpi, hsubscriber, hcontrol, hclaims⟩, hheader, hcomposed⟩ := compose837_ok hcompose
  obtain rfl : composed = many837 := hcomposed
  have hclean : ∀ elements ∈ many837.segments, Clean defaultDelimiters elements :=
    clean_enveloped hcontrol (by decide) (by decide)
      (clean_body837 hcontrol hnpi hsubscriber hclaims)
  have hlength : manyElements.length = 2001 := by
    simp only [manyElements, List.length_cons, List.length_map, List.length_replicate]
  have htag : (readBack manyElements).el 0 = bytes "HI" := by
    have hlong : Clean defaultDelimiters manyElements :=
      hclean manyElements (by rw [segments_many837]; simp)
    obtain ⟨init, last, hparts, hinit⟩ := hlong.concat
    obtain ⟨first, rest, rfl⟩ := List.exists_cons_of_ne_nil hinit
    have hfirst : bytes "HI" = first := (List.cons.inj hparts).1
    rw [hparts] at hlong
    rw [hparts, readBack, Segment.el, hlong.elements_eq plain_defaultDelimiters hinit, hfirst]
    rfl
  have hisa : Delimiters.fromIsa (many837.header defaultDelimiters ++ [defaultDelimiters.segment]) =
      .ok defaultDelimiters := fromIsa_header hheader
  have hread := segments_refused plain_defaultDelimiters hisa hheader hclean segments_many837
    (by decide) (by rw [hlength]; decide)
  have hheld : (({} : Decoder).run 10 (Segment.ofRaw defaultDelimiters
      (many837.header defaultDelimiters) :: (sample837.segments.take 5).map readBack)).2 =
      .ok () := by decide
  rw [hlength, htag] at hread
  rw [decodeX12, hread]
  dsimp only
  rw [hheld]

/-- Both are rendered.  The decoder refuses the first, which has more elements than it
admits, and it drops the line end of the second, whose ST segment is not the one composed. -/
theorem x12_round_trip_fails :
    ((render837 [manyDiagnoses] sampleControl (bytes "123") (bytes "M1") defaultDelimiters
        (bytes "837")).toOption.map fun text => (decodeX12 10 [text]).outcome) =
        some (.error (.tooManyElements (bytes "HI") 2001)) ∧
      ((compose837 [sampleClaim] lineEndControl (bytes "123") (bytes "M1") defaultDelimiters
        (bytes "837")).toOption.map fun composed =>
          (composed.segments.contains [bytes "ST", bytes "837", bytes "0001\n"],
            ((segments [composed.text defaultDelimiters]).1.map Segment.elements).contains
              [bytes "ST", bytes "837", bytes "0001\n"])) = some (true, false) := by
  refine ⟨?_, by decide +kernel⟩
  have hrendered : (render837 [manyDiagnoses] sampleControl (bytes "123") (bytes "M1")
      defaultDelimiters (bytes "837")).isOk = true := by decide +kernel
  cases h : render837 [manyDiagnoses] sampleControl (bytes "123") (bytes "M1") defaultDelimiters
      (bytes "837") with
  | error e =>
      rw [h] at hrendered
      cases hrendered
  | ok text => exact congrArg some (many_refused h)

end Windrose.X12

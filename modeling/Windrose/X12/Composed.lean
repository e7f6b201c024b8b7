/-
  X12/Composed.lean --- rendered segments and the tokenizer.

  A segment is composed of elements that have no delimiter, behind a tag that does not
  begin with a line end.  The tokenizer gives it back, without the line ends that its last
  element may have behind: the tokenizer takes these for padding between segments.
  `segments_composed` is about a whole interchange.
-/
import Windrose.X12.Render
import Windrose.X12.Tokens

set_option autoImplicit false

namespace Windrose.X12

open Windrose.Foundation

/-! ## One segment -/

/-- The text of a segment. -/
abbrev joinElements (d : Delimiters) (elements : List Bytes) : Bytes :=
  [d.element].intercalate elements

/-- A segment that is composed of these elements, as it is read. -/
def Segment.ofElements (d : Delimiters) (elements : List Bytes) : Segment :=
  Segment.ofPiece d (joinElements d elements)

/-- The value has no delimiter of elements or segments. -/
def Free (d : Delimiters) (value : Bytes) : Prop := d.element ∉ value ∧ d.segment ∉ value

instance (d : Delimiters) (value : Bytes) : Decidable (Free d value) :=
  inferInstanceAs (Decidable (_ ∧ _))

/-- A tag and at least one more element, all of them free. -/
structure Clean (d : Delimiters) (elements : List Bytes) : Prop where
  tag : ∃ c tag rest, elements = (c :: tag) :: rest ∧ isLineEnd c = false ∧ rest ≠ []
  free : ∀ e ∈ elements, Free d e

theorem Clean.of_tag {d : Delimiters} {tag : Bytes} {rest : List Bytes}
    (htag : tag.head?.map isLineEnd = some false) (hrest : rest ≠ [])
    (hfree : ∀ e ∈ tag :: rest, Free d e) : Clean d (tag :: rest) := by
  cases tag with
  | nil => cases htag
  | cons c tag => exact ⟨⟨c, tag, rest, rfl, Option.some.inj htag, hrest⟩, hfree⟩

/-- The delimiters of elements and segments differ, and the former is no line end. -/
structure Delimiters.Plain (d : Delimiters) : Prop where
  element : isLineEnd d.element = false
  segment : d.segment ≠ d.element

theorem plain_defaultDelimiters : defaultDelimiters.Plain := ⟨by decide, by decide⟩

section Segments

variable {d : Delimiters} {elements : List Bytes}

theorem Clean.concat (h : Clean d elements) :
    ∃ init last, elements = init ++ [last] ∧ init ≠ [] := by
  obtain ⟨c, tag, rest, rfl, -, hrest⟩ := h.tag
  refine ⟨((c :: tag) :: rest).dropLast, rest.getLast hrest, ?_, ?_⟩
  · conv_lhs => rw [← List.dropLast_append_getLast (List.cons_ne_nil (c :: tag) rest)]
    rw [List.getLast_cons hrest]
  · rw [List.dropLast_cons_of_ne_nil hrest]
    exact List.cons_ne_nil _ _

theorem Clean.strip_join (hd : d.Plain) {init : List Bytes} {last : Bytes}
    (h : Clean d (init ++ [last])) (hinit : init ≠ []) :
    strip isLineEnd (joinElements d (init ++ [last])) =
      joinElements d (init ++ [last.rdropWhile isLineEnd]) := by
  obtain ⟨c, tag, rest, hparts, hc, -⟩ := h.tag
  have hhead : ∃ t, joinElements d (init ++ [last]) = c :: t := by
    rw [hparts]
    cases rest with
    | nil => exact ⟨tag, List.intercalate_singleton⟩
    | cons e rest => exact ⟨_, List.intercalate_cons_cons⟩
  obtain ⟨t, ht⟩ := hhead
  have hneg : ¬ isLineEnd c = true := by rw [hc]; exact Bool.false_ne_true
  unfold strip
  rw [ht, List.dropWhile_cons_of_neg hneg, ← ht]
  unfold joinElements
  rw [intercalate_concat _ last hinit, intercalate_concat _ _ hinit,
    rdropWhile_append_cons hd.element]

theorem Clean.elements_eq (hd : d.Plain) {init : List Bytes} {last : Bytes}
    (h : Clean d (init ++ [last])) (hinit : init ≠ []) :
    (Segment.ofElements d (init ++ [last])).elements = init ++ [last.rdropWhile isLineEnd] := by
  have hfree : ∀ e ∈ init ++ [last.rdropWhile isLineEnd], d.element ∉ e := by
    intro e he
    obtain he | he := List.mem_append.mp he
    · exact (h.free e (List.mem_append_left _ he)).1
    · rw [List.mem_singleton.mp he]
      exact fun hm => (h.free last (List.mem_append_right _ List.mem_cons_self)).1
        ((List.rdropWhile_prefix isLineEnd last).subset hm)
  unfold Segment.ofElements Segment.ofPiece Segment.ofRaw
  rw [h.strip_join hd hinit]
  exact List.splitOn_intercalate d.element hfree (by simp)

theorem Clean.elements_exact (hd : d.Plain) (h : Clean d elements)
    (hlast : ∀ last ∈ elements.getLast?, ∀ c ∈ last.getLast?, isLineEnd c = false) :
    (Segment.ofElements d elements).elements = elements := by
  obtain ⟨init, last, rfl, hinit⟩ := h.concat
  rw [h.elements_eq hd hinit, rdropWhile_of_getLast (hlast last (by simp))]

theorem Clean.length_elements (hd : d.Plain) (h : Clean d elements) :
    (Segment.ofElements d elements).elements.length = elements.length := by
  obtain ⟨init, last, rfl, hinit⟩ := h.concat
  rw [h.elements_eq hd hinit]
  simp

theorem Clean.elStrip (hd : d.Plain) (h : Clean d elements) (i : Nat) :
    (Segment.ofElements d elements).elStrip i = pyStrip (elements.getD i []) := by
  obtain ⟨init, last, rfl, hinit⟩ := h.concat
  unfold Segment.elStrip Segment.el
  rw [h.elements_eq hd hinit]
  simp only [List.getD_eq_getElem?_getD, List.getElem?_append, List.getElem?_singleton]
  split
  · rfl
  · split
    · exact strip_rdropWhile isWhite_of_isLineEnd last
    · rfl

theorem Clean.not_mem_join (hd : d.Plain) (h : Clean d elements) :
    d.segment ∉ joinElements d elements :=
  not_mem_intercalate hd.segment fun e he => (h.free e he).2

theorem Clean.strip_ne_nil (hd : d.Plain) (h : Clean d elements) :
    strip isLineEnd (joinElements d elements) ≠ [] := by
  have hlength := h.length_elements hd
  intro hnil
  unfold Segment.ofElements Segment.ofPiece Segment.ofRaw at hlength
  rw [hnil] at hlength
  obtain ⟨c, tag, rest, rfl, -, hrest⟩ := h.tag
  simp only [List.splitOn_nil, List.length_cons, List.length_nil] at hlength
  have hpos := List.length_pos_of_ne_nil hrest
  omega

end Segments

/-! ## A whole interchange -/

section Interchanges

variable {d : Delimiters} {composed : Composed}

/-- Each segment fits the tokenizer. -/
def Composed.Fits (d : Delimiters) (composed : Composed) : Prop :=
  ∀ elements ∈ composed.segments, (joinElements d elements).length ≤ maxSegmentChars ∧
    elements.length ≤ maxElementsPerSegment

/-- What comes behind the header. -/
def Composed.rest (d : Delimiters) (composed : Composed) : Bytes :=
  [d.segment].intercalate (composed.raws d) ++ [d.segment]

theorem Composed.text_eq (composed : Composed) (d : Delimiters) :
    composed.text d = (composed.header d ++ [d.segment]) ++ composed.rest d := by
  simp [Composed.text, Composed.rest]

theorem Composed.splitOn_rest (hd : d.Plain)
    (hclean : ∀ elements ∈ composed.segments, Clean d elements) (hne : composed.segments ≠ []) :
    (composed.rest d).splitOn d.segment = composed.raws d ++ [[]] := by
  have hfree : ∀ raw ∈ composed.raws d, d.segment ∉ raw := by
    intro raw hraw
    obtain ⟨elements, helements, rfl⟩ := List.mem_map.mp hraw
    exact (hclean elements helements).not_mem_join hd
  have hraws : composed.raws d ≠ [] := by
    unfold Composed.raws
    simpa using hne
  unfold Composed.rest
  rw [List.splitOn_append_cons_self, List.splitOn_intercalate d.segment hfree hraws,
    List.splitOn_nil]

theorem Composed.cut (composed : Composed)
    (hisa : Delimiters.fromIsa (composed.header d ++ [d.segment]) = .ok d)
    (hheader : (composed.header d).length = isaLen - 1) :
    (composed.header d ++ [d.segment]).length = isaLen ∧
      Delimiters.fromIsa (composed.text d) = .ok d ∧
      (composed.text d).drop isaLen = composed.rest d ∧
      (composed.text d).take (isaLen - 1) = composed.header d := by
  have hlength : (composed.header d ++ [d.segment]).length = isaLen := by
    rw [List.length_append, hheader]
    rfl
  refine ⟨hlength, ?_, ?_, ?_⟩
  · rw [composed.text_eq, fromIsa_append _ hlength.ge, hisa]
  · rw [composed.text_eq, ← hlength, List.drop_left]
  · rw [composed.text_eq, List.append_assoc, ← hheader, List.take_left]

/-- An interchange that fits is read as its header and its segments, however it is cut. -/
theorem segments_composed {chunks : List Bytes} (hd : d.Plain)
    (hisa : Delimiters.fromIsa (composed.header d ++ [d.segment]) = .ok d)
    (hheader : (composed.header d).length = isaLen - 1)
    (hclean : ∀ elements ∈ composed.segments, Clean d elements)
    (hne : composed.segments ≠ []) (hfits : composed.Fits d)
    (hcut : chunks.flatten = composed.text d) : segments chunks =
      (Segment.ofRaw d (composed.header d) :: composed.segments.map (Segment.ofElements d),
        .ok ()) := by
  obtain ⟨hlength, hfrom, hdrop, htake⟩ := composed.cut hisa hheader
  have hpieces := Composed.splitOn_rest hd hclean hne
  have hfit : X12.Fits d ((composed.text d).drop isaLen |>.splitOn d.segment) := by
    rw [hdrop, hpieces]
    intro piece hpiece
    obtain hpiece | hpiece := List.mem_append.mp hpiece
    · obtain ⟨elements, helements, rfl⟩ := List.mem_map.mp hpiece
      obtain ⟨hchars, hcount⟩ := hfits elements helements
      have hlen := (hclean elements helements).length_elements hd
      exact ⟨hchars, le_of_eq_of_le hlen hcount⟩
    · rw [List.mem_singleton.mp hpiece]
      exact ⟨by decide, by simp [Segment.ofPiece, Segment.ofRaw, strip, maxElementsPerSegment]⟩
  have hwhole : whole d (composed.raws d) = composed.segments.map (Segment.ofElements d) := by
    have hkept : (composed.raws d).filter (fun piece => strip isLineEnd piece ≠ []) =
        composed.raws d := by
      rw [List.filter_eq_self]
      intro raw hraw
      obtain ⟨elements, helements, rfl⟩ := List.mem_map.mp hraw
      simpa using (hclean elements helements).strip_ne_nil hd
    rw [whole, hkept, Composed.raws, List.map_map]
    rfl
  have hlast : lastPiece d.segment (composed.rest d) = [] := by
    rw [lastPiece, hpieces, List.getLastD_concat]
  rw [segments_of_fits hfrom hfit hcut, hdrop, htake, hpieces, List.dropLast_concat, hwhole, hlast]
  rfl

theorem drain_refused (hd : d.Plain) {front : List (List Bytes)} {long : List Bytes}
    {more : List Bytes} (hmore : more ≠ []) (hclean : ∀ elements ∈ front ++ [long],
      Clean d elements)
    (hfront : ∀ elements ∈ front, elements.length ≤ maxElementsPerSegment)
    (hlong : maxElementsPerSegment < long.length) :
    drain d (front.map (joinElements d) ++ joinElements d long :: more) =
      (front.map (Segment.ofElements d),
        .error (.tooManyElements ((Segment.ofElements d long).el 0) long.length)) := by
  induction front with
  | nil =>
    have hclean := hclean long (by simp)
    have hlen : (Segment.ofRaw d (strip isLineEnd (joinElements d long))).elements.length =
        long.length := hclean.length_elements hd
    rw [List.map_nil, List.nil_append, drain]
    swap
    · exact hmore
    dsimp only
    rw [if_neg (hclean.strip_ne_nil hd), if_pos (hlen ▸ hlong), hlen]
    rfl
  | cons elements front ih =>
    have hhead := hclean elements (by simp)
    have hlen : (Segment.ofRaw d (strip isLineEnd (joinElements d elements))).elements.length =
        elements.length := hhead.length_elements hd
    have hcap := hfront elements List.mem_cons_self
    have ih := ih (fun e he => hclean e (List.mem_cons_of_mem _ he))
      fun e he => hfront e (List.mem_cons_of_mem _ he)
    rw [List.map_cons, List.cons_append, drain]
    swap
    · exact fun h => List.cons_ne_nil _ _ (List.append_eq_nil_iff.mp h).2
    dsimp only
    rw [if_neg (hhead.strip_ne_nil hd), hlen, if_neg (Nat.not_lt.mpr hcap), ih]
    rfl

theorem segments_refused {front back : List (List Bytes)} {long : List Bytes} (hd : d.Plain)
    (hisa : Delimiters.fromIsa (composed.header d ++ [d.segment]) = .ok d)
    (hheader : (composed.header d).length = isaLen - 1)
    (hclean : ∀ elements ∈ composed.segments, Clean d elements)
    (hsegments : composed.segments = front ++ long :: back)
    (hfront : ∀ elements ∈ front, elements.length ≤ maxElementsPerSegment)
    (hlong : maxElementsPerSegment < long.length) : segments [composed.text d] =
      (Segment.ofRaw d (composed.header d) :: front.map (Segment.ofElements d),
        .error (.tooManyElements ((Segment.ofElements d long).el 0) long.length)) := by
  obtain ⟨hlength, hfrom, hdrop, htake⟩ := composed.cut hisa hheader
  have hshort : ¬ (composed.text d).length < isaLen := by
    rw [composed.text_eq, List.length_append]
    omega
  have hpieces : (composed.rest d).splitOn d.segment =
      front.map (joinElements d) ++ joinElements d long :: (back.map (joinElements d) ++ [[]]) := by
    rw [Composed.splitOn_rest hd hclean (by simp [hsegments]), Composed.raws, hsegments]
    simp
  have hmore : back.map (joinElements d) ++ [[]] ≠ [] := by simp
  have hdrain := drain_refused hd hmore
    (fun e he => hclean e (by
      rw [hsegments]
      obtain he | he := List.mem_append.mp he
      · exact List.mem_append_left _ he
      · exact List.mem_append_right _ (List.mem_singleton.mp he ▸ List.mem_cons_self)))
    hfront hlong
  simp only [segments, Tokenizer.run, Tokenizer.feed, Tokenizer.init, List.nil_append,
    if_neg hshort, hfrom, Tokenizer.drained, hdrop, hpieces, hdrain, htake]
  rfl

end Interchanges

/-! ## What the renderers compose -/

section Rendered

variable {d : Delimiters}

theorem Safe.free {value : Bytes} (h : Safe d value) : Free d value :=
  ⟨h d.element (by simp [reserved]), h d.segment (by simp [reserved])⟩

theorem Free.pyStrip {value : Bytes} (h : Free d value) : Free d (pyStrip value) :=
  ⟨fun hm => h.1 ((strip_sublist isWhite value).subset hm),
    fun hm => h.2 ((strip_sublist isWhite value).subset hm)⟩

theorem free_components {values : List Bytes} (h : ∀ value ∈ values, Free defaultDelimiters value) :
    Free defaultDelimiters ([defaultDelimiters.component].intercalate values) :=
  ⟨not_mem_intercalate (by decide) fun v hv => (h v hv).1,
    not_mem_intercalate (by decide) fun v hv => (h v hv).2⟩

theorem free_itoa (n : Nat) : Free defaultDelimiters (itoa n) :=
  ⟨fun h => absurd (isDigit_of_mem_itoa h) (by decide),
    fun h => absurd (isDigit_of_mem_itoa h) (by decide)⟩

theorem pyStrip_ljust (value : Bytes) (width : Nat) :
    pyStrip (ljust value width) = pyStrip value := by
  unfold ljust X12.pyStrip
  refine strip_append_of_all fun c hc => ?_
  rw [List.eq_of_mem_replicate hc]
  rfl

variable {control : OutboundControl}

theorem OutboundControl.free (h : ∀ p ∈ control.fields, Safe d p.2) :
    (Free d control.senderId ∧ Free d control.receiverId ∧ Free d control.isaControl ∧
        Free d control.gsControl ∧ Free d control.stControl) ∧
      Free d control.dateYymmdd ∧ Free d control.timeHhmm ∧ Free d control.dateCcyymmdd ∧
        Free d control.usageIndicator := by
  simp only [OutboundControl.fields, List.forall_mem_cons] at h
  obtain ⟨hsender, hreceiver, hisa, hgs, hst, hdate, htime, hccdate, husage, -⟩ := h
  exact ⟨⟨hsender.free, hreceiver.free, hisa.free, hgs.free, hst.free⟩, hdate.free, htime.free,
    hccdate.free, husage.free⟩

theorem fromIsa_header (hlength : (joinElements d (isaElements control d)).length = isaLen - 1) :
    Delimiters.fromIsa (joinElements d (isaElements control d) ++ [d.segment]) = .ok d := by
  obtain ⟨first, rest, hfirst⟩ : ∃ first rest,
      isaElements control d = bytes "ISA" :: first :: rest := ⟨_, _, rfl⟩
  obtain ⟨init, hinit, hlast⟩ : ∃ init, init ≠ [] ∧
      isaElements control d = init ++ [[d.component]] :=
    ⟨(isaElements control d).dropLast, List.cons_ne_nil _ _, rfl⟩
  have hfront : joinElements d (isaElements control d) =
      bytes "ISA" ++ d.element :: joinElements d (first :: rest) := by
    rw [hfirst, joinElements, List.intercalate_cons_cons]
    simp
  have hback : joinElements d (isaElements control d) =
      joinElements d init ++ [d.element] ++ [d.component] := by
    rw [hlast, joinElements, intercalate_concat d.element [d.component] hinit]
    simp
  have hheader : (joinElements d (isaElements control d) ++ [d.segment]).length = isaLen := by
    rw [List.length_append, hlength]
    rfl
  have hfrontLength : (joinElements d init ++ [d.element]).length = 104 := by
    have h := congrArg List.length hback
    rw [hlength, List.length_append, List.length_singleton] at h
    exact (Nat.succ.inj h).symm
  have h3 : (joinElements d (isaElements control d) ++ [d.segment]).getD 3 0 = d.element := by
    rw [hfront]
    rfl
  have h104 : (joinElements d (isaElements control d) ++ [d.segment]).getD 104 0 = d.component := by
    rw [hback, List.append_assoc, List.getD_eq_getElem?_getD,
      List.getElem?_append_right hfrontLength.le, hfrontLength]
    rfl
  have h105 : (joinElements d (isaElements control d) ++ [d.segment]).getD 105 0 = d.segment := by
    have hlast : (joinElements d (isaElements control d)).length = 105 := hlength
    rw [List.getD_eq_getElem?_getD, List.getElem?_append_right hlast.le, hlast]
    rfl
  have hprefix : bytes "ISA" <+: joinElements d (isaElements control d) ++ [d.segment] := by
    rw [hfront, List.append_assoc]
    exact List.prefix_append _ _
  unfold Delimiters.fromIsa
  rw [if_neg (by omega), if_neg (by rwa [not_not]), h3, h104, h105]

theorem elements_header (hcontrol : ∀ p ∈ control.fields, Safe defaultDelimiters p.2) :
    (Segment.ofRaw defaultDelimiters
        (joinElements defaultDelimiters (isaElements control defaultDelimiters))).elements =
      isaElements control defaultDelimiters := by
  obtain ⟨⟨hsender, hreceiver, hisa, -, -⟩, hdate, htime, -, husage⟩ :=
    OutboundControl.free hcontrol
  have hpad : ∀ {value : Bytes} {width : Nat}, Free defaultDelimiters value →
      defaultDelimiters.element ∉ ljust value width := by
    intro value width hvalue hm
    obtain hm | hm := List.mem_append.mp hm
    · exact hvalue.1 hm
    · exact absurd (List.eq_of_mem_replicate hm) (by decide)
  apply List.splitOn_intercalate
  · simp only [isaElements, isaFields, isaWidths, List.zip_cons_cons, List.zip_nil_right,
      List.map_cons, List.map_nil, List.forall_mem_cons]
    exact ⟨by decide, hpad (by decide), hpad (by decide), hpad (by decide), hpad (by decide),
      hpad (by decide), hpad hsender, hpad (by decide), hpad hreceiver, hpad hdate, hpad htime,
      hpad (by decide), hpad (by decide), hpad hisa, hpad (by decide), hpad husage,
      hpad (by decide), by simp⟩
  · exact List.cons_ne_nil _ _

theorem clean_enveloped {functionalId version : Bytes}
    {body : List (List Bytes)} (hcontrol : ∀ p ∈ control.fields, Safe defaultDelimiters p.2)
    (hid : Free defaultDelimiters functionalId) (hversion : Free defaultDelimiters version)
    (hbody : ∀ elements ∈ body, Clean defaultDelimiters elements) :
    ∀ elements ∈ enveloped control functionalId version body, Clean defaultDelimiters elements := by
  obtain ⟨⟨hsender, hreceiver, hisa, hgs, hst⟩, -, htime, hdate, -⟩ := OutboundControl.free hcontrol
  have hends : Clean defaultDelimiters [bytes "GS", functionalId, pyStrip control.senderId,
        pyStrip control.receiverId, control.dateCcyymmdd, control.timeHhmm, control.gsControl,
        bytes "X", version] ∧
      Clean defaultDelimiters [bytes "SE", itoa (body.length + 1), control.stControl] ∧
      Clean defaultDelimiters [bytes "GE", bytes "1", control.gsControl] ∧
      Clean defaultDelimiters [bytes "IEA", bytes "1", control.isaControl] := by
    refine ⟨.of_tag (by decide) (by simp) ?_, .of_tag (by decide) (by simp) ?_,
      .of_tag (by decide) (by simp) ?_, .of_tag (by decide) (by simp) ?_⟩
    · simp only [List.forall_mem_cons]
      exact ⟨by decide, hid, hsender.pyStrip, hreceiver.pyStrip, hdate, htime, hgs, by decide,
        hversion, by simp⟩
    · simp only [List.forall_mem_cons]
      exact ⟨by decide, free_itoa _, hst, by simp⟩
    · simp only [List.forall_mem_cons]
      exact ⟨by decide, by decide, hgs, by simp⟩
    · simp only [List.forall_mem_cons]
      exact ⟨by decide, by decide, hisa, by simp⟩
  obtain ⟨hgs, hse, hge, hiea⟩ := hends
  intro elements helements
  simp only [enveloped, List.mem_append, List.mem_cons, List.not_mem_nil, or_false] at helements
  obtain (rfl | helements) | rfl | rfl | rfl := helements
  · exact hgs
  · exact hbody elements helements
  · exact hse
  · exact hge
  · exact hiea

theorem clean_hiElements {codes : List Bytes} (h : ∀ code ∈ codes, Free defaultDelimiters code) :
    ∀ elements ∈ hiElements defaultDelimiters codes, Clean defaultDelimiters elements := by
  cases codes with
  | nil => simp [hiElements]
  | cons principal codes =>
    intro elements helements
    obtain rfl := List.mem_singleton.mp helements
    refine .of_tag (by decide) (by simp) ?_
    simp only [List.forall_mem_cons, List.forall_mem_map] at h ⊢
    refine ⟨by decide, free_components ?_, fun code hcode => free_components ?_⟩
    · simp only [List.forall_mem_cons]
      exact ⟨by decide, h.1, by simp⟩
    · simp only [List.forall_mem_cons]
      exact ⟨by decide, h.2 code hcode, by simp⟩

theorem clean_linesElements {idx : Nat} {lines : List ServiceLine}
    (h : ∀ line ∈ lines, line.Sound defaultDelimiters) :
    ∀ elements ∈ linesElements defaultDelimiters idx lines, Clean defaultDelimiters elements := by
  induction lines generalizing idx with
  | nil => simp [linesElements]
  | cons line lines ih =>
    obtain ⟨hline, hlines⟩ := List.forall_mem_cons.mp h
    have hsv1 : Free defaultDelimiters ([defaultDelimiters.component].intercalate
        [bytes "HC", pyStrip line.procedureCode]) := by
      apply free_components
      simp only [List.forall_mem_cons]
      exact ⟨by decide, hline.procedureCode.free, by simp⟩
    intro elements helements
    simp only [linesElements, ServiceLine.elements, lineElements, List.mem_append,
      List.mem_cons, List.not_mem_nil, or_false] at helements
    obtain (rfl | rfl) | helements := helements
    · refine .of_tag (by decide) (by simp) ?_
      simp only [List.forall_mem_cons]
      exact ⟨by decide, free_itoa idx, by simp⟩
    · refine .of_tag (by decide) (by simp) ?_
      simp only [List.forall_mem_cons]
      exact ⟨by decide, hsv1, hline.charge.free, by decide, by decide, by simp⟩
    · exact ih hlines elements helements

theorem OutClaim.Sound.clean {claim : OutClaim} (h : claim.Sound defaultDelimiters) :
    ∀ elements ∈ claim.elements defaultDelimiters, Clean defaultDelimiters elements := by
  have hpos : Free defaultDelimiters ([defaultDelimiters.component].intercalate
      [claim.place, bytes "B", bytes "1"]) := by
    apply free_components
    simp only [List.forall_mem_cons]
    exact ⟨h.place.free, by decide, by decide, by simp⟩
  intro elements helements
  obtain helements | helements := List.mem_append.mp helements
  · obtain rfl | helements := List.mem_cons.mp helements
    · refine .of_tag (by decide) (by simp) ?_
      simp only [List.forall_mem_cons]
      exact ⟨by decide, h.claimId.free, h.totalCharge.free, by decide, by decide, hpos, by simp⟩
    · exact clean_hiElements (fun code hcode => (h.diagnoses code hcode).free) elements helements
  · exact clean_linesElements h.serviceLines elements helements

theorem clean_nm1 {party kind name first qualifier identifier : Bytes}
    (hcodes : ∀ code ∈ [party, kind, qualifier], Free defaultDelimiters code)
    (hname : Free defaultDelimiters name) (hfirst : Free defaultDelimiters first)
    (hid : Free defaultDelimiters identifier) : Clean defaultDelimiters
      [bytes "NM1", party, kind, name, first, [], [], [], qualifier, identifier] := by
  simp only [List.forall_mem_cons] at hcodes
  refine .of_tag (by decide) (by simp) ?_
  simp only [List.forall_mem_cons]
  exact ⟨by decide, hcodes.1, hcodes.2.1, hname, hfirst, by decide, by decide, by decide,
    hcodes.2.2.1, hid, by simp⟩

theorem clean_body837 {claims : List OutClaim} {billingProviderNpi subscriberId : Bytes}
    (hcontrol : ∀ p ∈ control.fields, Safe defaultDelimiters p.2)
    (hnpi : Safe defaultDelimiters billingProviderNpi)
    (hsubscriber : Safe defaultDelimiters subscriberId)
    (hclaims : ∀ claim ∈ claims, claim.Sound defaultDelimiters) :
    ∀ elements ∈ body837 claims control billingProviderNpi subscriberId defaultDelimiters
      (bytes "837"), Clean defaultDelimiters elements := by
  obtain ⟨⟨-, -, -, -, hst⟩, -⟩ := OutboundControl.free hcontrol
  intro elements helements
  obtain helements | helements := List.mem_append.mp helements
  · simp only [head837, List.mem_cons, List.not_mem_nil, or_false] at helements
    obtain rfl | rfl | rfl := helements
    · refine .of_tag (by decide) (by simp) ?_
      simp only [List.forall_mem_cons]
      exact ⟨by decide, by decide, hst, by simp⟩
    · exact clean_nm1 (by decide) (by decide) (by decide) hnpi.free
    · exact clean_nm1 (by decide) (by decide) (by decide) hsubscriber.free
  · obtain ⟨claim, hclaim, helements⟩ := List.mem_flatMap.mp helements
    exact (hclaims claim hclaim).clean elements helements

theorem Inquiry.Sound.clean {inquiry : Inquiry} (h : inquiry.Sound defaultDelimiters) :
    ∀ elements ∈ inquiry.elements, Clean defaultDelimiters elements := by
  have hoptional : ∀ {value : Bytes} {elements : List Bytes}, Clean defaultDelimiters elements →
      ∀ e ∈ optional value elements, Clean defaultDelimiters e := by
    intro value elements hclean e he
    unfold optional at he
    split at he
    · cases he
    · rwa [List.mem_singleton.mp he]
  have htrn : Clean defaultDelimiters [bytes "TRN", bytes "1", pyStrip inquiry.claimId] := by
    refine .of_tag (by decide) (by simp) ?_
    simp only [List.forall_mem_cons]
    exact ⟨by decide, by decide, h.claimId.free, by simp⟩
  have href : Clean defaultDelimiters
      [bytes "REF", bytes "1K", pyStrip inquiry.payerClaimControlNumber] := by
    refine .of_tag (by decide) (by simp) ?_
    simp only [List.forall_mem_cons]
    exact ⟨by decide, by decide, h.payerClaimControlNumber.free, by simp⟩
  have hamt : Clean defaultDelimiters [bytes "AMT", bytes "T3", pyStrip inquiry.totalCharge] := by
    refine .of_tag (by decide) (by simp) ?_
    simp only [List.forall_mem_cons]
    exact ⟨by decide, by decide, h.totalCharge.free, by simp⟩
  have hdtp : Clean defaultDelimiters
      [bytes "DTP", bytes "472", bytes "D8", pyStrip inquiry.serviceDate] := by
    refine .of_tag (by decide) (by simp) ?_
    simp only [List.forall_mem_cons]
    exact ⟨by decide, by decide, by decide, h.serviceDate.free, by simp⟩
  intro elements helements
  simp only [Inquiry.elements, List.mem_append, List.mem_singleton] at helements
  obtain ((rfl | helements) | helements) | helements := helements
  · exact htrn
  · exact hoptional href elements helements
  · exact hoptional hamt elements helements
  · exact hoptional hdtp elements helements

theorem clean_body276 {inquiries : List Inquiry}
    {p : StatusParties} (hcontrol : ∀ p ∈ control.fields, Safe defaultDelimiters p.2)
    (hvalues : ∀ value ∈ p.values, Safe defaultDelimiters value)
    (hinquiries : ∀ inquiry ∈ inquiries, inquiry.Sound defaultDelimiters) :
    ∀ elements ∈ head276 control p ++ inquiries.flatMap Inquiry.elements,
      Clean defaultDelimiters elements := by
  obtain ⟨⟨-, -, -, -, hst⟩, -, htime, hdate, -⟩ := OutboundControl.free hcontrol
  simp only [StatusParties.values, List.forall_mem_cons] at hvalues
  obtain ⟨hpayerId, hpayer, hnpi, hprovider, hsubscriber, hlast, hfirst, -⟩ := hvalues
  intro elements helements
  obtain helements | helements := List.mem_append.mp helements
  · simp only [head276, List.mem_cons, List.not_mem_nil, or_false] at helements
    obtain rfl | rfl | rfl | rfl | rfl := helements
    · refine .of_tag (by decide) (by simp) ?_
      simp only [List.forall_mem_cons]
      exact ⟨by decide, by decide, hst, by simp⟩
    · refine .of_tag (by decide) (by simp) ?_
      simp only [List.forall_mem_cons]
      exact ⟨by decide, by decide, by decide, hst, hdate, htime, by simp⟩
    · exact clean_nm1 (by decide) hpayer.free (by decide) hpayerId.free
    · exact clean_nm1 (by decide) hprovider.free (by decide) hnpi.free
    · exact clean_nm1 (by decide) hlast.free hfirst.free hsubscriber.free
  · obtain ⟨inquiry, hinquiry, helements⟩ := List.mem_flatMap.mp helements
    exact (hinquiries inquiry hinquiry).clean elements helements

end Rendered

end Windrose.X12

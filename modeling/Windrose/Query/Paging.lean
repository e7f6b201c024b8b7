/-
  Query/Paging.lean --- following the cursors delivers every row once.

  The reader has a limit of its own on a line and on brackets that the writer does not
  have.  A part with a row beyond it cannot be read at all, and no sequence of pages gets
  past that part (`readRows_stuck`).
-/
import Windrose.Foundation.Utf8
import Windrose.Query.Results

set_option autoImplicit false

namespace Windrose.Query.Results

open Windrose.Foundation

/-! ## Cursors -/

theorem isDigit_bounds {c : UInt8} (h : isDigit c = true) : 48 ≤ c.toNat ∧ c.toNat ≤ 57 := by
  simp only [isDigit, Bool.and_eq_true, decide_eq_true_eq, UInt8.le_iff_toNat_le] at h
  exact h

theorem skipSpace_digit {c : UInt8} (hc : isDigit c = true) (t : Bytes) :
    skipSpace (c :: t) = some (c :: t) := by
  obtain ⟨hlow, hhigh⟩ := isDigit_bounds hc
  rw [skipSpace, if_neg]
  · rintro (⟨-, h⟩ | rfl)
    · have h13 : c.toNat ≤ 13 := UInt8.le_iff_toNat_le.mp h
      omega
    · exact absurd hlow (by decide)
  all_goals
    intros
    subst_vars
    first
      | exact absurd hlow (by decide)
      | exact absurd hhigh (by decide)

theorem scanInt_itoa (n : Nat) {t : Bytes} (ht : ∀ c ∈ t.head?, isDigit c = false) :
    scanInt (itoa n ++ t) = some ((n : Int), t) := by
  have hall : ∀ c ∈ itoa n, isDigit c = true := fun c hc => isDigit_of_mem_itoa hc
  have hstop : t.takeWhile isDigit = [] ∧ t.dropWhile isDigit = t := by
    cases t with
    | nil => exact ⟨rfl, rfl⟩
    | cons c t =>
      have hc : ¬ isDigit c = true := Bool.eq_false_iff.mp (ht c rfl)
      exact ⟨List.takeWhile_cons_of_neg hc, List.dropWhile_cons_of_neg hc⟩
  have htake : (itoa n ++ t).takeWhile isDigit = itoa n := by
    rw [List.takeWhile_append_of_pos hall, hstop.1, List.append_nil]
  have hdrop : (itoa n ++ t).dropWhile isDigit = t := by
    rw [List.dropWhile_append_of_pos hall, hstop.2]
  obtain ⟨c, r, hcr⟩ := List.exists_cons_of_ne_nil (itoa_ne_nil n)
  have hc : isDigit c = true := hall c (by rw [hcr]; exact List.mem_cons_self)
  have hskip : skipSpace (itoa n ++ t) = some (itoa n ++ t) := by
    rw [hcr, List.cons_append]
    exact skipSpace_digit hc _
  have hsign : ∀ b : UInt8, isDigit b = false → (itoa n ++ t).head? ≠ some b := by
    intro b hb h
    rw [hcr] at h
    rw [← Option.some.inj h, hc] at hb
    cases hb
  have h45 := hsign 45 (by decide)
  have h43 := hsign 43 (by decide)
  simp only [scanInt, hskip, Option.bind_eq_bind, Option.bind_some, h45, h43, or_self, if_false,
    htake, hdrop, itoa_ne_nil, decVal_itoa]
  rfl

theorem scanCursor_text (c : Cursor) :
    scanCursor c.text = some ((c.part : Int), (c.row : Int)) := by
  have hpart : scanInt (itoa c.part ++ 58 :: 114 :: itoa c.row) = _ :=
    scanInt_itoa c.part (by simp; decide)
  have hrow := scanInt_itoa c.row (t := []) (by simp)
  rw [List.append_nil] at hrow
  simp only [scanCursor, Cursor.text, hpart, hrow, Option.bind_eq_bind, Option.bind_some]
  rfl

theorem decodeCursor_encode (c : Cursor) : decodeCursor c.encode = some c := by
  have hletter : ∀ n < 64, Alphabet.url.letter n ≠ 10 ∧ Alphabet.url.letter n ≠ 13 := by decide
  have hfilter : c.encode.filter (fun b => b ≠ 10 ∧ b ≠ 13) = c.encode := by
    refine List.filter_eq_self.mpr fun b hb => ?_
    obtain ⟨n, hn, rfl⟩ := Alphabet.url.exists_letter_of_mem_encode hb
    exact decide_eq_true (hletter n hn)
  have hne : c.encode ≠ [] := by
    intro h
    have hdecode := Alphabet.url.decode_encode c.text
    rw [Cursor.encode] at h
    rw [h, Alphabet.decode] at hdecode
    cases hdecode
  have hdecode : Alphabet.url.decode c.encode = some c.text := Alphabet.url.decode_encode c.text
  have hpos : ¬ ((c.part : Int) < 0 ∨ (c.row : Int) < 0) := by omega
  simp only [decodeCursor, if_neg hne, hfilter, hdecode, scanCursor_text, Option.bind_eq_bind,
    Option.bind_some, if_neg hpos]
  rfl

/-! ## Rows -/

/-- What a number is read back as. -/
def Num.double : Num → Double
  | .int n small => Double.whole n small
  | .float x => x

theorem readDouble_number (n : Num) : readDouble n.number = some n.double := by
  cases n with
  | int n small => exact (parseFloat_intText n).trans (Double.ofInt_whole n small)
  | float x => exact parseFloat_goFloat x

/-- The values of a row as a reader gets them. -/
def deliveredRow (cols : List Column) (vals : List Value) : Row :=
  JsonTree.mapItems Num.double (JsonTree.sortedItems keyLE ((mapRow cols vals).map Prod.fst))

/-- How deep the brackets of an encoded row nest. -/
def rowDepth (cols : List Column) (vals : List Value) : Nat :=
  (rowJson ((mapRow cols vals).map Prod.fst)).depth

theorem unmarshalRow_encodeRow (cols : List Column) (vals : List Value) :
    unmarshalRow (encodeRow cols vals) =
      if rowDepth cols vals ≤ maxNestingDepth then some (deliveredRow cols vals) else none := by
  have hread := Json.read_encode maxNestingDepth (rowJson ((mapRow cols vals).map Prod.fst))
  have htree : JsonTree.ofJson readDouble (rowJson ((mapRow cols vals).map Prod.fst)) =
      some (.arr (deliveredRow cols vals)) := JsonTree.ofJson_toJson readDouble_number _
  unfold unmarshalRow encodeRow rowDepth
  by_cases hdepth : (rowJson ((mapRow cols vals).map Prod.fst)).depth ≤ maxNestingDepth
  · rw [if_pos hdepth] at hread
    rw [if_pos hdepth, hread, Option.bind_eq_bind, Option.bind_some, htree]
    rfl
  · rw [if_neg hdepth] at hread
    rw [if_neg hdepth, hread]
    rfl

theorem encodeRow_line (cols : List Column) (vals : List Value) :
    10 ∉ encodeRow cols vals ∧ (encodeRow cols vals).getLast? ≠ some 13 := by
  have hle : ∀ c ∈ encodeRow cols vals, 32 ≤ c := Json.le_of_mem_encode _
  refine ⟨fun h => absurd (hle 10 h) (by decide), fun h => ?_⟩
  exact absurd (hle 13 (List.mem_of_getLast? h)) (by decide)

/-- A row that the reader takes: its line fits the buffer, and `json.Unmarshal` follows it. -/
def Readable (cols : List Column) (vals : List Value) : Prop :=
  (encodeRow cols vals).length < maxTokenSize ∧ rowDepth cols vals ≤ maxNestingDepth

instance (cols : List Column) (vals : List Value) : Decidable (Readable cols vals) :=
  inferInstanceAs (Decidable (_ ∧ _))

/-! ## Parts -/

theorem partName_injective : Function.Injective partName := by
  intro m n h
  exact pad_injective 5 (List.append_cancel_left (List.append_cancel_right h))

/-- What a part holds. -/
def partText (cols : List Column) (rows : List (List Value)) : Bytes :=
  joinLines (rows.map (encodeRow cols))

/-- The parts of a directory are these rows, and no part is empty. -/
structure Parts (cols : List Column) (chunks : List (List (List Value))) (d : Dir)
    (parts : List PartInfo) : Prop where
  infos : parts = chunks.mapIdx fun i rows => ⟨partName i, rows.length⟩
  files : ∀ i rows, chunks[i]? = some rows →
    d.files.lookup (partName i) = some (partText cols rows)
  full : ∀ rows ∈ chunks, rows ≠ []

/-- The rows of a writer: those in its parts, and those in its buffer. -/
structure Writing (cols : List Column) (chunks : List (List (List Value)))
    (tail : List (List Value)) (w : Writer) : Prop where
  parts : Parts cols chunks w.dir w.parts
  buf : w.buf = tail.map (encodeRow cols)
  columns : w.cols = cols
  isOpen : w.isSealed = false

theorem writing_start (cols : List Column) : Writing cols [] [] (start cols) where
  parts := ⟨rfl, nofun, nofun⟩
  buf := rfl
  columns := rfl
  isOpen := rfl

variable {cols : List Column} {chunks : List (List (List Value))} {tail : List (List Value)}
  {w : Writer}

theorem Parts.create {d : Dir} {parts : List PartInfo} (h : Parts cols chunks d parts)
    (htail : tail ≠ []) :
    Parts cols (chunks ++ [tail]) (d.create (partName parts.length) (partText cols tail))
      (parts ++ [⟨partName parts.length, tail.length⟩]) := by
  have hlength : parts.length = chunks.length := by rw [h.infos, List.length_mapIdx]
  refine ⟨?_, ?_, ?_⟩
  · rw [List.mapIdx_append, hlength, h.infos, List.mapIdx_singleton, Nat.zero_add]
  · intro i rows hi
    rw [hlength, Dir.create]
    by_cases hlt : i < chunks.length
    · rw [List.getElem?_append_left hlt] at hi
      rw [AList.lookup_insert_ne fun heq => hlt.ne (partName_injective heq)]
      exact h.files i rows hi
    · rw [List.getElem?_append_right (Nat.not_lt.mp hlt), List.getElem?_singleton] at hi
      split at hi
      · next hzero =>
        have hi' : i = chunks.length := by omega
        rw [hi', ← Option.some.inj hi]
        exact AList.lookup_insert _
      · cases hi
  · intro rows hrows
    rcases List.mem_append.mp hrows with hrows | hrows
    · exact h.full rows hrows
    · rw [List.mem_singleton.mp hrows]
      exact htail

theorem Writing.flush (h : Writing cols chunks tail w) :
    ∃ chunks', Writing cols chunks' [] w.flush ∧ chunks'.flatten = chunks.flatten ++ tail := by
  by_cases htail : tail = []
  · have hbuf : w.buf = [] := by rw [h.buf, htail, List.map_nil]
    rw [Writer.flush, if_pos hbuf, htail, List.append_nil]
    exact ⟨chunks, ⟨h.parts, by rw [hbuf, List.map_nil], h.columns, h.isOpen⟩, rfl⟩
  · have hbuf : w.buf ≠ [] := by
      rw [h.buf]
      exact fun hnil => htail (List.map_eq_nil_iff.mp hnil)
    have htext : joinLines w.buf = partText cols tail := by rw [h.buf, partText]
    have hlength : w.buf.length = tail.length := by rw [h.buf, List.length_map]
    rw [Writer.flush, if_neg hbuf]
    simp only [htext, hlength]
    exact ⟨chunks ++ [tail], ⟨h.parts.create htail, rfl, h.columns, h.isOpen⟩, by simp⟩

theorem Writing.push (h : Writing cols chunks tail w) (vals : List Value) :
    Writing cols chunks (tail ++ [vals]) (w.push vals) where
  parts := h.parts
  buf := by
    rw [List.map_append, ← h.buf, ← h.columns]
    rfl
  columns := h.columns
  isOpen := h.isOpen

theorem Writing.row (h : Writing cols chunks tail w) (vals : List Value) :
    ∃ chunks' tail', Writing cols chunks' tail' (w.row vals) ∧
      chunks'.flatten ++ tail' = chunks.flatten ++ tail ++ [vals] := by
  have hpush := h.push vals
  unfold Writer.row
  simp only
  split
  · obtain ⟨chunks', hflush, hrows⟩ := hpush.flush
    exact ⟨chunks', [], hflush, by rw [List.append_nil, hrows, List.append_assoc]⟩
  · exact ⟨chunks, tail ++ [vals], hpush, (List.append_assoc _ _ _).symm⟩

theorem Writing.rows (h : Writing cols chunks tail w) (rows : List (List Value)) :
    ∃ chunks' tail', Writing cols chunks' tail' (rows.foldl Writer.row w) ∧
      chunks'.flatten ++ tail' = chunks.flatten ++ tail ++ rows := by
  induction rows generalizing chunks tail w with
  | nil => exact ⟨chunks, tail, h, (List.append_nil _).symm⟩
  | cons vals rows ih =>
    obtain ⟨chunks₁, tail₁, h₁, hrows₁⟩ := h.row vals
    obtain ⟨chunks₂, tail₂, h₂, hrows₂⟩ := ih h₁
    refine ⟨chunks₂, tail₂, h₂, ?_⟩
    rw [hrows₂, hrows₁, List.append_assoc, List.singleton_append]

theorem exists_parts (cols : List Column) (rows : List (List Value)) :
    ∃ chunks m, (written cols rows).manifest = some m ∧
      Parts cols chunks (written cols rows) m.parts ∧ chunks.flatten = rows := by
  obtain ⟨chunks₁, tail, h₁, hrows⟩ := (writing_start cols).rows rows
  obtain ⟨chunks, h, hflush⟩ := h₁.flush
  let w := (rows.foldl Writer.row (start cols)).flush
  have hdir : written cols rows =
      { w.dir with manifest := some ⟨w.cols, w.parts, w.rows, w.warns⟩ } := by
    rw [written, Writer.sealParts, if_neg (by rw [h₁.isOpen]; decide)]
  rw [hdir]
  refine ⟨chunks, _, rfl, ⟨h.parts.infos, h.parts.files, h.parts.full⟩, ?_⟩
  rw [hflush, hrows]
  rfl

theorem mapM_map_eq_ite {α β γ : Type} {f : β → Option γ} {k : α → β} {g : α → γ} {P : α → Prop}
    [DecidablePred P] (h : ∀ a, f (k a) = if P a then some (g a) else none) (l : List α) :
    (l.map k).mapM f = if ∀ a ∈ l, P a then some (l.map g) else none := by
  induction l with
  | nil =>
    rw [if_pos nofun]
    rfl
  | cons a l ih =>
    rw [List.map_cons, List.mapM_cons, h, ih]
    by_cases ha : P a
    · by_cases hl : ∀ a ∈ l, P a
      · rw [if_pos ha, if_pos hl, if_pos (List.forall_mem_cons.mpr ⟨ha, hl⟩)]
        rfl
      · rw [if_pos ha, if_neg hl, if_neg fun h => hl (List.forall_mem_cons.mp h).2]
        rfl
    · rw [if_neg ha, if_neg fun h => ha (List.forall_mem_cons.mp h).1]
      rfl

variable {rows : List (List Value)} {infos : List PartInfo} {c : Cursor}

theorem readPart_eq {d : Dir} {file : Bytes} (h : d.files.lookup file = some (partText cols rows)) :
    readPart d file =
      if ∀ vals ∈ rows, Readable cols vals then some (rows.map (deliveredRow cols)) else none := by
  have hlines : ∀ line ∈ rows.map (encodeRow cols), 10 ∉ line ∧ line.getLast? ≠ some 13 := by
    intro line hline
    obtain ⟨vals, -, rfl⟩ := List.mem_map.mp hline
    exact encodeRow_line cols vals
  have hscan := scanLines_join (show 0 < maxTokenSize by decide) hlines
  simp only [List.forall_mem_map] at hscan
  have hmap := mapM_map_eq_ite (unmarshalRow_encodeRow cols) rows
  rw [readPart, h, Option.bind_eq_bind, Option.bind_some, partText, hscan]
  by_cases hshort : ∀ vals ∈ rows, (encodeRow cols vals).length < maxTokenSize
  · rw [if_pos hshort, Option.bind_eq_bind, Option.bind_some, hmap]
    by_cases hdepth : ∀ vals ∈ rows, rowDepth cols vals ≤ maxNestingDepth
    · rw [if_pos hdepth, if_pos fun vals hv => ⟨hshort vals hv, hdepth vals hv⟩]
    · rw [if_neg hdepth, if_neg fun h => hdepth fun vals hv => (h vals hv).2]
  · rw [if_neg hshort, if_neg fun h => hshort fun vals hv => (h vals hv).1]
    rfl

/-! ## Pages -/

/-- The rows from a cursor on. -/
def restOf {α : Type} (rowss : List (List α)) (c : Cursor) : List α :=
  (rowss.drop c.part).flatten.drop c.row

/-- The row of a cursor is in its part. -/
def InPart {α : Type} (rowss : List (List α)) (c : Cursor) : Prop :=
  ∀ rows ∈ (rowss.drop c.part).head?, c.row < rows.length

variable {α : Type}

theorem readRows_spec {read : PartInfo → Option (List α)} {limit : Nat}
    {rowss : List (List α)}
    (hread : List.Forall₂ (fun info rows => read info = some rows) infos rowss)
    (hfull : ∀ rows ∈ rowss, rows ≠ []) (part skip : Nat) (acc : List α)
    (hskip : ∀ rows ∈ rowss.head?, skip < rows.length) (hacc : acc.length ≤ limit) :
    ∃ k skip', readRows read limit infos part skip acc =
        some (acc ++ (rowss.flatten.drop skip).take (limit - acc.length), ⟨part + k, skip'⟩) ∧
      k ≤ rowss.length ∧ InPart rowss ⟨k, skip'⟩ ∧
      restOf rowss ⟨k, skip'⟩ = (rowss.flatten.drop skip).drop (limit - acc.length) := by
  induction hread generalizing part skip acc with
  | nil =>
    refine ⟨0, skip, ?_, le_rfl, nofun, ?_⟩
    · simp [readRows]
    · simp [restOf]
  | @cons info rows infos rowss hinfo hread ih =>
    have hrows : skip < rows.length := hskip rows rfl
    have hdrop : (rows :: rowss).flatten.drop skip = rows.drop skip ++ rowss.flatten := by
      rw [List.flatten_cons, List.drop_append_of_le_length hrows.le]
    by_cases hlt : acc.length < limit
    · rw [readRows, if_pos hlt, hinfo, Option.bind_eq_bind, Option.bind_some]
      simp only
      split
      · next hdone =>
        -- the part is used up, and the next one begins at its first row
        rw [List.length_take, List.length_drop] at hdone
        have htaken : (rows.drop skip).take (limit - acc.length) = rows.drop skip :=
          List.take_of_length_le (by rw [List.length_drop]; omega)
        rw [htaken]
        have hnext : ∀ rows ∈ rowss.head?, 0 < rows.length := fun rows hrows =>
          List.length_pos_of_ne_nil
            (hfull rows (List.mem_cons_of_mem _ (List.mem_of_mem_head? hrows)))
        obtain ⟨k, skip', hk, hle, hin, hrest⟩ := ih
          (fun rows hrows => hfull rows (List.mem_cons_of_mem _ hrows)) (part + 1) 0
          (acc ++ rows.drop skip) hnext (by rw [List.length_append, List.length_drop]; omega)
        have hsub : limit - (acc ++ rows.drop skip).length =
            limit - acc.length - (rows.drop skip).length := by
          rw [List.length_append]
          omega
        refine ⟨k + 1, skip', ?_, Nat.succ_le_succ hle, hin, ?_⟩
        · rw [hk, hdrop, List.take_append, htaken, hsub, List.drop_zero, List.append_assoc,
            Nat.add_assoc, Nat.add_comm 1]
        · have hgone : (rows.drop skip).drop (limit - acc.length) = [] :=
            List.drop_eq_nil_of_le (by rw [List.length_drop]; omega)
          rw [hdrop, List.drop_append, hgone, List.nil_append, ← hsub]
          exact hrest
      · next hmore =>
        rw [List.length_take, List.length_drop] at hmore
        have hlen : ((rows.drop skip).take (limit - acc.length)).length = limit - acc.length := by
          rw [List.length_take, List.length_drop]
          omega
        refine ⟨0, skip + (limit - acc.length), ?_, Nat.zero_le _, ?_, ?_⟩
        · rw [hlen, hdrop, List.take_append_of_le_length (by rw [List.length_drop]; omega)]
          rfl
        · intro rows' hrows'
          obtain rfl := Option.some.inj hrows'
          change skip + (limit - acc.length) < rows.length
          omega
        · rw [List.drop_drop]
          rfl
    · have hzero : limit - acc.length = 0 := by omega
      refine ⟨0, skip, ?_, Nat.zero_le _, hskip, ?_⟩
      · rw [readRows, if_neg hlt, hzero, List.take_zero, List.append_nil]
        rfl
      · rw [hzero]
        rfl

theorem readRows_stuck {read : PartInfo → Option (List α)} {limit : Nat}
    {j : Nat} {info : PartInfo} (hj : infos[j]? = some info)
    (hnone : read info = none) {part skip : Nat} {acc rows : List α}
    (h : readRows read limit infos part skip acc = some (rows, c)) : c.part ≤ part + j := by
  induction infos generalizing j part skip acc with
  | nil => cases hj
  | cons i infos ih =>
    rw [readRows] at h
    split at h
    · cases hi : read i with
      | none =>
        rw [hi] at h
        cases h
      | some rows' =>
        rw [hi, Option.bind_eq_bind, Option.bind_some] at h
        simp only at h
        split at h
        · cases j with
          | zero =>
            rw [List.getElem?_cons_zero] at hj
            rw [Option.some.inj hj, hnone] at hi
            cases hi
          | succ j =>
            have := ih hj h
            omega
        · obtain ⟨-, rfl⟩ := Prod.mk.inj (Option.some.inj h)
          exact Nat.le_add_right _ _
    · obtain ⟨-, rfl⟩ := Prod.mk.inj (Option.some.inj h)
      exact Nat.le_add_right _ _

/-! ## Following the cursors -/

/-- What a page is, when its parts can be read. -/
structure TakesPage {α : Type} (rowss : List (List α)) (limit : Nat) (c : Cursor)
    (rows : List α) (next : Cursor) : Prop where
  rows_eq : rows = (restOf rowss c).take limit
  rest_eq : restOf rowss next = (restOf rowss c).drop limit
  inPart : InPart rowss next
  more_iff : next.part < rowss.length ↔ restOf rowss next ≠ []

theorem InPart.more_iff {rowss : List (List α)} (h : InPart rowss c) :
    c.part < rowss.length ↔ restOf rowss c ≠ [] := by
  refine ⟨fun hlt => ?_, fun hne => Nat.not_le.mp fun hle => hne ?_⟩
  · obtain ⟨rows, rest, hdrop⟩ := List.exists_cons_of_ne_nil
      (List.ne_nil_of_length_pos (l := rowss.drop c.part) (by rw [List.length_drop]; omega))
    have hrow := h rows (by rw [hdrop]; rfl)
    refine List.ne_nil_of_length_pos ?_
    rw [restOf, hdrop, List.flatten_cons, List.length_drop, List.length_append]
    omega
  · rw [restOf, List.drop_eq_nil_of_le hle]
    exact List.drop_nil

theorem readRows_page {read : PartInfo → Option (List α)} {rowss : List (List α)}
    (hread : List.Forall₂ (fun info rows => read info = some rows) infos rowss)
    (hfull : ∀ rows ∈ rowss, rows ≠ []) (limit : Nat) (hc : InPart rowss c) :
    ∃ rows next, readRows read limit (infos.drop c.part) c.part c.row [] = some (rows, next) ∧
      TakesPage rowss limit c rows next := by
  obtain ⟨k, skip', hpage, -, hin, hrest⟩ := readRows_spec (List.forall₂_drop c.part hread)
    (fun rows hrows => hfull rows (List.mem_of_mem_drop hrows)) c.part c.row [] hc
    (Nat.zero_le limit)
  have hdrop : (rowss.drop c.part).drop k = rowss.drop (c.part + k) := List.drop_drop
  have hnext : InPart rowss ⟨c.part + k, skip'⟩ := by
    intro rows hrows
    exact hin rows (by rw [hdrop]; exact hrows)
  refine ⟨_, _, hpage, rfl, ?_, hnext, hnext.more_iff⟩
  rw [restOf, ← hdrop]
  exact hrest

/-- The pages deliver rows: in order, each once, with more to come until all are there, and
every cursor on the way is what its text stands for. -/
structure Delivers (rows : List Row) (pages : List Page) : Prop where
  rows_eq : pages.flatMap Page.rows = rows
  more_iff : ∀ before page after, pages = before ++ page :: after →
    (page.hasMore = false ↔ ((before ++ [page]).flatMap Page.rows).length = rows.length)
  cursors : ∀ page ∈ pages, page.hasMore = true →
    ∃ c : Cursor, page.nextCursor = c.encode ∧ decodeCursor c.encode = some c

theorem delivers_last {rows : List Row} {page : Page} (hrows : page.rows = rows)
    (hmore : page.hasMore = false) : Delivers rows [page] where
  rows_eq := by rw [List.flatMap_singleton, hrows]
  more_iff := by
    intro before page' after h
    obtain ⟨rfl, hpages⟩ : before = [] ∧ page = page' := by
      cases before with
      | nil => exact ⟨rfl, (List.cons.inj h).1⟩
      | cons p before =>
        have hnil := (List.cons.inj h).2
        exact absurd hnil.symm (by simp)
    rw [List.nil_append, List.flatMap_singleton, ← hpages, hrows, hmore]
    exact ⟨fun _ => rfl, fun _ => rfl⟩
  cursors := by
    intro page' hpage' h
    rw [List.mem_singleton.mp hpage', hmore] at h
    cases h

theorem Delivers.cons {rest : List Row} {page : Page} {pages : List Page} {next : Cursor}
    (h : Delivers rest pages) (hrest : rest ≠ []) (hmore : page.hasMore = true)
    (hnext : page.nextCursor = next.encode) : Delivers (page.rows ++ rest) (page :: pages) where
  rows_eq := by rw [List.flatMap_cons, h.rows_eq]
  more_iff := by
    intro before page' after heq
    cases before with
    | nil =>
      obtain ⟨rfl, -⟩ := List.cons.inj heq
      have hlen := List.length_pos_of_ne_nil hrest
      rw [List.nil_append, List.flatMap_singleton, hmore, List.length_append]
      exact ⟨nofun, fun h => by omega⟩
    | cons p before =>
      obtain ⟨rfl, hpages⟩ := List.cons.inj heq
      rw [h.more_iff before page' after hpages, List.cons_append, List.flatMap_cons,
        List.length_append, List.length_append]
      exact ⟨fun h => by omega, fun h => by omega⟩
  cursors := by
    intro page' hpage' h'
    rcases List.mem_cons.mp hpage' with rfl | hpage'
    · exact ⟨next, hnext, decodeCursor_encode next⟩
    · exact h.cursors page' hpage' h'

variable {d : Dir} {m : Manifest} {limit : Nat}

/-- The page of the rows that were taken. -/
def pageOf (m : Manifest) (rows : List Row) (next : Cursor) : Page :=
  ⟨m.columns, rows, if next.part < m.parts.length then next.encode else [],
    next.part < m.parts.length, m.totalRows, m.warnings⟩

theorem readPage_eq (hmanifest : d.manifest = some m) (c : Cursor) :
    readPage d c limit = (readRows (fun info => readPart d info.file) limit (m.parts.drop c.part)
      c.part c.row []).map fun p => pageOf m p.1 p.2 := by
  rw [readPage, hmanifest, Option.bind_eq_bind, Option.bind_some]
  simp only [pageOf, decide_eq_true_eq]
  cases readRows (fun info => readPart d info.file) limit (m.parts.drop c.part) c.part c.row [] <;>
    rfl

variable {s : Bytes}

theorem follow_succ (hs : decodeCursor s = some c) (n : Nat) :
    follow d limit (n + 1) s = (readPage d c limit).bind fun page =>
      if page.hasMore then (follow d limit n page.nextCursor).map (page :: ·) else some [page] := by
  rw [follow, hs, Option.bind_eq_bind, Option.bind_some, Option.bind_eq_bind]
  refine congrArg (readPage d c limit).bind (funext fun page => ?_)
  split
  · cases follow d limit n page.nextCursor with
    | none => rfl
    | some pages => rfl
  · rfl

theorem follow_spec {rowss : List (List Row)} (hmanifest : d.manifest = some m)
    (hread : List.Forall₂ (fun info rows => readPart d info.file = some rows) m.parts rowss)
    (hfull : ∀ rows ∈ rowss, rows ≠ []) (hlimit : 1 ≤ limit) (n : Nat)
    (hs : decodeCursor s = some c) (hc : InPart rowss c) (hn : (restOf rowss c).length < n) :
    ∃ pages, follow d limit n s = some pages ∧ Delivers (restOf rowss c) pages := by
  induction n generalizing s c with
  | zero => exact absurd hn (Nat.not_lt_zero _)
  | succ n ih =>
    obtain ⟨rows, next, hpage, htake⟩ := readRows_page hread hfull limit hc
    have hlength : m.parts.length = rowss.length := hread.length_eq
    have hsplit : rows ++ restOf rowss next = restOf rowss c := by
      rw [htake.rows_eq, htake.rest_eq, List.take_append_drop]
    rw [follow_succ hs, readPage_eq hmanifest, hpage, Option.map_some, Option.bind_some]
    by_cases hmore : next.part < rowss.length
    · have hne : restOf rowss next ≠ [] := htake.more_iff.mp hmore
      have hlt : (restOf rowss next).length < n := by
        have hpos : 0 < (restOf rowss c).length := by
          rw [← hsplit, List.length_append]
          exact Nat.lt_of_lt_of_le (List.length_pos_of_ne_nil hne) (Nat.le_add_left _ _)
        rw [htake.rest_eq, List.length_drop]
        omega
      obtain ⟨pages, hpages, hdelivers⟩ := ih (decodeCursor_encode next) htake.inPart hlt
      have hpage : (pageOf m rows next).hasMore = true ∧
          (pageOf m rows next).nextCursor = next.encode := by
        rw [← hlength] at hmore
        exact ⟨decide_eq_true hmore, if_pos hmore⟩
      rw [if_pos hpage.1, hpage.2, hpages]
      refine ⟨_, rfl, ?_⟩
      rw [← hsplit]
      exact hdelivers.cons hne hpage.1 hpage.2
    · have hnil : restOf rowss next = [] := by
        by_contra hne
        exact hmore (htake.more_iff.mpr hne)
      have hpage : (pageOf m rows next).hasMore = false := by
        rw [← hlength] at hmore
        exact decide_eq_false hmore
      rw [if_neg (by rw [hpage]; decide)]
      refine ⟨_, rfl, delivers_last ?_ hpage⟩
      rw [← hsplit, hnil, List.append_nil]
      rfl

/-- A part that cannot be read is never passed. -/
theorem follow_stuck (hmanifest : d.manifest = some m) {j : Nat} {info : PartInfo}
    (hj : m.parts[j]? = some info) (hnone : readPart d info.file = none) (n : Nat)
    (hs : decodeCursor s = some c) (hc : c.part ≤ j) : follow d limit n s = none := by
  induction n generalizing s c with
  | zero => rfl
  | succ n ih =>
    rw [follow_succ hs, readPage_eq hmanifest]
    cases hpage : readRows (fun info => readPart d info.file) limit (m.parts.drop c.part) c.part
        c.row [] with
    | none => rfl
    | some p =>
      obtain ⟨rows, next⟩ := p
      have hdrop : (m.parts.drop c.part)[j - c.part]? = some info := by
        rw [List.getElem?_drop, Nat.add_sub_cancel' hc]
        exact hj
      have hnext : next.part ≤ j := by
        have := readRows_stuck hdrop hnone hpage
        omega
      have hmore : next.part < m.parts.length := hnext.trans_lt (List.getElem?_eq_some_iff.mp hj).1
      have hcursor : (pageOf m rows next).nextCursor = next.encode := if_pos hmore
      have hflag : (pageOf m rows next).hasMore = true := decide_eq_true hmore
      rw [Option.map_some, Option.bind_some]
      simp only [hflag, if_true, hcursor, ih (decodeCursor_encode next) hnext]
      rfl

/-! ## Results -/

/-- Following the cursors from the empty one ends, and delivers the rows. -/
def Paged (d : Dir) (limit : Nat) (rows : List Row) : Prop :=
  ∃ n pages, follow d limit n [] = some pages ∧ Delivers rows pages

theorem Parts.getElem {parts : List PartInfo} (h : Parts cols chunks d parts) {j : Nat}
    (hj : chunks[j]? = some rows) : parts[j]? = some ⟨partName j, rows.length⟩ := by
  rw [h.infos, List.getElem?_mapIdx, hj]
  rfl

theorem not_paged {vals : List Value} (hvals : vals ∈ rows)
    (hbad : ¬ Readable cols vals) (delivered : List Row) :
    ¬ Paged (written cols rows) limit delivered := by
  rintro ⟨n, pages, hpages, -⟩
  obtain ⟨chunks, m, hmanifest, hparts, hrows⟩ := exists_parts cols rows
  rw [← hrows] at hvals
  obtain ⟨chunk, hchunk, hmem⟩ := List.mem_flatten.mp hvals
  obtain ⟨j, hj⟩ := List.mem_iff_getElem?.mp hchunk
  have hnone : readPart (written cols rows) (partName j) = none := by
    rw [readPart_eq (hparts.files j chunk hj), if_neg fun h => hbad (h vals hmem)]
  rw [follow_stuck hmanifest (hparts.getElem hj) hnone n rfl (Nat.zero_le j)] at hpages
  cases hpages

/-- The pages are the rows that were written, exactly if the reader takes each of them. -/
theorem paged_iff (cols : List Column) (rows : List (List Value)) (limit : Nat)
    (hlimit : 1 ≤ limit) : Paged (written cols rows) limit (rows.map (deliveredRow cols)) ↔
      ∀ vals ∈ rows, Readable cols vals := by
  refine ⟨fun h vals hvals => ?_, fun h => ?_⟩
  · by_contra hbad
    exact not_paged hvals hbad _ h
  · obtain ⟨chunks, m, hmanifest, hparts, hrows⟩ := exists_parts cols rows
    have hread : List.Forall₂
        (fun info rows' => readPart (written cols rows) info.file = some rows') m.parts
        (chunks.map fun chunk => chunk.map (deliveredRow cols)) := by
      refine List.forall₂_iff_get.mpr ⟨?_, ?_⟩
      · rw [hparts.infos, List.length_mapIdx, List.length_map]
      · intro j h₁ h₂
        rw [List.length_map] at h₂
        have hj : chunks[j]? = some chunks[j] := List.getElem?_eq_getElem h₂
        have hinfo := List.getElem?_eq_some_iff.mp (hparts.getElem hj)
        have hall : ∀ vals ∈ chunks[j], Readable cols vals := fun vals hv =>
          h vals (by rw [← hrows]; exact List.mem_flatten.mpr ⟨_, List.getElem_mem h₂, hv⟩)
        simp only [List.get_eq_getElem, List.getElem_map]
        rw [hinfo.2, readPart_eq (hparts.files j _ hj), if_pos hall]
    have hfull : ∀ rows' ∈ chunks.map (fun chunk => chunk.map (deliveredRow cols)), rows' ≠ [] := by
      intro rows' hrows'
      obtain ⟨chunk, hchunk, rfl⟩ := List.mem_map.mp hrows'
      exact fun hnil => hparts.full chunk hchunk (List.map_eq_nil_iff.mp hnil)
    have hin : InPart (chunks.map fun chunk => chunk.map (deliveredRow cols)) ⟨0, 0⟩ :=
      fun rows' hrows' => List.length_pos_of_ne_nil (hfull rows' (List.mem_of_mem_head? hrows'))
    have hstart : decodeCursor [] = some ⟨0, 0⟩ := rfl
    obtain ⟨pages, hpages, hdelivers⟩ := follow_spec hmanifest hread hfull hlimit _ hstart hin
      (Nat.lt_succ_self _)
    refine ⟨_, pages, hpages, ?_⟩
    have hrest : restOf (chunks.map fun chunk => chunk.map (deliveredRow cols)) ⟨0, 0⟩ =
        rows.map (deliveredRow cols) := by
      rw [← hrows, List.map_flatten]
      rfl
    rw [← hrest]
    exact hdelivers

theorem paged_two_rows : Paged (written [⟨"id", "integer"⟩] [[.int 1], [.int 2]]) 1
      ([[.int 1], [.int 2]].map (deliveredRow [⟨"id", "integer"⟩])) :=
  (paged_iff [⟨"id", "integer"⟩] [[.int 1], [.int 2]] 1 le_rfl).mpr (by decide)

/-! ## A line as long as the buffer -/

theorem escapeByte_length_pos (c : UInt8) : 0 < (escapeByte c).length := by
  obtain ⟨h, -⟩ | ⟨e, h, -⟩ | h := escapeByte_cases c <;> rw [h] <;> exact Nat.succ_pos _

theorem length_le_escape (s : Bytes) : s.length ≤ (escape s).length := by
  have hline : (bytes "\\u2028").length = 6 ∧ (bytes "\\u2029").length = 6 := by decide
  fun_induction escape s with
  | case1 s ih =>
    simp only [List.length_cons, List.length_append]
    omega
  | case2 s ih =>
    simp only [List.length_cons, List.length_append]
    omega
  | case3 c s h h' ih =>
    have := escapeByte_length_pos c
    simp only [List.length_cons, List.length_append]
    omega
  | case4 => exact Nat.le_refl _

/-- A text of so many letters. -/
def letters (n : Nat) : String := String.ofList (List.replicate n 'a')

theorem length_bytes_letters (n : Nat) : (bytes (letters n)).length = n := by
  have hletter : String.utf8EncodeChar 'a' = [97] := by decide
  rw [bytes_eq_flatMap, letters, String.toList_ofList, List.length_flatMap, List.map_replicate,
    hletter, List.sum_replicate_nat, List.length_singleton, Nat.mul_one]

theorem length_le_encodeRow (s : String) : (bytes s).length ≤ (encodeRow [] [.str s]).length := by
  have hencode : encodeRow [] [.str s] = 91 :: (quote (bytes s) ++ [93]) := rfl
  have hescape := length_le_escape (bytes s)
  rw [hencode, quote]
  simp only [List.length_cons, List.length_append]
  omega

/-- A row of one long text is written and cannot be paged. -/
theorem long_row_not_paged : ¬ Paged (written [] [[.str (letters maxTokenSize)]]) 1
      ([[.str (letters maxTokenSize)]].map (deliveredRow [])) := by
  refine not_paged (List.mem_singleton_self _) (fun h => ?_) _
  have hlen := length_le_encodeRow (letters maxTokenSize)
  rw [length_bytes_letters] at hlen
  exact absurd h.1 (Nat.not_lt.mpr hlen)

end Windrose.Query.Results

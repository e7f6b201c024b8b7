/-
  Foundation/Json.lean --- the compact text of a JSON value.

  A number is given by its text, and a string is a `String`, which is valid UTF-8
  by construction.  Languages write the rest in their own ways: a `Writer` says how
  strings are written and what stands between values.  Its texts are a prefix code
  (`Writer.write_append_inj`): a value can be cut off the start of a text in one way
  only, when no byte of a number follows it.  So a value can be read back behind
  which anything else is written.

  `encode` writes a value as `encoding/json` does: no blanks, HTML characters and
  the two line separators escaped inside strings.
-/
import Windrose.Foundation.Bytes

set_option autoImplicit false

namespace Windrose.Foundation

/-! ## Values -/

/-- The bytes a number is written with. -/
def isNumberByte (c : UInt8) : Bool := isDigit c || c == 45 || c == 43 || c == 46 || c == 101

/-- A number, by its text. -/
structure Number where
  text : Bytes
  ne_nil : text ≠ []
  all : ∀ c ∈ text, isNumberByte c = true
  deriving DecidableEq

/-- A JSON value; the fields of an object in the order they are written in. -/
inductive Json where
  | null
  | bool (b : Bool)
  | num (n : Number)
  | str (s : String)
  | arr (vs : List Json)
  | obj (fs : List (String × Json))

/-! ## Strings -/

/-- The bytes with an escape of two bytes, and its second byte. -/
def shortEscapes : List (UInt8 × UInt8) :=
  [(34, 34), (92, 92), (8, 98), (12, 102), (10, 110), (13, 114), (9, 116)]

/-- One byte of a string. -/
def escapeByte (c : UInt8) : Bytes :=
  match shortEscapes.lookup c with
  | some e => [92, e]
  | none => if c < 32 ∨ c = 60 ∨ c = 62 ∨ c = 38 then [92, 117, 48, 48] ++ hexByte c else [c]

/-- The bytes of a string between its quotes. -/
def escape : Bytes → Bytes
  | 226 :: 128 :: 168 :: s => bytes "\\u2028" ++ escape s
  | 226 :: 128 :: 169 :: s => bytes "\\u2029" ++ escape s
  | c :: s => escapeByte c ++ escape s
  | [] => []

def quote (s : Bytes) : Bytes := 34 :: (escape s ++ [34])

/-- Which byte an escape of two bytes stands for. -/
def unescape (e : UInt8) : UInt8 := ((shortEscapes.find? (·.2 = e)).map Prod.fst).getD e

variable {c : UInt8} {x y : Bytes}

theorem unescape_of_lookup {e : UInt8} (h : shortEscapes.lookup c = some e) :
    unescape e = c ∧ e ≠ 117 := by
  have htable : ∀ p ∈ shortEscapes, unescape p.2 = p.1 ∧ p.2 ≠ 117 :=
      by simp [shortEscapes, unescape]
  obtain ⟨l₁, l₂, hsplit, -⟩ := List.lookup_eq_some_iff.mp h
  exact htable (c, e) (by rw [hsplit]; simp)

theorem escapeByte_cases (c : UInt8) : (escapeByte c = [c] ∧ c ≠ 92 ∧ c ≠ 34) ∨
      (∃ e, escapeByte c = [92, e] ∧ unescape e = c ∧ e ≠ 117) ∨
      escapeByte c = [92, 117, 48, 48] ++ hexByte c := by
  unfold escapeByte
  cases h : shortEscapes.lookup c with
  | some e => exact .inr (.inl ⟨e, rfl, unescape_of_lookup h⟩)
  | none =>
    have h92 : c ≠ 92 := by
      rintro rfl
      cases h
    have h34 : c ≠ 34 := by
      rintro rfl
      cases h
    simp only
    split
    · exact .inr (.inr rfl)
    · exact .inl ⟨rfl, h92, h34⟩

theorem escapeByte_append_inj {d : UInt8} {u v : Bytes}
    (h : escapeByte c ++ u = escapeByte d ++ v) : c = d ∧ u = v := by
  obtain ⟨hc, hc92, -⟩ | ⟨e, hc, hce, he⟩ | hc := escapeByte_cases c
  · obtain ⟨hd, -, -⟩ | ⟨e', hd, -, -⟩ | hd := escapeByte_cases d
    · rw [hc, hd] at h
      exact List.cons.inj h
    · rw [hc, hd] at h
      exact absurd (List.cons.inj h).1 hc92
    · rw [hc, hd] at h
      exact absurd (List.cons.inj h).1 hc92
  · obtain ⟨hd, hd92, -⟩ | ⟨e', hd, hde, -⟩ | hd := escapeByte_cases d
    · rw [hc, hd] at h
      exact absurd (List.cons.inj h).1.symm hd92
    · rw [hc, hd] at h
      obtain ⟨hee, huv⟩ := List.cons.inj (List.cons.inj h).2
      exact ⟨by rw [← hce, ← hde, hee], huv⟩
    · rw [hc, hd] at h
      exact absurd (List.cons.inj (List.cons.inj h).2).1 he
  · obtain ⟨hd, hd92, -⟩ | ⟨e', hd, -, he'⟩ | hd := escapeByte_cases d
    · rw [hc, hd] at h
      exact absurd (List.cons.inj h).1.symm hd92
    · rw [hc, hd] at h
      exact absurd (List.cons.inj (List.cons.inj h).2).1.symm he'
    · rw [hc, hd, List.append_assoc, List.append_assoc] at h
      obtain ⟨hhex, huv⟩ := List.append_inj (List.append_cancel_left h) rfl
      exact ⟨hexByte_injective hhex, huv⟩

theorem escapeByte_append_ne {x : UInt8} {u v : Bytes} :
    escapeByte c ++ u ≠ 92 :: 117 :: 50 :: 48 :: 50 :: x :: v := by
  intro h
  obtain ⟨hc, hc92, -⟩ | ⟨e, hc, -, he⟩ | hc := escapeByte_cases c
  · rw [hc] at h
    exact hc92 (List.cons.inj h).1
  · rw [hc] at h
    exact he (List.cons.inj (List.cons.inj h).2).1
  · rw [hc] at h
    simp at h

/-- One turn of `escape`: what it writes for the start of a string, and the rest. -/
inductive EscapeTurn : Bytes → Bytes → Bytes → Prop where
  | line (s : Bytes) : EscapeTurn (226 :: 128 :: 168 :: s) (bytes "\\u2028") s
  | paragraph (s : Bytes) : EscapeTurn (226 :: 128 :: 169 :: s) (bytes "\\u2029") s
  | byte (c : UInt8) (s : Bytes) : EscapeTurn (c :: s) (escapeByte c) s

theorem escape_turn {s : Bytes} (hs : s ≠ []) :
    ∃ w r, EscapeTurn s w r ∧ escape s = w ++ escape r ∧ r.length < s.length := by
  fun_cases escape s with
  | case1 s => exact ⟨_, s, .line s, rfl, by simp only [List.length_cons]; omega⟩
  | case2 s => exact ⟨_, s, .paragraph s, rfl, by simp only [List.length_cons]; omega⟩
  | case3 c s => exact ⟨_, s, .byte c s, rfl, by simp⟩
  | case4 => exact absurd rfl hs

namespace EscapeTurn

variable {s t w w' r r' u v : Bytes}

/-- Two turns that write the same read the same. -/
theorem append_inj (h : EscapeTurn s w r) (h' : EscapeTurn t w' r') (heq : w ++ u = w' ++ v) :
    (r = r' → s = t) ∧ u = v := by
  cases h with
  | line =>
    cases h' with
    | line => exact ⟨fun hr => by rw [hr], List.append_cancel_left heq⟩
    | paragraph => exact absurd (List.append_inj heq rfl).1 (by decide)
    | byte c => exact absurd heq.symm escapeByte_append_ne
  | paragraph =>
    cases h' with
    | line => exact absurd (List.append_inj heq rfl).1 (by decide)
    | paragraph => exact ⟨fun hr => by rw [hr], List.append_cancel_left heq⟩
    | byte c => exact absurd heq.symm escapeByte_append_ne
  | byte c =>
    cases h' with
    | line => exact absurd heq escapeByte_append_ne
    | paragraph => exact absurd heq escapeByte_append_ne
    | byte d =>
      obtain ⟨rfl, huv⟩ := escapeByte_append_inj heq
      exact ⟨fun hr => by rw [hr], huv⟩

theorem append_ne_quote (h : EscapeTurn s w r) : w ++ u ≠ 34 :: v := by
  intro heq
  cases h with
  | line => exact absurd (List.cons.inj heq).1 (by decide)
  | paragraph => exact absurd (List.cons.inj heq).1 (by decide)
  | byte c =>
    obtain ⟨hc, -, hc34⟩ | ⟨e, hc, -, -⟩ | hc := escapeByte_cases c
    · rw [hc] at heq
      exact hc34 (List.cons.inj heq).1
    · rw [hc] at heq
      exact absurd (List.cons.inj heq).1 (by decide)
    · rw [hc] at heq
      exact absurd (List.cons.inj heq).1 (by decide)

end EscapeTurn

theorem escape_append_inj {s t : Bytes} (h : escape s ++ 34 :: x = escape t ++ 34 :: y) :
    s = t ∧ x = y := by
  induction hn : s.length using Nat.strong_induction_on generalizing s t with
  | _ n ih =>
    by_cases hs : s = []
    · by_cases ht : t = []
      · rw [hs, ht] at h ⊢
        exact ⟨rfl, (List.cons.inj h).2⟩
      · obtain ⟨w, r, hturn, hesc, -⟩ := escape_turn ht
        rw [hs, hesc, List.append_assoc] at h
        exact absurd h.symm hturn.append_ne_quote
    · obtain ⟨w, r, hturn, hesc, hlt⟩ := escape_turn hs
      rw [hesc, List.append_assoc] at h
      by_cases ht : t = []
      · rw [ht] at h
        exact absurd h hturn.append_ne_quote
      · obtain ⟨w', r', hturn', hesc', -⟩ := escape_turn ht
        rw [hesc', List.append_assoc] at h
        obtain ⟨hst, hrest⟩ := hturn.append_inj hturn' h
        obtain ⟨hr, hxy⟩ := ih r.length (hn ▸ hlt) hrest rfl
        exact ⟨hst hr, hxy⟩

theorem bytes_injective : Function.Injective bytes := by
  intro s t h
  exact String.toByteArray_inj.mp (ByteArray.ext (Array.toList_inj.mp h))

theorem quote_append_inj {s t : Bytes} (h : quote s ++ x = quote t ++ y) : s = t ∧ x = y := by
  simp only [quote, List.cons_append, List.append_assoc, List.nil_append] at h
  exact escape_append_inj (List.cons.inj h).2

/-! ## Writers -/

/-- How strings are written and what stands between values: a comma, and more. -/
structure Writer where
  quote : String → Bytes
  item : Bytes
  key : Bytes
  quote_inj : ∀ {s t : String} {x y : Bytes}, quote s ++ x = quote t ++ y → s = t ∧ x = y
  quote_lead : ∀ s, ∃ r, quote s = 34 :: r
  item_lead : ∃ r, item = 44 :: r

/-- What follows a value: no byte of a number. -/
def Json.Stops (x : Bytes) : Prop := ∀ c, x.head? = some c → isNumberByte c = false

namespace Writer

variable (o : Writer)

mutual

/-- The text of a value. -/
def write : Json → Bytes
  | .null => bytes "null"
  | .bool true => bytes "true"
  | .bool false => bytes "false"
  | .num n => n.text
  | .str s => o.quote s
  | .arr vs => 91 :: writeItems true vs
  | .obj fs => 123 :: writeFields true fs

/-- The items of an array from one on; the flag says that it is the first. -/
def writeItems : Bool → List Json → Bytes
  | _, [] => [93]
  | first, v :: vs => (if first then [] else o.item) ++ (write v ++ writeItems false vs)

/-- The fields of an object from one on. -/
def writeFields : Bool → List (String × Json) → Bytes
  | _, [] => [125]
  | first, (k, v) :: fs =>
    (if first then [] else o.item) ++ (o.quote k ++ (o.key ++ (write v ++ writeFields false fs)))

end

end Writer

namespace Json

theorem stops_cons (hc : isNumberByte c = false) (x : Bytes) : Stops (c :: x) := by
  intro d hd
  rw [← Option.some.inj hd]
  exact hc

/-- The constructor of a value. -/
def kind : Json → Nat
  | .null => 0
  | .bool _ => 1
  | .num _ => 2
  | .str _ => 3
  | .arr _ => 4
  | .obj _ => 5

/-- The constructor that a first byte belongs to; closing brackets and separators
belong to none. -/
def leadKind (c : UInt8) : Nat :=
  if isNumberByte c then 2
  else if c = 110 then 0
  else if c = 116 ∨ c = 102 then 1
  else if c = 34 then 3
  else if c = 91 then 4
  else if c = 123 then 5
  else 6

theorem number_append_inj {n m : Number} (hx : Stops x) (hy : Stops y)
    (h : n.text ++ x = m.text ++ y) : n = m ∧ x = y := by
  have hcut : ∀ (n : Number) (x : Bytes), Stops x →
      (n.text ++ x).takeWhile isNumberByte = n.text := by
    intro n x hx
    rw [List.takeWhile_append_of_pos n.all]
    cases x with
    | nil => exact List.append_nil _
    | cons c x =>
      have hc : ¬ isNumberByte c = true := Bool.eq_false_iff.mp (hx c rfl)
      rw [List.takeWhile_cons_of_neg hc, List.append_nil]
  have htext : n.text = m.text := by rw [← hcut n x hx, h, hcut m y hy]
  rw [htext] at h
  cases n
  cases m
  cases htext
  exact ⟨rfl, List.append_cancel_left h⟩

end Json

namespace Writer

open Json

variable (o : Writer)

theorem write_lead (v : Json) : ∃ c r, o.write v = c :: r ∧ leadKind c = v.kind := by
  cases v with
  | null => exact ⟨_, _, by rw [write]; rfl, rfl⟩
  | bool b =>
    cases b with
    | true => exact ⟨_, _, by rw [write]; rfl, rfl⟩
    | false => exact ⟨_, _, by rw [write]; rfl, rfl⟩
  | num n =>
    obtain ⟨c, r, hn⟩ := List.exists_cons_of_ne_nil n.ne_nil
    refine ⟨c, r, by rw [write]; exact hn, ?_⟩
    rw [leadKind, if_pos (n.all c (by rw [hn]; exact List.mem_cons_self))]
    rfl
  | str s =>
    obtain ⟨r, hr⟩ := o.quote_lead s
    exact ⟨34, r, by rw [write, hr], rfl⟩
  | arr vs => exact ⟨_, _, by rw [write], rfl⟩
  | obj fs => exact ⟨_, _, by rw [write], rfl⟩

theorem kind_eq_of_write {v w : Json} (h : o.write v ++ x = o.write w ++ y) : v.kind = w.kind := by
  obtain ⟨c, r, hv, hc⟩ := o.write_lead v
  obtain ⟨d, r', hw, hd⟩ := o.write_lead w
  rw [hv, hw] at h
  rw [← hc, ← hd, (List.cons.inj h).1]

theorem stops_writeItems (vs : List Json) (x : Bytes) : Stops (o.writeItems false vs ++ x) := by
  cases vs with
  | nil => exact stops_cons (by decide) _
  | cons v vs =>
    obtain ⟨r, hr⟩ := o.item_lead
    rw [writeItems, hr]
    exact stops_cons (by decide) _

theorem stops_writeFields (fs : List (String × Json)) (x : Bytes) :
    Stops (o.writeFields false fs ++ x) := by
  cases fs with
  | nil => exact stops_cons (by decide) _
  | cons f fs =>
    obtain ⟨r, hr⟩ := o.item_lead
    rw [writeFields, hr]
    exact stops_cons (by decide) _

theorem writeItems_cons_ne (first : Bool) (v : Json) (vs : List Json) (x y : Bytes) :
    o.writeItems first (v :: vs) ++ x ≠ 93 :: y := by
  intro h
  rw [writeItems] at h
  cases first with
  | false =>
    obtain ⟨r, hr⟩ := o.item_lead
    rw [hr] at h
    exact absurd (List.cons.inj h).1 (by decide)
  | true =>
    obtain ⟨c, r, hv, hc⟩ := o.write_lead v
    rw [hv] at h
    rw [(List.cons.inj h).1] at hc
    have hsix : leadKind 93 = 6 := rfl
    rw [hsix] at hc
    cases v <;> cases hc

theorem writeFields_cons_ne (first : Bool) (f : String × Json) (fs : List (String × Json))
    (x y : Bytes) : o.writeFields first (f :: fs) ++ x ≠ 125 :: y := by
  intro h
  rw [writeFields] at h
  cases first with
  | false =>
    obtain ⟨r, hr⟩ := o.item_lead
    rw [hr] at h
    exact absurd (List.cons.inj h).1 (by decide)
  | true =>
    obtain ⟨r, hr⟩ := o.quote_lead f.1
    rw [hr] at h
    exact absurd (List.cons.inj h).1 (by decide)

mutual

/-- A value can be cut off a text in one way only. -/
theorem write_append_inj (v w : Json) (x y : Bytes) (hx : Stops x) (hy : Stops y)
    (h : o.write v ++ x = o.write w ++ y) : v = w ∧ x = y := by
  have hkind := o.kind_eq_of_write h
  match v, w with
  | .null, .null => exact ⟨rfl, List.append_cancel_left h⟩
  | .bool b, .bool b' =>
    cases b <;> cases b' <;> simp only [write] at h
    · exact ⟨rfl, List.append_cancel_left h⟩
    · exact absurd (List.cons.inj h).1 (by decide)
    · exact absurd (List.cons.inj h).1 (by decide)
    · exact ⟨rfl, List.append_cancel_left h⟩
  | .num n, .num m =>
    obtain ⟨rfl, hxy⟩ := number_append_inj hx hy h
    exact ⟨rfl, hxy⟩
  | .str s, .str t =>
    obtain ⟨rfl, hxy⟩ := o.quote_inj h
    exact ⟨rfl, hxy⟩
  | .arr vs, .arr ws =>
    rw [write, write] at h
    obtain ⟨rfl, hxy⟩ := writeItems_append_inj true vs ws x y (List.cons.inj h).2
    exact ⟨rfl, hxy⟩
  | .obj fs, .obj gs =>
    rw [write, write] at h
    obtain ⟨rfl, hxy⟩ := writeFields_append_inj true fs gs x y (List.cons.inj h).2
    exact ⟨rfl, hxy⟩

theorem writeItems_append_inj (first : Bool) (vs ws : List Json) (x y : Bytes)
    (h : o.writeItems first vs ++ x = o.writeItems first ws ++ y) : vs = ws ∧ x = y := by
  match vs, ws with
  | [], [] =>
    rw [writeItems] at h
    exact ⟨rfl, List.append_cancel_left h⟩
  | [], w :: ws =>
    rw [writeItems] at h
    exact absurd h.symm (o.writeItems_cons_ne first w ws y x)
  | v :: vs, [] =>
    rw [writeItems.eq_1] at h
    exact absurd h (o.writeItems_cons_ne first v vs x y)
  | v :: vs, w :: ws =>
    rw [writeItems, writeItems, List.append_assoc, List.append_assoc, List.append_assoc,
      List.append_assoc] at h
    obtain ⟨rfl, hrest⟩ := write_append_inj v w _ _ (o.stops_writeItems vs x)
      (o.stops_writeItems ws y) (List.append_cancel_left h)
    obtain ⟨rfl, hxy⟩ := writeItems_append_inj false vs ws x y hrest
    exact ⟨rfl, hxy⟩

theorem writeFields_append_inj (first : Bool) (fs gs : List (String × Json)) (x y : Bytes)
    (h : o.writeFields first fs ++ x = o.writeFields first gs ++ y) : fs = gs ∧ x = y := by
  match fs, gs with
  | [], [] =>
    rw [writeFields] at h
    exact ⟨rfl, List.append_cancel_left h⟩
  | [], g :: gs =>
    rw [writeFields] at h
    exact absurd h.symm (o.writeFields_cons_ne first g gs y x)
  | f :: fs, [] =>
    rw [writeFields.eq_1] at h
    exact absurd h (o.writeFields_cons_ne first f fs x y)
  | (k, v) :: fs, (l, w) :: gs =>
    simp only [writeFields, List.append_assoc] at h
    obtain ⟨rfl, hval⟩ := o.quote_inj (List.append_cancel_left h)
    obtain ⟨rfl, hrest⟩ := write_append_inj v w _ _ (o.stops_writeFields fs x)
      (o.stops_writeFields gs y) (List.append_cancel_left hval)
    obtain ⟨rfl, hxy⟩ := writeFields_append_inj false fs gs x y hrest
    exact ⟨rfl, hxy⟩

end

theorem write_injective : Function.Injective o.write := by
  intro v w h
  have hnil : Stops [] := fun _ hc => by cases hc
  exact (o.write_append_inj v w [] [] hnil hnil (by rw [List.append_nil, List.append_nil, h])).1

end Writer

/-! ## The text of a value -/

namespace Json

mutual

/-- `json.Marshal`. -/
def encode : Json → Bytes
  | .null => bytes "null"
  | .bool true => bytes "true"
  | .bool false => bytes "false"
  | .num n => n.text
  | .str s => quote (bytes s)
  | .arr vs => 91 :: encodeItems true vs
  | .obj fs => 123 :: encodeFields true fs

/-- The items of an array from one on; the flag says that it is the first. -/
def encodeItems : Bool → List Json → Bytes
  | _, [] => [93]
  | first, v :: vs => (if first then [] else [44]) ++ (encode v ++ encodeItems false vs)

/-- The fields of an object from one on. -/
def encodeFields : Bool → List (String × Json) → Bytes
  | _, [] => [125]
  | first, (k, v) :: fs =>
    (if first then [] else [44]) ++ (quote (bytes k) ++ 58 :: (encode v ++ encodeFields false fs))

end

theorem comma_lead : ∃ r, ([44] : Bytes) = 44 :: r := ⟨[], rfl⟩

/-- How `json.Marshal` writes. -/
def compact : Writer where
  quote := fun s => quote (bytes s)
  item := [44]
  key := [58]
  quote_inj := fun h => (quote_append_inj h).imp_left fun hst => bytes_injective hst
  quote_lead := fun _ => ⟨_, rfl⟩
  item_lead := comma_lead

mutual

theorem encode_eq_write (v : Json) : encode v = compact.write v := by
  match v with
  | .null => rw [encode, Writer.write]
  | .bool true => rw [encode, Writer.write]
  | .bool false => rw [encode, Writer.write]
  | .num n => rw [encode, Writer.write]
  | .str s => rw [encode, Writer.write]; rfl
  | .arr vs => rw [encode, Writer.write, encodeItems_eq_write]
  | .obj fs => rw [encode, Writer.write, encodeFields_eq_write]

theorem encodeItems_eq_write (first : Bool) (vs : List Json) :
    encodeItems first vs = compact.writeItems first vs := by
  match vs with
  | [] => rw [encodeItems, Writer.writeItems]
  | v :: vs =>
    rw [encodeItems, Writer.writeItems, encode_eq_write v, encodeItems_eq_write false vs]
    rfl

theorem encodeFields_eq_write (first : Bool) (fs : List (String × Json)) :
    encodeFields first fs = compact.writeFields first fs := by
  match fs with
  | [] => rw [encodeFields, Writer.writeFields]
  | (k, v) :: fs =>
    rw [encodeFields, Writer.writeFields, encode_eq_write v, encodeFields_eq_write false fs]
    rfl

end

theorem encode_append_inj (v w : Json) (x y : Bytes) (hx : Stops x) (hy : Stops y)
    (h : encode v ++ x = encode w ++ y) : v = w ∧ x = y := by
  rw [encode_eq_write, encode_eq_write] at h
  exact compact.write_append_inj v w x y hx hy h

end Json

end Windrose.Foundation

/-
  Foundation/JsonRead.lean --- reading the compact text of a JSON value.

  `read` reads the texts that `encode` writes: no blanks, exponents with a small `e`.  A
  reader of nested values has a limit on how deep it follows them, and `encoding/json`
  stops at ten thousand brackets.  So what is written is read back exactly if it does not
  nest too deep (`read_encode`).

  No byte is a control character (`le_of_mem_encode`), so a text is one line.

  `JsonTree.ofJson` then reads the numbers (`ofJson_toJson`).
-/
import Mathlib.Data.List.TakeWhile
import Windrose.Foundation.JsonTree

set_option autoImplicit false

namespace Windrose.Foundation

namespace Json

/-! ## Strings -/

/-- The character of a code unit; a half of a pair stands for none. -/
def unitBytes (n : Nat) : Bytes :=
  String.utf8EncodeChar (if 0xD800 ≤ n ∧ n ≤ 0xDFFF then Char.ofNat 0xFFFD else Char.ofNat n)

/-- The byte that an escape of two bytes stands for. -/
def readEscape (e : UInt8) : Option UInt8 :=
  if e = 47 then some 47 else (shortEscapes.find? (·.2 = e)).map Prod.fst

/-- The bytes of a string from behind its opening quote, and what follows it. -/
def readString : Bytes → Option (Bytes × Bytes)
  | [] => none
  | c :: t =>
    if c = 34 then some ([], t)
    else if c = 92 then
      match t with
      | 117 :: h₁ :: h₂ :: h₃ :: h₄ :: u => do
          let (s, r) ← readString u
          let n := ((hexVal h₁ * 16 + hexVal h₂) * 16 + hexVal h₃) * 16 + hexVal h₄
          return (unitBytes n ++ s, r)
      | e :: u => do
          let b ← readEscape e
          let (s, r) ← readString u
          return (b :: s, r)
      | [] => none
    else if c < 32 then none
    else do
      let (s, r) ← readString t
      return (c :: s, r)

/-- A string has to be valid UTF-8. -/
def readText (t : Bytes) : Option (String × Bytes) := do
  let (s, r) ← readString t
  let s ← String.fromUTF8? ⟨s.toArray⟩
  return (s, r)

/-! ## Values -/

/-- The longest run of bytes of a number. -/
def readNumber (t : Bytes) : Option (Number × Bytes) :=
  if h : t.takeWhile isNumberByte = [] then none
  else some (⟨t.takeWhile isNumberByte, h, fun _ => List.mem_takeWhile_imp⟩,
    t.dropWhile isNumberByte)

def readWord (t : Bytes) : Option (Json × Bytes) :=
  if bytes "null" <+: t then some (.null, t.drop 4)
  else if bytes "true" <+: t then some (.bool true, t.drop 4)
  else if bytes "false" <+: t then some (.bool false, t.drop 5)
  else none

mutual

/-- A value that nests at most `d` deep, and what follows it. -/
def readValue : Nat → Nat → Bytes → Option (Json × Bytes)
  | n + 1, d, c :: t =>
    if isNumberByte c then (readNumber (c :: t)).map fun p => (.num p.1, p.2)
    else if c = 34 then (readText t).map fun p => (.str p.1, p.2)
    else if c = 91 then
      match d with
      | 0 => none
      | d + 1 =>
        if t.head? = some 93 then some (.arr [], t.tail)
        else (readItems n d t).map fun p => (.arr p.1, p.2)
    else if c = 123 then
      match d with
      | 0 => none
      | d + 1 =>
        if t.head? = some 125 then some (.obj [], t.tail)
        else (readFields n d t).map fun p => (.obj p.1, p.2)
    else readWord (c :: t)
  | _, _, _ => none

/-- The items of an array from one on. -/
def readItems : Nat → Nat → Bytes → Option (List Json × Bytes)
  | n + 1, d, t => do
      let (v, r) ← readValue n d t
      match r with
      | 93 :: r => return ([v], r)
      | 44 :: r => do
          let (vs, r) ← readItems n d r
          return (v :: vs, r)
      | _ => none
  | 0, _, _ => none

/-- The fields of an object from one on. -/
def readFields : Nat → Nat → Bytes → Option (List (String × Json) × Bytes)
  | n + 1, d, 34 :: t => do
      let (k, r) ← readText t
      match r with
      | 58 :: r => do
          let (v, r) ← readValue n d r
          match r with
          | 125 :: r => return ([(k, v)], r)
          | 44 :: r => do
              let (fs, r) ← readFields n d r
              return ((k, v) :: fs, r)
          | _ => none
      | _ => none
  | _, _, _ => none

end

/-- The value of a whole text, if it nests at most `d` deep. -/
def read (d : Nat) (t : Bytes) : Option Json := do
  let (v, r) ← readValue t.length d t
  if r = [] then return v else none

mutual

/-- How deep a value nests. -/
def depth : Json → Nat
  | .arr vs => depthItems vs + 1
  | .obj fs => depthFields fs + 1
  | _ => 0

def depthItems : List Json → Nat
  | [] => 0
  | v :: vs => max (depth v) (depthItems vs)

def depthFields : List (String × Json) → Nat
  | [] => 0
  | (_, v) :: fs => max (depth v) (depthFields fs)

end

/-! ## What is written is read -/

variable {c : UInt8}

attribute [local grind =] readString readValue

theorem readEscape_of_lookup {e : UInt8} (h : shortEscapes.lookup c = some e) :
    readEscape e = some c ∧ e ≠ 117 := by
  have htable : ∀ p ∈ shortEscapes, readEscape p.2 = some p.1 ∧ p.2 ≠ 117 := by
    simp [shortEscapes, readEscape]
  obtain ⟨l₁, l₂, hsplit, -⟩ := List.lookup_eq_some_iff.mp h
  exact htable (c, e) (by rw [hsplit]; simp)

theorem readString_plain (h34 : c ≠ 34) (h92 : c ≠ 92) (h32 : 32 ≤ c) (t : Bytes) :
    readString (c :: t) = (readString t).map fun p => (c :: p.1, p.2) := by
  rw [readString.eq_def]
  simp only [if_neg h34, if_neg h92, if_neg (UInt8.not_lt.mpr h32)]
  cases readString t <;> rfl

theorem readString_escape {b e : UInt8} (h : readEscape e = some b) (h117 : e ≠ 117) (t : Bytes) :
    readString (92 :: e :: t) = (readString t).map fun p => (b :: p.1, p.2) := by
  rw [readString.eq_def]
  simp only [↓reduceIte, show ¬ (92 : UInt8) = 34 by decide]
  split
  · next heq => exact absurd (List.cons.inj heq).1 h117
  · next heq =>
    obtain ⟨rfl, rfl⟩ := List.cons.inj heq
    rw [h]
    cases readString t <;> rfl
  · next heq => cases heq

theorem readString_unit (h₁ h₂ h₃ h₄ : UInt8) (t : Bytes) :
    readString (92 :: 117 :: h₁ :: h₂ :: h₃ :: h₄ :: t) = (readString t).map fun p =>
      (unitBytes (((hexVal h₁ * 16 + hexVal h₂) * 16 + hexVal h₃) * 16 + hexVal h₄) ++ p.1,
        p.2) := by
  rw [readString.eq_def]
  simp only [↓reduceIte, show ¬ (92 : UInt8) = 34 by decide]
  cases readString t <;> rfl

theorem unitBytes_byte (h : c.toNat < 128) : unitBytes c.toNat = [c] := by
  have hall : ∀ n < 128, unitBytes n = [UInt8.ofNat n] := by decide
  rw [hall _ h, UInt8.ofNat_toNat]

theorem readString_hexByte (h : c.toNat < 128) (t : Bytes) :
    readString ([92, 117, 48, 48] ++ hexByte c ++ t) =
      (readString t).map fun p => (c :: p.1, p.2) := by
  have hval : ((hexVal 48 * 16 + hexVal 48) * 16 + hexVal (hexDigit (c.toNat / 16))) * 16 +
      hexVal (hexDigit (c.toNat % 16)) = c.toNat := by
    rw [hexVal_hexDigit _ (by omega), hexVal_hexDigit _ (by omega)]
    have h48 : hexVal 48 = 0 := rfl
    rw [h48]
    omega
  calc readString ([92, 117, 48, 48] ++ hexByte c ++ t)
      = _ := readString_unit 48 48 (hexDigit (c.toNat / 16)) (hexDigit (c.toNat % 16)) t
    _ = _ := by rw [hval, unitBytes_byte h]; rfl

theorem readString_escapeByte (c : UInt8) (t : Bytes) :
    readString (escapeByte c ++ t) = (readString t).map fun p => (c :: p.1, p.2) := by
  unfold escapeByte
  cases h : shortEscapes.lookup c with
  | some e =>
    obtain ⟨he, h117⟩ := readEscape_of_lookup h
    exact readString_escape he h117 t
  | none =>
    have h92 : c ≠ 92 := by
      rintro rfl
      cases h
    have h34 : c ≠ 34 := by
      rintro rfl
      cases h
    simp only
    split
    · next hc =>
      refine readString_hexByte ?_ t
      rcases hc with hc | rfl | rfl | rfl
      · exact lt_trans (UInt8.lt_iff_toNat_lt.mp hc) (by decide)
      all_goals decide
    · next hc =>
      refine readString_plain h34 h92 ?_ t
      exact UInt8.not_lt.mp fun hlt => hc (.inl hlt)

theorem readString_escape_append (s x : Bytes) :
    readString (escape s ++ 34 :: x) = some (s, x) := by
  induction hn : s.length using Nat.strong_induction_on generalizing s with
  | _ n ih =>
    by_cases hs : s = []
    · rw [hs, escape, List.nil_append, readString.eq_def]
      rfl
    · obtain ⟨w, r, hturn, hesc, hlt⟩ := escape_turn hs
      have hr := ih r.length (hn ▸ hlt) r rfl
      rw [hesc, List.append_assoc]
      cases hturn with
      | line =>
        have hread := readString_unit 50 48 50 56 (escape r ++ 34 :: x)
        rw [hr] at hread
        exact hread
      | paragraph =>
        have hread := readString_unit 50 48 50 57 (escape r ++ 34 :: x)
        rw [hr] at hread
        exact hread
      | byte c =>
        rw [readString_escapeByte, hr]
        rfl

theorem readText_quote (s : String) (x : Bytes) :
    readText (escape (bytes s) ++ 34 :: x) = some (s, x) := by
  have hs : String.fromUTF8? ⟨(bytes s).toArray⟩ = some s := by
    have hb : (⟨(bytes s).toArray⟩ : ByteArray) = s.toByteArray := ByteArray.ext (by simp [bytes])
    rw [hb, String.fromUTF8?, dif_pos s.isValidUTF8]
    rfl
  rw [readText, readString_escape_append]
  simp only [Option.bind_eq_bind, Option.bind_some, hs]
  rfl

/-! ## Values are read -/

theorem readNumber_append (n : Number) {x : Bytes} (hx : Stops x) :
    readNumber (n.text ++ x) = some (n, x) := by
  have hstop : x.takeWhile isNumberByte = [] ∧ x.dropWhile isNumberByte = x := by
    cases x with
    | nil => exact ⟨rfl, rfl⟩
    | cons c x =>
      have hc : ¬ isNumberByte c = true := Bool.eq_false_iff.mp (hx c rfl)
      exact ⟨List.takeWhile_cons_of_neg hc, List.dropWhile_cons_of_neg hc⟩
  have htake : (n.text ++ x).takeWhile isNumberByte = n.text := by
    rw [List.takeWhile_append_of_pos n.all, hstop.1, List.append_nil]
  have hdrop : (n.text ++ x).dropWhile isNumberByte = x := by
    rw [List.dropWhile_append_of_pos n.all, hstop.2]
  unfold readNumber
  rw [dif_neg (by rw [htake]; exact n.ne_nil), hdrop]
  simp only [htake]

theorem encode_lead (v : Json) : ∃ c r, encode v = c :: r ∧ leadKind c = v.kind := by
  rw [encode_eq_write]
  exact compact.write_lead v

theorem encode_length_pos (v : Json) : 0 < (encode v).length := by
  obtain ⟨c, r, hv, -⟩ := encode_lead v
  rw [hv]
  exact Nat.succ_pos _

theorem kind_lt (v : Json) : v.kind < 6 := by cases v <;> exact of_decide_eq_true rfl

theorem head_encode_ne (hc : leadKind c = 6) (v : Json) (x : Bytes) :
    (encode v ++ x).head? ≠ some c := by
  obtain ⟨d, r, hv, hd⟩ := encode_lead v
  rw [hv]
  intro h
  have hlt := v.kind_lt
  rw [← hd, Option.some.inj h, hc] at hlt
  exact absurd hlt (by decide)

theorem encodeItems_false_cons (v : Json) (vs : List Json) :
    encodeItems false (v :: vs) = 44 :: encodeItems true (v :: vs) := rfl

theorem encodeFields_false_cons (f : String × Json) (fs : List (String × Json)) :
    encodeFields false (f :: fs) = 44 :: encodeFields true (f :: fs) := rfl

theorem stops_encodeItems (vs : List Json) (x : Bytes) : Stops (encodeItems false vs ++ x) := by
  rw [encodeItems_eq_write]
  exact compact.stops_writeItems vs x

theorem stops_encodeFields (fs : List (String × Json)) (x : Bytes) :
    Stops (encodeFields false fs ++ x) := by
  rw [encodeFields_eq_write]
  exact compact.stops_writeFields fs x

theorem encodeItems_length_pos (first : Bool) (vs : List Json) :
    0 < (encodeItems first vs).length := by
  cases vs with
  | nil => exact Nat.succ_pos _
  | cons v vs =>
    have hv := encode_length_pos v
    simp only [encodeItems, List.length_append]
    omega

theorem encodeFields_length_pos (first : Bool) (fs : List (String × Json)) :
    0 < (encodeFields first fs).length := by
  cases fs with
  | nil => exact Nat.succ_pos _
  | cons f fs =>
    have hv := encode_length_pos f.2
    simp only [encodeFields, List.length_append, List.length_cons]
    omega

theorem readValue_num (hc : isNumberByte c = true) (n d : Nat) (t : Bytes) :
    readValue (n + 1) d (c :: t) = (readNumber (c :: t)).map fun p => (.num p.1, p.2) := by
  rw [readValue.eq_def]
  exact if_pos hc

theorem readValue_str (n d : Nat) (t : Bytes) :
    readValue (n + 1) d (34 :: t) = (readText t).map fun p => (.str p.1, p.2) := by
  rw [readValue.eq_def]
  rfl

theorem readValue_arr_zero (n : Nat) (t : Bytes) : readValue (n + 1) 0 (91 :: t) = none := by
  rw [readValue.eq_def]
  rfl

theorem readValue_arr (n d : Nat) (t : Bytes) : readValue (n + 1) (d + 1) (91 :: t) =
      if t.head? = some 93 then some (.arr [], t.tail)
      else (readItems n d t).map fun p => (.arr p.1, p.2) := by
  rw [readValue.eq_def]
  rfl

theorem readValue_obj_zero (n : Nat) (t : Bytes) : readValue (n + 1) 0 (123 :: t) = none := by
  rw [readValue.eq_def]
  rfl

theorem readValue_obj (n d : Nat) (t : Bytes) : readValue (n + 1) (d + 1) (123 :: t) =
      if t.head? = some 125 then some (.obj [], t.tail)
      else (readFields n d t).map fun p => (.obj p.1, p.2) := by
  rw [readValue.eq_def]
  rfl

theorem readValue_word {t : Bytes} {v : Json} {x : Bytes} (n d : Nat)
    (hc : leadKind c < 2) (h : readWord (c :: t) = some (v, x)) :
    readValue (n + 1) d (c :: t) = some (v, x) := by
  unfold leadKind at hc
  split at hc
  · exact absurd hc (by decide)
  · next hnum =>
    rw [readValue.eq_def]
    simp only
    rw [if_neg hnum, if_neg, if_neg, if_neg, h]
    all_goals
      rintro rfl
      exact absurd hc (by decide)

mutual

theorem readValue_encode (v : Json) (n d : Nat) (x : Bytes) (hn : (encode v).length ≤ n)
    (hx : Stops x) : readValue n d (encode v ++ x) = if v.depth ≤ d then some (v, x) else none := by
  obtain ⟨n, rfl⟩ := Nat.exists_eq_succ_of_ne_zero
    (Nat.pos_iff_ne_zero.mp ((encode_length_pos v).trans_le hn))
  match v with
  | .null =>
    rw [if_pos (show depth .null ≤ d from Nat.zero_le d)]
    exact readValue_word n d (by decide) rfl
  | .bool true =>
    rw [if_pos (show depth (.bool true) ≤ d from Nat.zero_le d)]
    exact readValue_word n d (by decide) rfl
  | .bool false =>
    rw [if_pos (show depth (.bool false) ≤ d from Nat.zero_le d)]
    exact readValue_word n d (by decide) rfl
  | .num m =>
    have hread := readNumber_append m hx
    obtain ⟨c, r, hm⟩ := List.exists_cons_of_ne_nil m.ne_nil
    have hc : isNumberByte c = true := m.all c (by rw [hm]; exact List.mem_cons_self)
    rw [hm, List.cons_append] at hread
    rw [if_pos (show depth (.num m) ≤ d from Nat.zero_le d), encode, hm, List.cons_append,
      readValue_num hc, hread]
    rfl
  | .str s =>
    rw [if_pos (show depth (.str s) ≤ d from Nat.zero_le d), encode, quote, List.cons_append,
      readValue_str, List.append_assoc, List.cons_append, List.nil_append, readText_quote]
    rfl
  | .arr [] =>
    rw [encode, encodeItems, List.cons_append, depth, depthItems]
    cases d with
    | zero => exact readValue_arr_zero n _
    | succ d =>
      rw [readValue_arr, if_pos (Nat.succ_le_succ (Nat.zero_le d))]
      rfl
  | .arr (w :: ws) =>
    rw [encode, List.length_cons] at hn
    rw [encode, List.cons_append, depth]
    cases d with
    | zero => exact readValue_arr_zero n _
    | succ d =>
      have hhead : (encodeItems true (w :: ws) ++ x).head? ≠ some 93 := by
        rw [encodeItems, if_pos rfl, List.nil_append, List.append_assoc]
        exact head_encode_ne (by decide) w _
      rw [readValue_arr, if_neg hhead,
        readItems_encode (w :: ws) n d x (List.cons_ne_nil w ws) (by omega)]
      by_cases hd : depthItems (w :: ws) ≤ d
      · rw [if_pos hd, if_pos (Nat.succ_le_succ hd)]
        rfl
      · rw [if_neg hd, if_neg (fun h => hd (Nat.le_of_succ_le_succ h))]
        rfl
  | .obj [] =>
    rw [encode, encodeFields, List.cons_append, depth, depthFields]
    cases d with
    | zero => exact readValue_obj_zero n _
    | succ d =>
      rw [readValue_obj, if_pos (Nat.succ_le_succ (Nat.zero_le d))]
      rfl
  | .obj (f :: fs) =>
    rw [encode, List.length_cons] at hn
    rw [encode, List.cons_append, depth]
    cases d with
    | zero => exact readValue_obj_zero n _
    | succ d =>
      have hhead : (encodeFields true (f :: fs) ++ x).head? ≠ some 125 := by
        rw [encodeFields]
        exact nofun
      rw [readValue_obj, if_neg hhead,
        readFields_encode (f :: fs) n d x (List.cons_ne_nil f fs) (by omega)]
      by_cases hd : depthFields (f :: fs) ≤ d
      · rw [if_pos hd, if_pos (Nat.succ_le_succ hd)]
        rfl
      · rw [if_neg hd, if_neg (fun h => hd (Nat.le_of_succ_le_succ h))]
        rfl

theorem readItems_encode (vs : List Json) (n d : Nat) (x : Bytes) (hvs : vs ≠ [])
    (hn : (encodeItems true vs).length ≤ n) : readItems n d (encodeItems true vs ++ x) =
      if depthItems vs ≤ d then some (vs, x) else none := by
  obtain ⟨n, rfl⟩ := Nat.exists_eq_succ_of_ne_zero
    (Nat.pos_iff_ne_zero.mp ((encodeItems_length_pos true vs).trans_le hn))
  match vs with
  | [] => exact absurd rfl hvs
  | v :: vs =>
    have hpos := encodeItems_length_pos false vs
    rw [encodeItems, if_pos rfl, List.nil_append, List.length_append] at hn
    rw [encodeItems, if_pos rfl, List.nil_append, List.append_assoc, readItems,
      readValue_encode v n d _ (by omega) (stops_encodeItems vs x), depthItems]
    by_cases hv : v.depth ≤ d
    · rw [if_pos hv]
      match vs with
      | [] =>
        rw [depthItems, if_pos (max_le hv (Nat.zero_le d))]
        rfl
      | w :: ws =>
        rw [encodeItems_false_cons, List.length_cons] at hn
        have hrest := readItems_encode (w :: ws) n d x (List.cons_ne_nil w ws) (by omega)
        simp only [Option.bind_eq_bind, Option.bind_some, encodeItems_false_cons,
          List.cons_append, hrest]
        by_cases hws : depthItems (w :: ws) ≤ d
        · rw [if_pos hws, if_pos (max_le hv hws)]
          rfl
        · rw [if_neg hws, if_neg (fun h => hws ((le_max_right _ _).trans h))]
          rfl
    · rw [if_neg hv, if_neg (fun h => hv ((le_max_left _ _).trans h))]
      rfl

theorem readFields_encode (fs : List (String × Json)) (n d : Nat) (x : Bytes) (hfs : fs ≠ [])
    (hn : (encodeFields true fs).length ≤ n) : readFields n d (encodeFields true fs ++ x) =
      if depthFields fs ≤ d then some (fs, x) else none := by
  obtain ⟨n, rfl⟩ := Nat.exists_eq_succ_of_ne_zero
    (Nat.pos_iff_ne_zero.mp ((encodeFields_length_pos true fs).trans_le hn))
  match fs with
  | [] => exact absurd rfl hfs
  | (k, v) :: fs =>
    have hpos := encodeFields_length_pos false fs
    rw [encodeFields, if_pos rfl, List.nil_append, List.length_append, List.length_cons,
      List.length_append] at hn
    have hkey := readText_quote k (58 :: (encode v ++ (encodeFields false fs ++ x)))
    rw [encodeFields, if_pos rfl, List.nil_append, quote]
    simp only [List.cons_append, List.append_assoc, List.nil_append, readFields, hkey,
      Option.bind_eq_bind, Option.bind_some]
    rw [readValue_encode v n d _ (by omega) (stops_encodeFields fs x), depthFields]
    by_cases hv : v.depth ≤ d
    · rw [if_pos hv]
      match fs with
      | [] =>
        rw [depthFields, if_pos (max_le hv (Nat.zero_le d))]
        rfl
      | f :: fs =>
        rw [encodeFields_false_cons, List.length_cons] at hn
        have hrest := readFields_encode (f :: fs) n d x (List.cons_ne_nil f fs) (by omega)
        simp only [Option.bind_some, encodeFields_false_cons, List.cons_append, hrest]
        by_cases hfs : depthFields (f :: fs) ≤ d
        · rw [if_pos hfs, if_pos (max_le hv hfs)]
          rfl
        · rw [if_neg hfs, if_neg (fun h => hfs ((le_max_right _ _).trans h))]
          rfl
    · rw [if_neg hv, if_neg (fun h => hv ((le_max_left _ _).trans h))]
      rfl

end

theorem read_encode (d : Nat) (v : Json) :
    read d (encode v) = if v.depth ≤ d then some v else none := by
  have h := readValue_encode v (encode v).length d [] le_rfl nofun
  rw [List.append_nil] at h
  rw [read, h]
  by_cases hd : v.depth ≤ d
  · rw [if_pos hd, if_pos hd]
    rfl
  · rw [if_neg hd, if_neg hd]
    rfl

/-! ## One line -/

theorem le_of_isNumberByte (h : isNumberByte c = true) : 32 ≤ c := by
  simp only [isNumberByte, isDigit, Bool.or_eq_true, Bool.and_eq_true, decide_eq_true_eq,
    beq_iff_eq, UInt8.le_iff_toNat_le, ← UInt8.toNat_inj] at h ⊢
  have h32 : (32 : UInt8).toNat = 32 := rfl
  have h48 : (48 : UInt8).toNat = 48 := rfl
  have h45 : (45 : UInt8).toNat = 45 := rfl
  have h43 : (43 : UInt8).toNat = 43 := rfl
  have h46 : (46 : UInt8).toNat = 46 := rfl
  have h101 : (101 : UInt8).toNat = 101 := rfl
  omega

theorem le_of_mem_escapeByte {b : UInt8} (h : c ∈ escapeByte b) : 32 ≤ c := by
  have hhex : ∀ n < 16, 32 ≤ hexDigit n := by decide
  have hshort : ∀ p ∈ shortEscapes, (32 : UInt8) ≤ p.2 := by
    simp [shortEscapes, UInt8.le_iff_toNat_le]
  have hb := b.toNat_lt
  unfold escapeByte at h
  cases hl : shortEscapes.lookup b with
  | some e =>
    obtain ⟨l₁, l₂, hsplit, -⟩ := List.lookup_eq_some_iff.mp hl
    have he := hshort (b, e) (by rw [hsplit]; simp)
    simp only [hl, List.mem_cons, List.not_mem_nil, or_false] at h
    rcases h with rfl | rfl
    · decide
    · exact he
  | none =>
    simp only [hl] at h
    split at h
    · simp only [hexByte, List.mem_append, List.mem_cons, List.not_mem_nil, or_false] at h
      rcases h with (rfl | rfl | rfl | rfl) | rfl | rfl
      all_goals first | decide | exact hhex _ (by omega)
    · next hplain =>
      rw [List.mem_singleton.mp h]
      exact UInt8.not_lt.mp fun hlt => hplain (.inl hlt)

theorem le_of_mem_escape {s : Bytes} (h : c ∈ escape s) : 32 ≤ c := by
  have hline : ∀ c ∈ bytes "\\u2028" ++ bytes "\\u2029", 32 ≤ c := by decide +kernel
  fun_induction escape s with
  | case1 s ih =>
    rcases List.mem_append.mp h with h | h
    · exact hline c (List.mem_append_left _ h)
    · exact ih h
  | case2 s ih =>
    rcases List.mem_append.mp h with h | h
    · exact hline c (List.mem_append_right _ h)
    · exact ih h
  | case3 b s hline hparagraph ih =>
    rcases List.mem_append.mp h with h | h
    · exact le_of_mem_escapeByte h
    · exact ih h
  | case4 => cases h

theorem le_of_mem_quote {s : Bytes} (h : c ∈ quote s) : 32 ≤ c := by
  rcases List.mem_cons.mp h with rfl | h
  · decide
  · rcases List.mem_append.mp h with h | h
    · exact le_of_mem_escape h
    · rw [List.mem_singleton.mp h]
      decide

mutual

theorem le_of_mem_encode (v : Json) : ∀ c ∈ encode v, 32 ≤ c := by
  have hword : ∀ c ∈ bytes "null" ++ bytes "true" ++ bytes "false", 32 ≤ c := by decide +kernel
  rw [List.forall_mem_append, List.forall_mem_append] at hword
  cases v with
  | null => exact hword.1.1
  | bool b =>
    cases b with
    | true => exact hword.1.2
    | false => exact hword.2
  | num n => exact fun c hc => le_of_isNumberByte (n.all c hc)
  | str s => exact fun c hc => le_of_mem_quote hc
  | arr vs => exact List.forall_mem_cons.mpr ⟨by decide, le_of_mem_encodeItems true vs⟩
  | obj fs => exact List.forall_mem_cons.mpr ⟨by decide, le_of_mem_encodeFields true fs⟩

theorem le_of_mem_encodeItems (first : Bool) (vs : List Json) :
    ∀ c ∈ encodeItems first vs, 32 ≤ c := by
  cases vs with
  | nil => exact List.forall_mem_singleton.mpr (by decide)
  | cons v vs =>
    rw [encodeItems, List.forall_mem_append, List.forall_mem_append]
    exact ⟨by cases first <;> simp, le_of_mem_encode v, le_of_mem_encodeItems false vs⟩

theorem le_of_mem_encodeFields (first : Bool) (fs : List (String × Json)) :
    ∀ c ∈ encodeFields first fs, 32 ≤ c := by
  cases fs with
  | nil => exact List.forall_mem_singleton.mpr (by decide)
  | cons f fs =>
    rw [encodeFields, List.forall_mem_append, List.forall_mem_append, List.forall_mem_cons,
      List.forall_mem_append]
    exact ⟨by cases first <;> simp, fun c hc => le_of_mem_quote hc, by decide,
      le_of_mem_encode f.2, le_of_mem_encodeFields false fs⟩

end

end Json

/-! ## Numbers -/

namespace JsonTree

variable {ν μ : Type}

mutual

/-- Every number has to be read, or the value is not. -/
def ofJson (f : Number → Option ν) : Json → Option (JsonTree ν)
  | .null => some .null
  | .bool b => some (.bool b)
  | .num n => (f n).map .num
  | .str s => some (.str s)
  | .arr vs => (ofJsonItems f vs).map .arr
  | .obj fs => (ofJsonFields f fs).map .obj

def ofJsonItems (f : Number → Option ν) : List Json → Option (List (JsonTree ν))
  | [] => some []
  | v :: vs => (ofJson f v).bind fun w => (ofJsonItems f vs).map (w :: ·)

def ofJsonFields (f : Number → Option ν) :
    List (String × Json) → Option (List (String × JsonTree ν))
  | [] => some []
  | (k, v) :: fs => (ofJson f v).bind fun w => (ofJsonFields f fs).map ((k, w) :: ·)

end

mutual

variable {f : Number → Option ν} {text : μ → Number}

theorem ofJson_toJson {g : μ → ν}
    (h : ∀ n, f (text n) = some (g n)) (v : JsonTree μ) :
    ofJson f (v.toJson text) = some (v.map g) := by
  match v with
  | .null | .bool _ | .str _ => rfl
  | .num n => rw [toJson, ofJson, map, h, Option.map_some]
  | .arr vs => rw [toJson, ofJson, map, ofJsonItems_toJson h vs, Option.map_some]
  | .obj fs => rw [toJson, ofJson, map, ofJsonFields_toJson h fs, Option.map_some]

theorem ofJsonItems_toJson {g : μ → ν}
    (h : ∀ n, f (text n) = some (g n)) (vs : List (JsonTree μ)) :
    ofJsonItems f (toJsonItems text vs) = some (mapItems g vs) := by
  match vs with
  | [] => rfl
  | v :: vs =>
    rw [toJsonItems, ofJsonItems, mapItems, ofJson_toJson h v, ofJsonItems_toJson h vs,
      Option.bind_some, Option.map_some]

theorem ofJsonFields_toJson {g : μ → ν}
    (h : ∀ n, f (text n) = some (g n)) (fs : List (String × JsonTree μ)) :
    ofJsonFields f (toJsonFields text fs) = some (mapFields g fs) := by
  match fs with
  | [] => rfl
  | (k, v) :: fs =>
    rw [toJsonFields, ofJsonFields, mapFields, ofJson_toJson h v, ofJsonFields_toJson h fs,
      Option.bind_some, Option.map_some]

end

theorem toJson_injective {text : ν → Number} (htext : Function.Injective text) (v w : JsonTree ν)
    (h : v.toJson text = w.toJson text) : v = w := by
  have hread (v : JsonTree ν) := ofJson_toJson (Function.partialInv_left htext) (g := id) v
  have heq := (hread v).symm.trans (h ▸ hread w)
  rwa [map_id, map_id, Option.some_inj] at heq

end JsonTree

end Windrose.Foundation

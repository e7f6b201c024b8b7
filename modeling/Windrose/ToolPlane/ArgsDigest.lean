/-
  ToolPlane/ArgsDigest.lean --- the canonical bytes of tool arguments.

  A grant names the SHA-256 of the arguments it was issued for.  Agent-runtime computes it
  over the arguments as Python holds them (`canonical_json`), tool-plane over the
  arguments as `encoding/json` decodes them from the request (`canonicalJSON`).  Strings
  and the order of fields agree (`encodeStr_eq_quote`, `byteLE_eq_codeLE`); numbers do not
  always, because Python tells whole numbers from floats and Go has doubles only.
-/
import Windrose.Foundation.NumberText
import Windrose.Foundation.JsonRead
import Windrose.Foundation.Utf8

set_option autoImplicit false

namespace Windrose.ToolPlane

open Windrose.Foundation

/-! ## Numbers -/

/-- A number as Python reads it: one without a point or an exponent is an `int`. -/
inductive PyNumber where
  | int (n : Int)
  | float (x : Double)
  deriving DecidableEq

namespace PyNumber

/-- `json.dumps` of a number. -/
def text : PyNumber → Bytes
  | .int n => intText n
  | .float x => pyFloat x

/-- The number itself, in units of 2^-1074. -/
def value : PyNumber → Int
  | .int n => n * magOne
  | .float x => if x.neg then -x.mag else x.mag

/-- The number as `encoding/json` decodes it from the wire, if a double can hold it. -/
def wire (p : PyNumber) : Option Double := parseFloat p.text

end PyNumber

namespace PyNumber

theorem text_injective : Function.Injective text := by
  intro p q h
  cases p with
  | int n =>
    cases q with
    | int m => exact congrArg int (intText_injective h)
    | float y => exact absurd h.symm (pyFloat_ne_intText y n)
  | float x =>
    cases q with
    | int m => exact absurd h (pyFloat_ne_intText x m)
    | float y => exact congrArg float (pyFloat_injective h)

theorem text_ne_nil (p : PyNumber) : p.text ≠ [] := by
  cases p with
  | int n => exact signText_append_ne_nil (leads_itoa _) _
  | float x => exact pyFloat_ne_nil x

theorem numberBytes_text (p : PyNumber) : ∀ c ∈ p.text, isNumberByte c = true := by
  cases p with
  | int n => exact numberBytes_intText n
  | float x => exact numberBytes_pyFloat x

def number (p : PyNumber) : Number := ⟨p.text, p.text_ne_nil, p.numberBytes_text⟩

end PyNumber

/-- `json.Marshal` of a number. -/
def goNumber (x : Double) : Number := ⟨goFloat x, goFloat_ne_nil x, numberBytes_goFloat x⟩

theorem goNumber_injective : Function.Injective goNumber :=
  fun _ _ h => goFloat_injective (congrArg Number.text h)

theorem PyNumber.number_injective : Function.Injective PyNumber.number :=
  fun _ _ h => text_injective (congrArg Number.text h)

/-! ## Strings -/

/-- `ESCAPE_DCT` of `json.encoder`. -/
def escapeDct : List (Nat × String) :=
  [(92, "\\\\"), (34, "\\\""), (8, "\\b"), (12, "\\f"), (10, "\\n"), (13, "\\r"), (9, "\\t")]

/-- One character of `json.dumps(s, ensure_ascii=False)`. -/
def dumpsChar (c : Char) : List Char :=
  match escapeDct.lookup c.toNat with
  | some e => e.toList
  | none =>
    if c.toNat < 32 then "\\u00".toList ++ (hexByte (UInt8.ofNat c.toNat)).map fun b =>
      Char.ofNat b.toNat
    else [c]

def dumpsStr (s : String) : List Char :=
  Char.ofNat 34 :: (s.toList.flatMap dumpsChar ++ [Char.ofNat 34])

/-- `str.replace` of one character. -/
def replaceChar (code : Nat) (t : String) (l : List Char) : List Char :=
  l.flatMap fun d => if d.toNat = code then t.toList else [d]

/-- What `_encode_str` replaces in the text of `json.dumps`. -/
def escapeHtml (out : List Char) : List Char :=
  let out := replaceChar 38 "\\u0026" (replaceChar 62 "\\u003e" (replaceChar 60 "\\u003c" out))
  replaceChar 0x2029 "\\u2029" (replaceChar 0x2028 "\\u2028" out)

def encodeStr (s : String) : List Char := escapeHtml (dumpsStr s)

/-- `.encode()`. -/
def utf8 (l : List Char) : Bytes := l.flatMap String.utf8EncodeChar

/-- What `_encode_str` makes of one character. -/
def encodeChar (c : Char) : Bytes := utf8 (escapeHtml (dumpsChar c))

theorem utf8_escapeHtml_append (l m : List Char) :
    utf8 (escapeHtml (l ++ m)) = utf8 (escapeHtml l) ++ utf8 (escapeHtml m) := by
  simp only [utf8, escapeHtml, replaceChar, List.flatMap_append]

theorem utf8_encodeStr (s : String) :
    utf8 (encodeStr s) = 34 :: (s.toList.flatMap encodeChar ++ [34]) := by
  have hbody : ∀ l : List Char, utf8 (escapeHtml (l.flatMap dumpsChar)) = l.flatMap encodeChar := by
    intro l
    induction l with
    | nil => rfl
    | cons c l ih =>
      rw [List.flatMap_cons, utf8_escapeHtml_append, ih, List.flatMap_cons, encodeChar]
  have hends : utf8 (escapeHtml [Char.ofNat 34]) = [34] := by decide
  rw [encodeStr, dumpsStr, ← List.singleton_append, utf8_escapeHtml_append, utf8_escapeHtml_append,
    hbody, hends, List.singleton_append]

theorem encodeChar_ascii : ∀ n < 128, encodeChar (Char.ofNat n) = escapeByte (UInt8.ofNat n) := by
  decide +kernel

theorem escapeByte_high : ∀ n < 256, 128 ≤ n → escapeByte (UInt8.ofNat n) = [UInt8.ofNat n] := by
  decide +kernel

theorem encodeChar_high {c : Char} (hc : 128 ≤ c.toNat) (hline : c.toNat ≠ 0x2028)
    (hparagraph : c.toNat ≠ 0x2029) : encodeChar c = String.utf8EncodeChar c := by
  have hdumps : dumpsChar c = [c] := by
    have hlookup : escapeDct.lookup c.toNat = none := by
      simp only [escapeDct, List.lookup_cons, List.lookup_nil]
      repeat' rw [beq_false_of_ne (by omega)]
    rw [dumpsChar, hlookup]
    exact if_neg (by omega)
  have hkeep : ∀ {code : Nat} (t : String), c.toNat ≠ code → replaceChar code t [c] = [c] := by
    intro code t hne
    rw [replaceChar, List.flatMap_singleton, if_neg hne]
  rw [encodeChar, hdumps, escapeHtml, hkeep _ (by omega), hkeep _ (by omega), hkeep _ (by omega),
    hkeep _ hline, hkeep _ hparagraph, utf8, List.flatMap_singleton]

theorem escape_cons {c : UInt8} {s : Bytes} (hline : ∀ r, c :: s ≠ 226 :: 128 :: 168 :: r)
    (hparagraph : ∀ r, c :: s ≠ 226 :: 128 :: 169 :: r) :
    escape (c :: s) = escapeByte c ++ escape s := by
  rw [escape.eq_def]
  split
  · next r heq => exact absurd heq (hline r)
  · next r heq => exact absurd heq (hparagraph r)
  · next heq =>
    obtain ⟨rfl, rfl⟩ := List.cons.inj heq
    rfl
  · next heq => cases heq

theorem escape_cons_ne {n : Nat} (hn : n < 256) (hlead : n ≠ 226) (s : Bytes) :
    escape (UInt8.ofNat n :: s) = escapeByte (UInt8.ofNat n) ++ escape s := by
  have hne : UInt8.ofNat n ≠ 226 := by
    intro h
    have := congrArg UInt8.toNat h
    rw [UInt8.toNat_ofNat', Nat.mod_eq_of_lt hn] at this
    exact hlead this
  exact escape_cons (fun _ h => hne (List.cons.inj h).1) (fun _ h => hne (List.cons.inj h).1)

theorem escape_utf8 (c : Char) (rest : Bytes) :
    escape (String.utf8EncodeChar c ++ rest) = encodeChar c ++ escape rest := by
  have hhigh : ∀ {n : Nat}, 128 ≤ n → n < 256 → escapeByte (UInt8.ofNat n) = [UInt8.ofNat n] :=
    fun hn hlt => escapeByte_high _ hlt hn
  obtain ⟨hc, hbytes⟩ | ⟨hc, hcu, hbytes⟩ | ⟨hc, hcu, hbytes⟩ | ⟨hc, hcu, hbytes⟩ := utf8_cases c
  · have hchar : encodeChar c = escapeByte (UInt8.ofNat c.toNat) := by
      rw [← encodeChar_ascii _ hc, Char.ofNat_toNat]
    rw [hbytes, hchar]
    exact escape_cons_ne (by omega) (by omega) rest
  · rw [encodeChar_high hc (by omega) (by omega), hbytes]
    simp only [List.cons_append, List.nil_append]
    rw [escape_cons_ne (by omega) (by omega), escape_cons_ne (by omega) (by omega),
      hhigh (by omega) (by omega), hhigh (by omega) (by omega)]
    rfl
  · by_cases hline : c.toNat = 0x2028
    · obtain rfl : c = Char.ofNat 0x2028 := by rw [← hline, Char.ofNat_toNat]
      have hchar : encodeChar (Char.ofNat 0x2028) = bytes "\\u2028" := by decide
      rw [hchar]
      rfl
    · by_cases hparagraph : c.toNat = 0x2029
      · obtain rfl : c = Char.ofNat 0x2029 := by rw [← hparagraph, Char.ofNat_toNat]
        have hchar : encodeChar (Char.ofNat 0x2029) = bytes "\\u2029" := by decide
        rw [hchar]
        rfl
      · have hlead : ∀ x r, x = 168 ∨ x = 169 → UInt8.ofNat (c.toNat / 4096 % 16 + 224) ::
            UInt8.ofNat (c.toNat / 64 % 64 + 128) :: UInt8.ofNat (c.toNat % 64 + 128) :: rest ≠
            226 :: 128 :: UInt8.ofNat x :: r := by
          intro x r hx heq
          simp only [List.cons.injEq] at heq
          obtain ⟨h₁, h₂, h₃, -⟩ := heq
          have h₁ := congrArg UInt8.toNat h₁
          have h₂ := congrArg UInt8.toNat h₂
          have h₃ := congrArg UInt8.toNat h₃
          rw [UInt8.toNat_ofNat'] at h₁ h₂
          rw [UInt8.toNat_ofNat', UInt8.toNat_ofNat'] at h₃
          change _ = 226 at h₁
          change _ = 128 at h₂
          omega
        rw [encodeChar_high (by omega) hline hparagraph, hbytes]
        simp only [List.cons_append, List.nil_append]
        rw [escape_cons (hlead 168 · (.inl rfl)) (hlead 169 · (.inr rfl)),
          escape_cons_ne (by omega) (by omega), escape_cons_ne (by omega) (by omega),
          hhigh (by omega) (by omega), hhigh (by omega) (by omega), hhigh (by omega) (by omega)]
        rfl
  · rw [encodeChar_high (by omega) (by omega) (by omega), hbytes]
    simp only [List.cons_append, List.nil_append]
    rw [escape_cons_ne (by omega) (by omega), escape_cons_ne (by omega) (by omega),
      escape_cons_ne (by omega) (by omega), escape_cons_ne (by omega) (by omega),
      hhigh (by omega) (by omega), hhigh (by omega) (by omega), hhigh (by omega) (by omega),
      hhigh (by omega) (by omega)]
    rfl

theorem encodeStr_eq_quote (s : String) : utf8 (encodeStr s) = quote (bytes s) := by
  have hescape : ∀ l : List Char, escape (utf8 l) = l.flatMap encodeChar := by
    intro l
    induction l with
    | nil => rfl
    | cons c l ih =>
      change escape (String.utf8EncodeChar c ++ utf8 l) = _
      rw [escape_utf8, ih, List.flatMap_cons]
  rw [utf8_encodeStr, bytes_eq_flatMap, quote, ← hescape]
  rfl

/-! ## Canonical bytes -/

/-- The order of Python strings. -/
def codeLE (s t : String) : Bool := !decide (t < s)

/-- The order of `sort.Strings`. -/
def byteLE (s t : String) : Bool := !decide (bytes t < bytes s)

theorem byteLE_eq_codeLE : byteLE = codeLE := by
  funext s t
  rw [byteLE, codeLE, decide_eq_decide.mpr bytes_lt_iff]

/-- How `_encode` writes. -/
def encodeWriter : Writer where
  quote := fun s => utf8 (encodeStr s)
  item := [44]
  key := [58]
  quote_inj := by
    intro s t x y h
    rw [encodeStr_eq_quote, encodeStr_eq_quote] at h
    exact Json.compact.quote_inj h
  quote_lead := fun s => ⟨_, utf8_encodeStr s⟩
  item_lead := Json.comma_lead

theorem encodeWriter_eq_compact : encodeWriter = Json.compact := by
  have hquote : (fun s => utf8 (encodeStr s)) = fun s => quote (bytes s) :=
    funext encodeStr_eq_quote
  unfold encodeWriter Json.compact
  congr 1

/-- The arguments of a tool call, as agent-runtime holds them. -/
abbrev Args : Type := List (String × JsonTree PyNumber)

def canonicalJson (args : Args) : Bytes :=
  encodeWriter.write (((JsonTree.obj args).sorted codeLE).toJson PyNumber.number)

/-- The arguments as `encoding/json` decodes them, if it can. -/
def decodeArgs (args : Args) : Option (JsonTree Double) :=
    (JsonTree.obj args).traverse PyNumber.wire

def canonicalJSON (v : JsonTree Double) : Bytes :=
  Json.compact.write ((v.sorted byteLE).toJson goNumber)

/-- The same JSON value: equal up to the order of fields, numbers compared as numbers. -/
def SameValue (args other : Args) : Prop :=
  ((JsonTree.obj args).map PyNumber.value).sorted codeLE =
    ((JsonTree.obj other).map PyNumber.value).sorted codeLE

/-- Arguments whose canonical bytes are the same on both sides, and theirs only. -/
structure Faithful (args : Args) : Prop where
  agrees : (decodeArgs args).map canonicalJSON = some (canonicalJson args)
  alone : ∀ other, canonicalJson other = canonicalJson args → SameValue other args
  decoded_alone : ∀ other v w, decodeArgs args = some v → decodeArgs other = some w →
    canonicalJSON w = canonicalJSON v → SameValue other args

/-! ## Numbers that survive the wire -/

/-- A whole number that a double holds and no other whole number is rounded to, or a float
with a fraction that Go and Python write in the same way. -/
def PyNumber.Plain : PyNumber → Prop
  | .int n => n.natAbs < 2 ^ 53 ∨ n.natAbs < 2 ^ 54 ∧ n.natAbs % 4 = 2
  | .float x => ¬ magOne ∣ x.mag ∧
      ((Decimal.mk 1 (-4)).mag ≤ x.mag ∨ x.mag < (Decimal.mk 1 (-9)).mag)

variable {p : PyNumber}

namespace PyNumber

theorem wire_float (x : Double) : (float x).wire = some x := parseFloat_pyFloat x

theorem wire_int (n : Int) : (int n).wire = Double.read (n < 0) ⟨n.natAbs, 0⟩ :=
    parseFloat_intText n

theorem mag_of_wire_int {n : Int} {x : Double} (h : (int n).wire = some x) :
    x.neg = decide (n < 0) ∧ x.mag = roundQuot n.natAbs 1 * magOne := by
  rw [wire_int] at h
  obtain ⟨hneg, hmag⟩ := Double.read_eq_some h
  exact ⟨hneg, by rw [← hmag, mag_whole_number]⟩

theorem wire_int_eq {n m : Int} (hsign : n < 0 ↔ m < 0)
    (h : roundQuot n.natAbs 1 = roundQuot m.natAbs 1) : (int n).wire = (int m).wire := by
  rw [wire_int, wire_int, decide_eq_decide.mpr hsign]
  exact Double.read_congr _ (by rw [mag_whole_number, mag_whole_number, h])

/-- A plain number is decoded, and Go writes it as Python does. -/
theorem Plain.agrees (h : p.Plain) : ∃ x, p.wire = some x ∧ goFloat x = p.text := by
  cases p with
  | int n =>
    have halone : Alone n.natAbs := alone_iff.mpr h
    have hfinite : (Decimal.mk n.natAbs 0).mag < 2 ^ 1024 * magOne := by
      have hlt : n.natAbs < 2 ^ 54 := by obtain h | h := h <;> omega
      have hpow : ∀ k, 54 ≤ k → n.natAbs < 2 ^ k :=
        fun k hk => hlt.trans_le (Nat.pow_le_pow_right Nat.two_pos hk)
      rw [mag_whole_number, halone.exact]
      exact Nat.mul_lt_mul_of_pos_right (hpow 1024 (by decide)) magOne_pos
    obtain ⟨x, hx⟩ : ∃ x, (int n).wire = some x := by
      rw [wire_int, Double.read, dif_pos hfinite]
      exact ⟨_, rfl⟩
    obtain ⟨hneg, hmag⟩ := mag_of_wire_int hx
    rw [halone.exact] at hmag
    exact ⟨x, hx, by rw [goFloat_whole hmag halone, hneg]; rfl⟩
  | float x => exact ⟨x, wire_float x, (goFloat_eq_pyFloat_iff x).mpr (.inl h)⟩

theorem Plain.alone {q : PyNumber} (h : p.Plain) (hwire : q.wire = p.wire) : q.value = p.value := by
  obtain ⟨x, hx, -⟩ := h.agrees
  have hq : q.wire = some x := hwire.trans hx
  cases p with
  | int n =>
    have halone : Alone n.natAbs := alone_iff.mpr h
    obtain ⟨hneg, hmag⟩ := mag_of_wire_int hx
    rw [halone.exact] at hmag
    cases q with
    | int m =>
      obtain ⟨hneg', hmag'⟩ := mag_of_wire_int hq
      have habs : m.natAbs = n.natAbs := by
        refine halone _ ?_
        rw [halone.exact]
        exact Nat.eq_of_mul_eq_mul_right magOne_pos (hmag'.symm.trans hmag)
      have hsign : m < 0 ↔ n < 0 := decide_eq_decide.mp (hneg'.symm.trans hneg)
      rw [show m = n by omega]
    | float y =>
      rw [wire_float] at hq
      obtain rfl := Option.some.inj hq
      by_cases hn : n < 0
      · rw [value, value, hneg, decide_eq_true hn, if_pos rfl, hmag, Int.natCast_mul,
          Int.ofNat_natAbs_of_nonpos hn.le, Int.neg_mul, Int.neg_neg]
      · rw [value, value, hneg, decide_eq_false hn, if_neg Bool.false_ne_true, hmag,
          Int.natCast_mul, Int.natAbs_of_nonneg (not_lt.mp hn)]
  | float y =>
    rw [wire_float] at hx
    obtain rfl := Option.some.inj hx
    cases q with
    | int m => exact absurd ⟨_, (mag_of_wire_int hq).2.trans (Nat.mul_comm _ _)⟩ h.1
    | float z =>
      rw [wire_float] at hq
      rw [Option.some.inj hq]

theorem not_plain (h : ¬ p.Plain) :
    (∃ x, p.wire = some x ∧ goFloat x ≠ p.text) ∨
      ∃ q : PyNumber, q.wire = p.wire ∧ q.value ≠ p.value := by
  have hvalue : ∀ {n m : Int}, n ≠ m → (int n).value ≠ (int m).value := by
    intro n m hne heq
    exact hne (Int.eq_of_mul_eq_mul_right (Int.natCast_ne_zero.mpr magOne_pos.ne') heq)
  have hother : ∀ {n : Nat}, ¬ Alone n → ∃ m, roundQuot m 1 = roundQuot n 1 ∧ m ≠ n := by
    intro n hn
    simpa only [Alone, not_forall, exists_prop] using hn
  cases p with
  | int n =>
    obtain ⟨m, hm, hne⟩ := hother (mt alone_iff.mp h)
    refine .inr ?_
    by_cases hn : n < 0
    · have hm0 : m ≠ 0 := by
        rintro rfl
        have hbig : 2 ^ 53 ≤ n.natAbs := by
          by_contra hlt
          exact h (.inl (not_le.mp hlt))
        have hmono : roundQuot (2 ^ 53) 1 ≤ roundQuot n.natAbs 1 :=
          roundQuot_mono Nat.one_pos Nat.one_pos (Nat.mul_le_mul_right _ hbig)
        rw [← hm] at hmono
        exact absurd hmono (by decide)
      exact ⟨int (-m), wire_int_eq (by omega) (by rwa [Int.natAbs_neg, Int.natAbs_natCast]),
        hvalue (by omega)⟩
    · exact ⟨int m, wire_int_eq (by omega) (by rwa [Int.natAbs_natCast]), hvalue (by omega)⟩
  | float x =>
    by_cases heq : goFloat x = pyFloat x
    · -- a large whole number: some `int` is rounded to it
      refine .inr ?_
      have hbig : (Decimal.mk 1 21).mag ≤ x.mag :=
        ((goFloat_eq_pyFloat_iff x).mp heq).resolve_left h
      have hlow : (Decimal.mk 1 (-4)).mag ≤ (Decimal.mk 1 21).mag := by decide +kernel
      have hwhole : magOne ∣ x.mag := by
        by_contra hdvd
        exact h ⟨hdvd, .inl (hlow.trans hbig)⟩
      obtain ⟨n, hn⟩ := hwhole
      have hself : roundQuot n 1 = n := by
        refine Nat.eq_of_mul_eq_mul_right magOne_pos ?_
        rw [← mag_whole_number, Nat.mul_comm n, ← hn]
        refine Decimal.mag_eq x.isMag ?_
        rw [hn]
        change n * 1 * magOne = magOne * n * 1
        ring
      have hlarge : 2 ^ 54 ≤ n := by
        have htop : (Decimal.mk 1 21).mag = 10 ^ 21 * magOne := by
          rw [← mag_whole (n := 10 ^ 21) (c := 5 ^ 21) (s := 21) (by decide) (by decide)]
          exact Decimal.mag_congr (by decide)
        rw [htop, hn, Nat.mul_comm magOne] at hbig
        exact (by decide : 2 ^ 54 ≤ 10 ^ 21).trans (Nat.le_of_mul_le_mul_right hbig magOne_pos)
      obtain ⟨m, hm, hne⟩ := hother (n := n) fun halone => by
        obtain h | h := alone_iff.mp halone <;> omega
      have hm0 : m ≠ 0 := by
        rintro rfl
        rw [hself] at hm
        have : roundQuot 0 1 = 0 := rfl
        omega
      have hmag : (Decimal.mk m 0).mag = x.mag := by
        rw [mag_whole_number, hm, hself, hn, Nat.mul_comm]
      have hread : ∀ k : Int, k.natAbs = m → decide (k < 0) = x.neg →
          (int k).wire = (float x).wire := by
        intro k hk hsign
        rw [wire_int, wire_float, hk]
        exact Double.read_eq hsign.symm hmag
      have hne' : (m : Int) * magOne ≠ x.mag := by
        rw [hn]
        intro heq
        refine hne (Nat.eq_of_mul_eq_mul_right magOne_pos ?_)
        rw [Nat.mul_comm n]
        exact_mod_cast heq
      cases hneg : x.neg with
      | true =>
        refine ⟨int (-m), hread _ (by omega) (by rw [hneg, decide_eq_true (by omega)]), ?_⟩
        rw [value, value, hneg, if_pos rfl, Int.neg_mul]
        exact fun heq => hne' (Int.neg_inj.mp heq)
      | false =>
        refine ⟨int m, hread _ (by omega) (by rw [hneg, decide_eq_false (by omega)]), ?_⟩
        rw [value, value, hneg, if_neg Bool.false_ne_true]
        exact hne'
    · exact .inl ⟨x, wire_float x, heq⟩

end PyNumber

/-! ## Arguments that survive the wire -/

variable {args other : Args}

theorem sameValue_iff : SameValue args other ↔
    ((JsonTree.obj args).sorted codeLE).map PyNumber.value =
      ((JsonTree.obj other).sorted codeLE).map PyNumber.value := by
  rw [SameValue, JsonTree.sorted_map, JsonTree.sorted_map]

/-- The double a number is decoded as, when it is decoded. -/
def PyNumber.decoded (p : PyNumber) : Double := p.wire.getD .zero

theorem PyNumber.wire_eq_decoded (h : ∃ x, p.wire = some x) : p.wire = some p.decoded := by
  obtain ⟨x, hx⟩ := h
  rw [decoded, hx]
  rfl

theorem decodeArgs_eq (h : ∀ p ∈ (JsonTree.obj args).numbers, ∃ x, p.wire = some x) :
    decodeArgs args = some ((JsonTree.obj args).map PyNumber.decoded) :=
  JsonTree.traverse_eq_map _ fun p hp => PyNumber.wire_eq_decoded (h p hp)

theorem decodeArgs_some {v : JsonTree Double} (h : decodeArgs args = some v) :
    (∀ p ∈ (JsonTree.obj args).numbers, ∃ x, p.wire = some x) ∧
      v = (JsonTree.obj args).map PyNumber.decoded := by
  have hread := JsonTree.read_of_traverse _ h
  exact ⟨hread, Option.some.inj (h.symm.trans (decodeArgs_eq hread))⟩

/-- Two ways of writing the numbers of one value give the same bytes when they give every
number one text. -/
theorem write_toJson_iff {ν : Type} {f g : ν → Number} {v : JsonTree ν} :
    Json.compact.write (v.toJson f) = Json.compact.write (v.toJson g) ↔
      ∀ n ∈ v.numbers, f n = g n := by
  have htext : ∀ f : ν → Number, v.toJson f = (v.map f).toJson id := fun f =>
    (JsonTree.toJson_map f id v).symm
  rw [Json.compact.write_injective.eq_iff, htext f, htext g]
  exact ⟨fun h => JsonTree.map_eq_map_iff.mp
    (JsonTree.toJson_injective Function.injective_id _ _ h),
    fun h => congrArg _ (JsonTree.map_eq_map_iff.mpr h)⟩

theorem canonicalJSON_decoded (args : Args) :
    canonicalJSON ((JsonTree.obj args).map PyNumber.decoded) = Json.compact.write
      (((JsonTree.obj args).sorted codeLE).toJson fun p => goNumber p.decoded) := by
  rw [canonicalJSON, byteLE_eq_codeLE, JsonTree.sorted_map, JsonTree.toJson_map]

theorem canonical_agrees_iff : canonicalJSON ((JsonTree.obj args).map PyNumber.decoded) =
    canonicalJson args ↔ ∀ p ∈ (JsonTree.obj args).numbers, goNumber p.decoded = p.number := by
  rw [canonicalJSON_decoded, canonicalJson, encodeWriter_eq_compact, write_toJson_iff,
    JsonTree.forall_numbers_sorted]

theorem canonicalJson_alone (h : canonicalJson other = canonicalJson args) :
    SameValue other args := by
  rw [canonicalJson, canonicalJson, encodeWriter_eq_compact,
    Json.compact.write_injective.eq_iff] at h
  rw [sameValue_iff, JsonTree.toJson_injective PyNumber.number_injective _ _ h]

/-- Go's text of plain arguments belongs to no other arguments. -/
theorem canonicalJSON_alone (hplain : ∀ p ∈ (JsonTree.obj args).numbers, p.Plain)
    (hother : ∀ p ∈ (JsonTree.obj other).numbers, ∃ x, p.wire = some x)
    (h : canonicalJSON ((JsonTree.obj other).map PyNumber.decoded) =
      canonicalJSON ((JsonTree.obj args).map PyNumber.decoded)) : SameValue other args := by
  rw [canonicalJSON, canonicalJSON, Json.compact.write_injective.eq_iff, byteLE_eq_codeLE,
    JsonTree.sorted_map, JsonTree.sorted_map] at h
  have hsame := JsonTree.toJson_injective goNumber_injective _ _ h
  replace hplain : ∀ p ∈ ((JsonTree.obj args).sorted codeLE).numbers, p.Plain :=
    JsonTree.forall_numbers_sorted.mpr hplain
  replace hother : ∀ p ∈ ((JsonTree.obj other).sorted codeLE).numbers, ∃ x, p.wire = some x :=
    JsonTree.forall_numbers_sorted.mpr hother
  rw [sameValue_iff]
  generalize (JsonTree.obj args).sorted codeLE = v at hplain hsame
  generalize (JsonTree.obj other).sorted codeLE = w at hother hsame
  -- a plain number is worth its double, and so is every number that is decoded as it
  have hv : ∀ p ∈ v.numbers, p.value = (PyNumber.float p.decoded).value := by
    intro p hp
    obtain ⟨x, hx, -⟩ := (hplain p hp).agrees
    refine ((hplain p hp).alone ?_).symm
    rw [PyNumber.wire_float, PyNumber.wire_eq_decoded ⟨x, hx⟩]
  have hw : ∀ q ∈ w.numbers, q.value = (PyNumber.float q.decoded).value := by
    intro q hq
    have hmem : q.decoded ∈ (w.map PyNumber.decoded).numbers := by
      rw [JsonTree.numbers_map]
      exact List.mem_map_of_mem hq
    rw [hsame, JsonTree.numbers_map] at hmem
    obtain ⟨p, hp, hpq⟩ := List.mem_map.mp hmem
    obtain ⟨x, hx, -⟩ := (hplain p hp).agrees
    have hwire : q.wire = p.wire := by
      rw [PyNumber.wire_eq_decoded (hother q hq), PyNumber.wire_eq_decoded ⟨x, hx⟩, hpq]
    rw [(hplain p hp).alone hwire, hv p hp, hpq]
  rw [JsonTree.map_congr w hw, JsonTree.map_congr v hv,
    ← JsonTree.map_map PyNumber.decoded fun x => (PyNumber.float x).value, hsame, JsonTree.map_map]

/-- Both services compute the same canonical bytes, and compute them for no other arguments,
exactly when every number in the arguments is plain. -/
theorem canonical_faithful_iff (args : Args) :
    Faithful args ↔ ∀ p ∈ (JsonTree.obj args).numbers, p.Plain := by
  constructor
  · intro hfaithful p hp
    obtain ⟨v, hv, hbytes⟩ := Option.map_eq_some_iff.mp hfaithful.agrees
    obtain ⟨hread, rfl⟩ := decodeArgs_some hv
    by_contra hplain
    obtain ⟨x, hx, htext⟩ | ⟨q, hwire, hvalue⟩ := PyNumber.not_plain hplain
    · have hnumber := canonical_agrees_iff.mp hbytes p hp
      rw [PyNumber.decoded, hx] at hnumber
      exact htext (congrArg Number.text hnumber)
    · -- the same arguments with the other number in its place
      let swap : PyNumber → PyNumber := fun n => if n = p then q else n
      have hswap : ∀ n, (swap n).wire = n.wire := by
        intro n
        by_cases hn : n = p
        · rw [show swap n = q from if_pos hn, hn, hwire]
        · rw [show swap n = n from if_neg hn]
      have hother : decodeArgs (JsonTree.mapFields swap args) =
          some ((JsonTree.obj args).map PyNumber.decoded) := by
        have hdecoded : ∀ n ∈ ((JsonTree.obj args).map swap).numbers, ∃ x, n.wire = some x := by
          intro n hn
          rw [JsonTree.numbers_map] at hn
          obtain ⟨m, hm, rfl⟩ := List.mem_map.mp hn
          rw [hswap]
          exact hread m hm
        refine (decodeArgs_eq hdecoded).trans (congrArg some ?_)
        change ((JsonTree.obj args).map swap).map PyNumber.decoded = _
        rw [JsonTree.map_map]
        refine JsonTree.map_congr _ fun n _ => ?_
        rw [PyNumber.decoded, hswap, PyNumber.decoded]
      have hsame := hfaithful.decoded_alone _ _ _ hv hother rfl
      change (((JsonTree.obj args).map swap).map PyNumber.value).sorted codeLE = _ at hsame
      rw [JsonTree.map_map, JsonTree.sorted_map, JsonTree.sorted_map, JsonTree.map_eq_map_iff,
        JsonTree.forall_numbers_sorted] at hsame
      have hat := hsame p hp
      rw [show swap p = q from if_pos rfl] at hat
      exact hvalue hat
  · intro hplain
    have hread : ∀ p ∈ (JsonTree.obj args).numbers, ∃ x, p.wire = some x := by
      intro p hp
      obtain ⟨x, hx, -⟩ := (hplain p hp).agrees
      exact ⟨x, hx⟩
    refine ⟨?_, fun other => canonicalJson_alone, fun other v w hv hw hbytes => ?_⟩
    · rw [decodeArgs_eq hread, Option.map_some, canonical_agrees_iff.mpr]
      intro p hp
      obtain ⟨x, hx, htext⟩ := (hplain p hp).agrees
      rw [PyNumber.decoded, hx, PyNumber.number, goNumber]
      simp only [Option.getD_some, htext]
    · obtain ⟨-, rfl⟩ := decodeArgs_some hv
      obtain ⟨hother, rfl⟩ := decodeArgs_some hw
      exact canonicalJSON_alone hplain hother hbytes

/-! ## Numbers that do not survive the wire -/

/-- The float that is written `1.0`. -/
def oneFloat : Double where
  neg := false
  mag := magOne
  isMag := by decide +kernel
  finite := by decide +kernel

/-- Go writes `1.0` as `1`, and takes 2^53 + 1 for 2^53. -/
theorem canonical_not_faithful :
    (decodeArgs [("amount", .num (.float oneFloat))]).map canonicalJSON ≠
        some (canonicalJson [("amount", .num (.float oneFloat))]) ∧
      (decodeArgs [("id", .num (.int (2 ^ 53)))]).map canonicalJSON =
        (decodeArgs [("id", .num (.int (2 ^ 53 + 1)))]).map canonicalJSON ∧
      ¬ SameValue [("id", .num (.int (2 ^ 53)))] [("id", .num (.int (2 ^ 53 + 1)))] := by
  refine ⟨fun h => ?_, ?_, fun h => ?_⟩
  · have hread : ∀ p ∈ (JsonTree.obj [("amount", .num (PyNumber.float oneFloat))]).numbers,
        ∃ x, p.wire = some x := by
      intro p hp
      obtain rfl := List.mem_singleton.mp hp
      exact ⟨oneFloat, PyNumber.wire_float oneFloat⟩
    rw [decodeArgs_eq hread, Option.map_some, Option.some.injEq, canonical_agrees_iff] at h
    have htext := congrArg Number.text (h (.float oneFloat) (List.mem_singleton_self _))
    rw [PyNumber.decoded, PyNumber.wire_float] at htext
    obtain ⟨hfraction, -⟩ | hlarge := (goFloat_eq_pyFloat_iff oneFloat).mp htext
    · exact hfraction (dvd_refl magOne)
    · exact absurd hlarge (by decide +kernel)
  · have hwire : (PyNumber.int (2 ^ 53)).wire = (PyNumber.int (2 ^ 53 + 1)).wire :=
      PyNumber.wire_int_eq (by decide) (by decide)
    refine congrArg _ ?_
    simp only [decodeArgs, JsonTree.traverse, JsonTree.traverseFields, hwire]
  · rw [sameValue_iff] at h
    have hnumbers := congrArg JsonTree.numbers h
    have hvalues : (2 ^ 53 : Int) * magOne = (2 ^ 53 + 1) * magOne := (List.cons.inj hnumbers).1
    exact absurd (Int.eq_of_mul_eq_mul_right (Int.natCast_ne_zero.mpr magOne_pos.ne') hvalues)
      (by decide)

end Windrose.ToolPlane

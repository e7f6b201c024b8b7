/-
  Audit/SiemFormat.lean --- the SIEM line formats and their readers.

  Source: services/audit-service/internal/siemexport/siemformat.go (severityForOutcome,
  payloadStr, cefEscapeHeader, cefEscapeExtension, formatCEF, leefEscape, formatLEEF).

  `readCEF` and `readLEEF` follow the grammars of the formats: an unescaped `|` splits the
  header; in CEF an unescaped `=` ends a key, and the key begins behind the last blank
  before it; in LEEF a tab splits the attributes and the first `=` ends the key.  A reader
  turns the escape sequences that the writer makes back, in the fields where it makes them.

  A string is its bytes.  A payload value is a string, or something else.
-/
import Windrose.Foundation.NumberText
import Windrose.Foundation.Strip
import Windrose.Foundation.Time
import Windrose.Foundation.Uuid

set_option autoImplicit false

namespace Windrose.Audit.Siem

open Windrose.Foundation

/-! ## Envelopes -/

/-- A value of the payload. -/
inductive PayloadValue where
  | str (s : Bytes)
  | other

/-- What the formats read of `gcevent.Envelope`. -/
structure Envelope where
  eventID : Uuid
  tenantID : Uuid
  actorID : Bytes
  resourceURN : Bytes
  occurredAt : Time
  traceID : Bytes
  payload : List (String × PayloadValue)

/-- `payloadStr`. -/
def payloadStr (env : Envelope) (key : String) : Bytes :=
  match env.payload.lookup key with
  | some (.str s) => s
  | _ => []

def unixMilli (t : Time) : Int := (t.sec - 62135596800) * 1000 + t.nsec / 1000000

/-- `severityForOutcome`. -/
def severityForOutcome (outcome : Bytes) : Nat :=
  if outcome = bytes "denied" ∨ outcome = bytes "rejected" ∨ outcome = bytes "failed" then 7
  else if outcome = bytes "expired" then 4
  else if outcome = bytes "success" then 1
  else 3

/-- `deviceVendor`. -/
def deviceVendor : Bytes := bytes "Datacern"

/-- `deviceProduct`. -/
def deviceProduct : Bytes := bytes "AuditService"

/-! ## The writers -/

/-- `strings.ReplaceAll` of one byte. -/
def replaceAll (old : UInt8) (new s : Bytes) : Bytes :=
  s.flatMap fun b => if b = old then new else [b]

/-- `cefEscapeHeader`. -/
def cefEscapeHeader (s : Bytes) : Bytes :=
  replaceAll 124 (bytes "\\|") (replaceAll 92 (bytes "\\\\") s)

/-- `cefEscapeExtension`. -/
def cefEscapeExtension (s : Bytes) : Bytes :=
  replaceAll 10 (bytes "\\n") (replaceAll 61 (bytes "\\=") (replaceAll 92 (bytes "\\\\") s))

/-- `formatCEF`. -/
def formatCEF (env : Envelope) : Bytes :=
  let action := payloadStr env "action"
  let sourceEventType := payloadStr env "source_event_type"
  let outcome := payloadStr env "outcome"
  let schemaVersion := payloadStr env "schema_version"
  let header := List.intercalate (bytes "|")
    [bytes "CEF:0", cefEscapeHeader deviceVendor, cefEscapeHeader deviceProduct,
      cefEscapeHeader schemaVersion, cefEscapeHeader action, cefEscapeHeader sourceEventType,
      itoa (severityForOutcome outcome)]
  let ext :=
    [bytes "externalId=" ++ cefEscapeExtension env.eventID.text,
      bytes "rt=" ++ intText (unixMilli env.occurredAt),
      bytes "outcome=" ++ cefEscapeExtension outcome,
      bytes "duser=" ++ cefEscapeExtension env.actorID,
      bytes "act=" ++ cefEscapeExtension action,
      bytes "cs1Label=tenant_id", bytes "cs1=" ++ cefEscapeExtension env.tenantID.text,
      bytes "cs2Label=resource_urn", bytes "cs2=" ++ cefEscapeExtension env.resourceURN,
      bytes "cs3Label=source_event_id",
      bytes "cs3=" ++ cefEscapeExtension (payloadStr env "source_event_id"),
      bytes "cs4Label=payload_digest",
      bytes "cs4=" ++ cefEscapeExtension (payloadStr env "payload_digest")] ++
    if env.traceID ≠ [] then
      [bytes "cs5Label=trace_id", bytes "cs5=" ++ cefEscapeExtension env.traceID]
    else []
  header ++ bytes "|" ++ List.intercalate (bytes " ") ext

/-- `leefEscape`. -/
def leefEscape (s : Bytes) : Bytes := replaceAll 10 (bytes "\\n") (replaceAll 9 (bytes "\\t") s)

/-- `formatLEEF`. -/
def formatLEEF (env : Envelope) : Bytes :=
  let action := payloadStr env "action"
  let sourceEventType := payloadStr env "source_event_type"
  let outcome := payloadStr env "outcome"
  let schemaVersion := payloadStr env "schema_version"
  let header := List.intercalate (bytes "|")
    [bytes "LEEF:2.0", deviceVendor, deviceProduct, schemaVersion, leefEscape sourceEventType]
  let ext :=
    [bytes "externalId=" ++ leefEscape env.eventID.text,
      bytes "devTime=" ++ intText (unixMilli env.occurredAt),
      bytes "outcome=" ++ leefEscape outcome,
      bytes "usrName=" ++ leefEscape env.actorID,
      bytes "act=" ++ leefEscape action,
      bytes "tenantId=" ++ leefEscape env.tenantID.text,
      bytes "resourceUrn=" ++ leefEscape env.resourceURN,
      bytes "sourceEventId=" ++ leefEscape (payloadStr env "source_event_id"),
      bytes "payloadDigest=" ++ leefEscape (payloadStr env "payload_digest")] ++
    if env.traceID ≠ [] then [bytes "traceId=" ++ leefEscape env.traceID] else []
  header ++ bytes "|" ++ List.intercalate (bytes "\t") ext

/-! ## The readers -/

/-- A line of either format, read. -/
structure Line where
  header : List Bytes
  extension : List (Bytes × Bytes)
  deriving DecidableEq

/-- Some header fields, and what is left. -/
def readFields (field : Bytes → Option (Bytes × Bytes)) : Nat → Bytes → Option (List Bytes × Bytes)
  | 0, s => some ([], s)
  | n + 1, s => do
      let (first, rest) ← field s
      let (fields, rest) ← readFields field n rest
      pure (first :: fields, rest)

/-- A field of a CEF header. -/
def cefField : Bytes → Option (Bytes × Bytes)
  | [] => none
  | 124 :: rest => some ([], rest)
  | 92 :: 92 :: rest => (cefField rest).map (Prod.map (92 :: ·) id)
  | 92 :: 124 :: rest => (cefField rest).map (Prod.map (124 :: ·) id)
  | b :: rest => (cefField rest).map (Prod.map (b :: ·) id)

/-- The texts between the unescaped `=`. -/
def splitEquals : Bytes → Bytes × List Bytes
  | [] => ([], [])
  | 61 :: rest => ([], (splitEquals rest).1 :: (splitEquals rest).2)
  | 92 :: b :: rest => (92 :: b :: (splitEquals rest).1, (splitEquals rest).2)
  | b :: rest => (b :: (splitEquals rest).1, (splitEquals rest).2)

def unescapeExtension : Bytes → Bytes
  | [] => []
  | 92 :: 92 :: rest => 92 :: unescapeExtension rest
  | 92 :: 61 :: rest => 61 :: unescapeExtension rest
  | 92 :: 110 :: rest => 10 :: unescapeExtension rest
  | 92 :: 114 :: rest => 13 :: unescapeExtension rest
  | b :: rest => b :: unescapeExtension rest

/-- Keys with their values: a text between two `=` is a value, a blank and the next key. -/
def pairUp (key : Bytes) : List Bytes → List (Bytes × Bytes)
  | [] => []
  | [value] => [(key, unescapeExtension value)]
  | text :: texts =>
    (key, unescapeExtension (text.rdropWhile (· ≠ 32)).dropLast) ::
      pairUp (text.rtakeWhile (· ≠ 32)) texts

def readCEF (line : Bytes) : Option Line :=
  (readFields cefField 7 line).map fun (header, ext) =>
    ⟨header, pairUp (splitEquals ext).1 (splitEquals ext).2⟩

/-- A field of a LEEF header. -/
def leefField : Bytes → Option (Bytes × Bytes)
  | [] => none
  | b :: rest => if b = 124 then some ([], rest) else (leefField rest).map (Prod.map (b :: ·) id)

def unescapeLEEF : Bytes → Bytes
  | [] => []
  | 92 :: 116 :: rest => 9 :: unescapeLEEF rest
  | 92 :: 110 :: rest => 10 :: unescapeLEEF rest
  | b :: rest => b :: unescapeLEEF rest

/-- An attribute of a LEEF line. -/
def readAttribute (text : Bytes) : Bytes × Bytes :=
  (text.takeWhile (· ≠ 61), unescapeLEEF (text.dropWhile (· ≠ 61)).tail)

def readLEEF (line : Bytes) : Option Line :=
  match readFields leefField 5 line with
  | some ([format, vendor, product, version, eventID], ext) =>
    some ⟨[format, vendor, product, version, unescapeLEEF eventID],
      (ext.splitOn 9).map readAttribute⟩
  | _ => none

/-! ## What is promised -/

/-- What a CEF line is to be read as. -/
def cefLine (env : Envelope) : Line :=
  { header := [bytes "CEF:0", deviceVendor, deviceProduct, payloadStr env "schema_version",
      payloadStr env "action", payloadStr env "source_event_type",
      itoa (severityForOutcome (payloadStr env "outcome"))]
    extension :=
      [(bytes "externalId", env.eventID.text), (bytes "rt", intText (unixMilli env.occurredAt)),
        (bytes "outcome", payloadStr env "outcome"), (bytes "duser", env.actorID),
        (bytes "act", payloadStr env "action"),
        (bytes "cs1Label", bytes "tenant_id"), (bytes "cs1", env.tenantID.text),
        (bytes "cs2Label", bytes "resource_urn"), (bytes "cs2", env.resourceURN),
        (bytes "cs3Label", bytes "source_event_id"),
        (bytes "cs3", payloadStr env "source_event_id"),
        (bytes "cs4Label", bytes "payload_digest"),
        (bytes "cs4", payloadStr env "payload_digest")] ++
      if env.traceID ≠ [] then
        [(bytes "cs5Label", bytes "trace_id"), (bytes "cs5", env.traceID)]
      else [] }

/-- What a LEEF line is to be read as. -/
def leefLine (env : Envelope) : Line :=
  { header := [bytes "LEEF:2.0", deviceVendor, deviceProduct, payloadStr env "schema_version",
      payloadStr env "source_event_type"]
    extension :=
      [(bytes "externalId", env.eventID.text),
        (bytes "devTime", intText (unixMilli env.occurredAt)),
        (bytes "outcome", payloadStr env "outcome"), (bytes "usrName", env.actorID),
        (bytes "act", payloadStr env "action"), (bytes "tenantId", env.tenantID.text),
        (bytes "resourceUrn", env.resourceURN),
        (bytes "sourceEventId", payloadStr env "source_event_id"),
        (bytes "payloadDigest", payloadStr env "payload_digest")] ++
      if env.traceID ≠ [] then [(bytes "traceId", env.traceID)] else [] }

/-- No line feed and no carriage return. -/
def SingleLine (s : Bytes) : Prop := (10 : UInt8) ∉ s ∧ (13 : UInt8) ∉ s

/-- Both lines are single, and read back. -/
def Unambiguous (env : Envelope) : Prop :=
  (SingleLine (formatCEF env) ∧ readCEF (formatCEF env) = some (cefLine env)) ∧
    SingleLine (formatLEEF env) ∧ readLEEF (formatLEEF env) = some (leefLine env)

/-- The value has no backslash before a `t` or an `n`. -/
def Unescaped (s : Bytes) : Prop := ¬ bytes "\\t" <:+: s ∧ ¬ bytes "\\n" <:+: s

/-- The values that both formats write into the extension. -/
def values (env : Envelope) : List Bytes :=
  [payloadStr env "outcome", env.actorID, payloadStr env "action", env.resourceURN,
    payloadStr env "source_event_id", payloadStr env "payload_digest", env.traceID]

/-- No value has a carriage return or looks escaped; the header fields have no line feed,
and those of LEEF no `|`. -/
structure Plain (env : Envelope) : Prop where
  values : ∀ v ∈ values env, (13 : UInt8) ∉ v ∧ Unescaped v
  action : (10 : UInt8) ∉ payloadStr env "action"
  sourceEventType : SingleLine (payloadStr env "source_event_type") ∧
    (124 : UInt8) ∉ payloadStr env "source_event_type" ∧
    Unescaped (payloadStr env "source_event_type")
  schemaVersion : SingleLine (payloadStr env "schema_version") ∧
    (124 : UInt8) ∉ payloadStr env "schema_version"

/-! ## CEF -/

variable {c old : UInt8}

section Escapes

variable {b : UInt8} {s : Bytes}

theorem cefEscapeHeader_backslash (s : Bytes) :
    cefEscapeHeader (92 :: s) = 92 :: 92 :: cefEscapeHeader s := rfl

theorem cefEscapeHeader_bar (s : Bytes) :
    cefEscapeHeader (124 :: s) = 92 :: 124 :: cefEscapeHeader s := rfl

theorem cefEscapeHeader_other (hslash : b ≠ 92) (hbar : b ≠ 124) :
    cefEscapeHeader (b :: s) = b :: cefEscapeHeader s := by
  simp [cefEscapeHeader, replaceAll, hslash, hbar]

theorem cefEscapeExtension_backslash (s : Bytes) :
    cefEscapeExtension (92 :: s) = 92 :: 92 :: cefEscapeExtension s := rfl

theorem cefEscapeExtension_equals (s : Bytes) :
    cefEscapeExtension (61 :: s) = 92 :: 61 :: cefEscapeExtension s := rfl

theorem cefEscapeExtension_newline (s : Bytes) :
    cefEscapeExtension (10 :: s) = 92 :: 110 :: cefEscapeExtension s := rfl

theorem cefEscapeExtension_other (hslash : b ≠ 92) (hequals : b ≠ 61) (hline : b ≠ 10) :
    cefEscapeExtension (b :: s) = b :: cefEscapeExtension s := by
  simp [cefEscapeExtension, replaceAll, hslash, hequals, hline]

theorem leefEscape_tab (s : Bytes) : leefEscape (9 :: s) = 92 :: 116 :: leefEscape s := rfl

theorem leefEscape_newline (s : Bytes) : leefEscape (10 :: s) = 92 :: 110 :: leefEscape s := rfl

theorem leefEscape_other (htab : b ≠ 9) (hline : b ≠ 10) :
    leefEscape (b :: s) = b :: leefEscape s := by
  simp [leefEscape, replaceAll, htab, hline]

theorem mem_replaceAll_iff {new : Bytes} (hold : c ≠ old) (hnew : c ∉ new) :
    c ∈ replaceAll old new s ↔ c ∈ s := by
  rw [replaceAll, List.mem_flatMap]
  constructor
  · rintro ⟨b, hb, hc⟩
    split at hc
    · exact absurd hc hnew
    · exact List.mem_singleton.mp hc ▸ hb
  · intro hc
    exact ⟨c, hc, by rw [if_neg hold]; exact List.mem_singleton_self c⟩

theorem not_mem_replaceAll_self {new : Bytes} (hnew : old ∉ new) (s : Bytes) :
    old ∉ replaceAll old new s := by
  rw [replaceAll, List.mem_flatMap]
  rintro ⟨b, -, hold⟩
  split at hold
  · exact hnew hold
  · next hne => exact hne (List.mem_singleton.mp hold).symm

theorem replaceAll_of_not_mem (new : Bytes) (h : old ∉ s) : replaceAll old new s = s := by
  induction s with
  | nil => rfl
  | cons b s ih =>
    obtain ⟨hb, hs⟩ := List.ne_and_not_mem_of_not_mem_cons h
    show (if b = old then new else [b]) ++ replaceAll old new s = b :: s
    rw [if_neg hb.symm, ih hs, List.singleton_append]

end Escapes

theorem cefField_escape (s rest : Bytes) :
    cefField (cefEscapeHeader s ++ 124 :: rest) = some (s, rest) := by
  induction s with
  | nil => rfl
  | cons b s ih =>
    by_cases hslash : b = 92
    · subst hslash
      rw [cefEscapeHeader_backslash, List.cons_append, List.cons_append, cefField, ih]
      rfl
    by_cases hbar : b = 124
    · subst hbar
      rw [cefEscapeHeader_bar, List.cons_append, List.cons_append, cefField, ih]
      rfl
    · rw [cefEscapeHeader_other hslash hbar, List.cons_append, cefField, ih]
      · rfl
      · exact hbar
      · exact fun _ h _ => hslash h
      · exact fun _ h _ => hslash h

theorem unescapeExtension_escape (s : Bytes) : unescapeExtension (cefEscapeExtension s) = s := by
  induction s with
  | nil => rfl
  | cons b s ih =>
    by_cases hslash : b = 92
    · subst hslash
      rw [cefEscapeExtension_backslash, unescapeExtension, ih]
    by_cases hequals : b = 61
    · subst hequals
      rw [cefEscapeExtension_equals, unescapeExtension, ih]
    by_cases hline : b = 10
    · subst hline
      rw [cefEscapeExtension_newline, unescapeExtension, ih]
    · rw [cefEscapeExtension_other hslash hequals hline, unescapeExtension, ih]
      · exact fun _ h _ => hslash h
      · exact fun _ h _ => hslash h
      · exact fun _ h _ => hslash h
      · exact fun _ h _ => hslash h

theorem splitEquals_escape (s rest : Bytes) : splitEquals (cefEscapeExtension s ++ rest) =
      (cefEscapeExtension s ++ (splitEquals rest).1, (splitEquals rest).2) := by
  induction s with
  | nil => rfl
  | cons b s ih =>
    by_cases hslash : b = 92
    · subst hslash
      rw [cefEscapeExtension_backslash]
      simp only [List.cons_append, splitEquals, ih]
    by_cases hequals : b = 61
    · subst hequals
      rw [cefEscapeExtension_equals]
      simp only [List.cons_append, splitEquals, ih]
    by_cases hline : b = 10
    · subst hline
      rw [cefEscapeExtension_newline]
      simp only [List.cons_append, splitEquals, ih]
    · rw [cefEscapeExtension_other hslash hequals hline, List.cons_append, splitEquals, ih]
      · rfl
      · exact hequals
      · exact fun _ _ h _ => hslash h

/-- A key of the extension. -/
def Key (k : Bytes) : Prop := (92 : UInt8) ∉ k ∧ (61 : UInt8) ∉ k ∧ (32 : UInt8) ∉ k

instance (k : Bytes) : Decidable (Key k) := inferInstanceAs (Decidable (_ ∧ _))

theorem splitEquals_key {k : Bytes} (h : Key k) (rest : Bytes) :
    splitEquals (k ++ rest) = (k ++ (splitEquals rest).1, (splitEquals rest).2) := by
  obtain ⟨hslash, hequals, -⟩ := h
  induction k with
  | nil => rfl
  | cons b k ih =>
    obtain ⟨hb, hk⟩ := List.ne_and_not_mem_of_not_mem_cons hslash
    obtain ⟨hb', hk'⟩ := List.ne_and_not_mem_of_not_mem_cons hequals
    rw [List.cons_append, splitEquals, ih hk hk']
    · rfl
    · exact hb'.symm
    · exact fun _ _ h _ => hb h.symm

/-- `key=value`. -/
def pairText (p : Bytes × Bytes) : Bytes := p.1 ++ 61 :: cefEscapeExtension p.2

/-- The texts between the `=` of an extension. -/
def pairTexts (value : Bytes) : List (Bytes × Bytes) → List Bytes
  | [] => [cefEscapeExtension value]
  | p :: ps => (cefEscapeExtension value ++ 32 :: p.1) :: pairTexts p.2 ps

theorem splitEquals_pairs (ps : List (Bytes × Bytes)) :
    ∀ p : Bytes × Bytes, (∀ q ∈ p :: ps, Key q.1) →
      splitEquals (List.intercalate [32] ((p :: ps).map pairText)) = (p.1, pairTexts p.2 ps) := by
  induction ps with
  | nil =>
    intro p hkeys
    have h := splitEquals_escape p.2 []
    rw [List.append_nil] at h
    show splitEquals ((p.1 ++ 61 :: cefEscapeExtension p.2) ++ []) = _
    rw [List.append_nil, splitEquals_key (hkeys p List.mem_cons_self), splitEquals, h]
    simp [splitEquals, pairTexts]
  | cons q ps ih =>
    intro p hkeys
    have hrest := ih q fun r hr => hkeys r (List.mem_cons_of_mem p hr)
    have hjoin : List.intercalate [32] ((p :: q :: ps).map pairText) =
        p.1 ++ 61 :: (cefEscapeExtension p.2 ++
          32 :: List.intercalate [32] ((q :: ps).map pairText)) := by
      simp [List.intercalate, pairText]
    rw [hjoin, splitEquals_key (hkeys p List.mem_cons_self), splitEquals, splitEquals_escape,
      splitEquals, hrest]
    · simp [pairTexts]
    · decide
    · exact fun _ _ h _ => (nomatch h)

theorem key_behind (value : Bytes) {k : Bytes} (h : (32 : UInt8) ∉ k) :
    (value ++ 32 :: k).rtakeWhile (· ≠ 32) = k ∧
      ((value ++ 32 :: k).rdropWhile (· ≠ 32)).dropLast = value := by
  have hk : k.rdropWhile (· ≠ 32) = [] :=
    List.rdropWhile_eq_nil_iff.mpr fun b hb => decide_eq_true fun heq => h (heq ▸ hb)
  have hdrop : (value ++ 32 :: k).rdropWhile (· ≠ 32) = value ++ [32] := by
    have hcons := rdropWhile_append_cons (p := fun b : UInt8 => decide (b ≠ 32)) (c := 32) rfl
      value k
    rw [hcons, hk]
  constructor
  · have htake := List.rdropWhile_append_rtakeWhile (l := value ++ 32 :: k) (p := (· ≠ 32))
    rw [hdrop, List.append_assoc] at htake
    exact (List.cons.inj (List.append_cancel_left htake)).2
  · rw [hdrop, List.dropLast_concat]

theorem pairUp_pairTexts (ps : List (Bytes × Bytes)) :
    ∀ p : Bytes × Bytes, (∀ q ∈ ps, Key q.1) → pairUp p.1 (pairTexts p.2 ps) = p :: ps := by
  induction ps with
  | nil =>
    intro p _
    rw [pairTexts, pairUp, unescapeExtension_escape]
  | cons q ps ih =>
    intro p hkeys
    obtain ⟨hkey, hvalue⟩ := key_behind (cefEscapeExtension p.2) (hkeys q List.mem_cons_self).2.2
    have hrest := ih q fun r hr => hkeys r (List.mem_cons_of_mem q hr)
    rw [pairTexts, pairUp, hkey, hvalue, hrest, unescapeExtension_escape]
    cases ps with
    | nil => exact nofun
    | cons r ps => exact nofun

theorem pairUp_splitEquals {p : Bytes × Bytes} {ps : List (Bytes × Bytes)}
    (hkeys : ∀ q ∈ p :: ps, Key q.1) :
    let ext := splitEquals (List.intercalate [32] ((p :: ps).map pairText))
    pairUp ext.1 ext.2 = p :: ps := by
  dsimp only
  rw [splitEquals_pairs ps p hkeys]
  exact pairUp_pairTexts ps p fun q hq => hkeys q (List.mem_cons_of_mem p hq)

variable {s : Bytes}

theorem cefEscapeHeader_of_not_mem (hslash : (92 : UInt8) ∉ s)
    (hbar : (124 : UInt8) ∉ s) : cefEscapeHeader s = s := by
  rw [cefEscapeHeader, replaceAll_of_not_mem _ hslash, replaceAll_of_not_mem _ hbar]

theorem cefEscapeExtension_of_not_mem (hslash : (92 : UInt8) ∉ s)
    (hequals : (61 : UInt8) ∉ s) (hline : (10 : UInt8) ∉ s) : cefEscapeExtension s = s := by
  rw [cefEscapeExtension, replaceAll_of_not_mem _ hslash, replaceAll_of_not_mem _ hequals,
    replaceAll_of_not_mem _ hline]

theorem other_not_mem_intText (hc : isNumberByte c = false) (n : Int) : c ∉ intText n :=
  fun h => Bool.false_ne_true (hc.symm.trans (numberBytes_intText n c h))

theorem other_not_mem_itoa (hc : isNumberByte c = false) (n : Nat) : c ∉ itoa n :=
  fun h => Bool.false_ne_true (hc.symm.trans (numberBytes_itoa n c h))

theorem readFields_cef (fields : List Bytes) (ext : Bytes) : readFields cefField fields.length
        ((fields.flatMap fun f => cefEscapeHeader f ++ [124]) ++ ext) = some (fields, ext) := by
  induction fields with
  | nil => rfl
  | cons f fields ih =>
    rw [List.length_cons, readFields, List.flatMap_cons, List.append_assoc, List.append_assoc,
      List.singleton_append, cefField_escape]
    simp only [Option.bind_eq_bind, Option.bind_some, ih]
    rfl

theorem intercalate_bar (f : Bytes) (fields : List Bytes) :
    List.intercalate [124] (f :: fields) ++ [124] = (f :: fields).flatMap (· ++ [124]) := by
  induction fields generalizing f with
  | nil => simp [List.intercalate]
  | cons g fields ih =>
    rw [List.flatMap_cons, ← ih g]
    simp [List.intercalate]

theorem formatCEF_eq (env : Envelope) :
    formatCEF env = ((cefLine env).header.flatMap fun f => cefEscapeHeader f ++ [124]) ++
      List.intercalate [32] ((cefLine env).extension.map pairText) := by
  have hseverity : ∀ n, cefEscapeHeader (itoa n) = itoa n := fun n =>
    cefEscapeHeader_of_not_mem (other_not_mem_itoa (by decide) n) (other_not_mem_itoa (by decide) n)
  have htime : ∀ n, cefEscapeExtension (intText n) = intText n := fun n =>
    cefEscapeExtension_of_not_mem (other_not_mem_intText (by decide) n)
      (other_not_mem_intText (by decide) n) (other_not_mem_intText (by decide) n)
  have hformat : cefEscapeHeader (bytes "CEF:0") = bytes "CEF:0" := rfl
  unfold formatCEF cefLine
  dsimp only
  rw [← List.flatMap_map cefEscapeHeader (· ++ [124])]
  simp only [List.map_cons, List.map_nil, hseverity, hformat]
  rw [← intercalate_bar, List.map_append, apply_ite (List.map pairText)]
  simp only [List.map_cons, List.map_nil, pairText, htime]
  have hkeys : bytes "externalId=" = bytes "externalId" ++ [61] ∧
      bytes "rt=" = bytes "rt" ++ [61] ∧ bytes "outcome=" = bytes "outcome" ++ [61] ∧
      bytes "duser=" = bytes "duser" ++ [61] ∧ bytes "act=" = bytes "act" ++ [61] ∧
      bytes "cs1=" = bytes "cs1" ++ [61] ∧ bytes "cs2=" = bytes "cs2" ++ [61] ∧
      bytes "cs3=" = bytes "cs3" ++ [61] ∧ bytes "cs4=" = bytes "cs4" ++ [61] ∧
      bytes "cs5=" = bytes "cs5" ++ [61] := by decide
  have hlabels : bytes "cs1Label=tenant_id" =
        bytes "cs1Label" ++ 61 :: cefEscapeExtension (bytes "tenant_id") ∧
      bytes "cs2Label=resource_urn" =
        bytes "cs2Label" ++ 61 :: cefEscapeExtension (bytes "resource_urn") ∧
      bytes "cs3Label=source_event_id" =
        bytes "cs3Label" ++ 61 :: cefEscapeExtension (bytes "source_event_id") ∧
      bytes "cs4Label=payload_digest" =
        bytes "cs4Label" ++ 61 :: cefEscapeExtension (bytes "payload_digest") ∧
      bytes "cs5Label=trace_id" =
        bytes "cs5Label" ++ 61 :: cefEscapeExtension (bytes "trace_id") := by decide
  simp only [hkeys, hlabels, List.append_assoc, List.singleton_append]
  rfl

/-! ## Line breaks -/

instance (s : Bytes) : Decidable (SingleLine s) := inferInstanceAs (Decidable (_ ∧ _))

theorem singleLine_append (s t : Bytes) : SingleLine (s ++ t) ↔ SingleLine s ∧ SingleLine t := by
  simp only [SingleLine, List.mem_append, not_or]
  exact and_and_and_comm

theorem singleLine_intercalate {sep : UInt8} (hsep : SingleLine [sep]) (texts : List Bytes) :
    SingleLine (List.intercalate [sep] texts) ↔ ∀ t ∈ texts, SingleLine t := by
  induction texts with
  | nil => simp [List.intercalate, SingleLine]
  | cons t texts ih =>
    cases texts with
    | nil => simp [List.intercalate]
    | cons u texts =>
      have hcons : List.intercalate [sep] (t :: u :: texts) =
          t ++ ([sep] ++ List.intercalate [sep] (u :: texts)) := by simp [List.intercalate]
      rw [hcons, singleLine_append, singleLine_append, ih, and_iff_right hsep]
      exact List.forall_mem_cons.symm

theorem singleLine_cefEscapeHeader (s : Bytes) : SingleLine (cefEscapeHeader s) ↔ SingleLine s := by
  unfold SingleLine cefEscapeHeader
  rw [mem_replaceAll_iff (by decide) (by decide), mem_replaceAll_iff (by decide) (by decide),
    mem_replaceAll_iff (by decide) (by decide), mem_replaceAll_iff (by decide) (by decide)]

theorem singleLine_cefEscapeExtension (s : Bytes) :
    SingleLine (cefEscapeExtension s) ↔ (13 : UInt8) ∉ s := by
  unfold SingleLine cefEscapeExtension
  rw [mem_replaceAll_iff (c := 13) (by decide) (by decide),
    mem_replaceAll_iff (c := 13) (by decide) (by decide),
    mem_replaceAll_iff (c := 13) (by decide) (by decide)]
  exact and_iff_right (not_mem_replaceAll_self (by decide) _)

theorem singleLine_leefEscape (s : Bytes) : SingleLine (leefEscape s) ↔ (13 : UInt8) ∉ s := by
  unfold SingleLine leefEscape
  rw [mem_replaceAll_iff (c := 13) (by decide) (by decide),
    mem_replaceAll_iff (c := 13) (by decide) (by decide)]
  exact and_iff_right (not_mem_replaceAll_self (by decide) _)

theorem singleLine_intText (n : Int) : SingleLine (intText n) :=
  ⟨other_not_mem_intText (by decide) n, other_not_mem_intText (by decide) n⟩

theorem singleLine_itoa (n : Nat) : SingleLine (itoa n) :=
  ⟨other_not_mem_itoa (by decide) n, other_not_mem_itoa (by decide) n⟩

theorem return_not_mem_text (u : Uuid) : (13 : UInt8) ∉ u.text :=
  u.not_mem_text (by decide) (by decide)

theorem singleLine_formatCEF (env : Envelope) :
    SingleLine (formatCEF env) ↔ SingleLine (payloadStr env "schema_version") ∧
      SingleLine (payloadStr env "action") ∧ SingleLine (payloadStr env "source_event_type") ∧
        ∀ v ∈ values env, (13 : UInt8) ∉ v := by
  have hbar : bytes "|" = [124] := rfl
  have hblank : bytes " " = [32] := rfl
  unfold formatCEF values
  dsimp only
  rw [singleLine_append, singleLine_append, hbar, hblank, singleLine_intercalate (by decide),
    singleLine_intercalate (by decide), List.forall_mem_append]
  by_cases htrace : env.traceID = []
  · simp +decide only [htrace, ne_eq, if_false, List.forall_mem_cons, List.not_mem_nil,
      singleLine_append, singleLine_cefEscapeHeader, singleLine_cefEscapeExtension,
      singleLine_intText, singleLine_itoa, return_not_mem_text, not_false_eq_true, true_and,
      and_true, false_implies, implies_true, and_assoc]
  · simp +decide only [htrace, ne_eq, not_false_eq_true, if_true, List.forall_mem_cons,
      singleLine_append, singleLine_cefEscapeHeader, singleLine_cefEscapeExtension,
      singleLine_intText, singleLine_itoa, return_not_mem_text, true_and, and_true, and_assoc]

theorem singleLine_formatLEEF (env : Envelope) :
    SingleLine (formatLEEF env) ↔ SingleLine (payloadStr env "schema_version") ∧
      (13 : UInt8) ∉ payloadStr env "source_event_type" ∧ ∀ v ∈ values env, (13 : UInt8) ∉ v := by
  have hbar : bytes "|" = [124] := rfl
  have htab : bytes "\t" = [9] := rfl
  unfold formatLEEF values
  dsimp only
  rw [singleLine_append, singleLine_append, hbar, htab, singleLine_intercalate (by decide),
    singleLine_intercalate (by decide), List.forall_mem_append]
  by_cases htrace : env.traceID = []
  · simp +decide only [htrace, ne_eq, if_false, List.forall_mem_cons, List.not_mem_nil,
      singleLine_append, singleLine_leefEscape, singleLine_intText, return_not_mem_text,
      not_false_eq_true, true_and, and_true, false_implies, implies_true, and_assoc]
  · simp +decide only [htrace, ne_eq, not_false_eq_true, if_true, List.forall_mem_cons,
      singleLine_append, singleLine_leefEscape, singleLine_intText, return_not_mem_text, true_and,
      and_true, and_assoc]

/-! ## Reading the lines back -/

theorem readCEF_formatCEF (env : Envelope) : readCEF (formatCEF env) = some (cefLine env) := by
  have hkeys : ∀ p ∈ (cefLine env).extension, Key p.1 := by
    unfold cefLine
    dsimp only
    rw [List.forall_mem_append]
    split
    · simp +decide only [List.forall_mem_cons, and_true]
    · simp +decide only [List.forall_mem_cons, and_true]
  have hlength : (cefLine env).header.length = 7 := rfl
  have hread := readFields_cef (cefLine env).header
    (List.intercalate [32] ((cefLine env).extension.map pairText))
  rw [hlength] at hread
  rw [readCEF, formatCEF_eq, hread]
  exact congrArg (fun ext => some (⟨(cefLine env).header, ext⟩ : Line)) (pairUp_splitEquals hkeys)

theorem unescaped_cons {b : UInt8} :
    Unescaped (b :: s) ↔ ¬(b = 92 ∧ (s.head? = some 116 ∨ s.head? = some 110)) ∧ Unescaped s := by
  have hfirst : ∀ c : UInt8, [92, c] <+: b :: s ↔ b = 92 ∧ s.head? = some c := by
    intro c
    rw [List.cons_prefix_cons]
    cases s with
    | nil => simp
    | cons d s => simp [List.cons_prefix_cons, eq_comm]
  have htab : bytes "\\t" = [92, 116] := rfl
  have hline : bytes "\\n" = [92, 110] := rfl
  unfold Unescaped
  rw [htab, hline, List.infix_cons_iff, List.infix_cons_iff, hfirst, hfirst]
  tauto

theorem head_leefEscape (hslash : c ≠ 92) (htab : c ≠ 9) (hline : c ≠ 10) (s : Bytes) :
    (leefEscape s).head? = some c ↔ s.head? = some c := by
  cases s with
  | nil => exact Iff.rfl
  | cons b s =>
    by_cases hb : b = 9
    · subst hb
      rw [leefEscape_tab]
      simp [hslash.symm, htab.symm]
    by_cases hb' : b = 10
    · subst hb'
      rw [leefEscape_newline]
      simp [hslash.symm, hline.symm]
    · rw [leefEscape_other hb hb']
      rfl

theorem unescapeLEEF_cons {b : UInt8} (h : ¬(b = 92 ∧ (s.head? = some 116 ∨ s.head? = some 110))) :
    unescapeLEEF (b :: s) = b :: unescapeLEEF s := by
  rw [unescapeLEEF]
  · rintro rest rfl rfl
    exact h ⟨rfl, .inl rfl⟩
  · rintro rest rfl rfl
    exact h ⟨rfl, .inr rfl⟩

/-- A value is restored exactly when it does not look escaped. -/
theorem unescapeLEEF_escape_iff (s : Bytes) : unescapeLEEF (leefEscape s) = s ↔ Unescaped s := by
  induction s with
  | nil => exact ⟨fun _ => by unfold Unescaped; decide, fun _ => rfl⟩
  | cons b s ih =>
    rw [unescaped_cons]
    by_cases htab : b = 9
    · subst htab
      rw [leefEscape_tab, unescapeLEEF, List.cons.injEq, ih]
      simp
    by_cases hline : b = 10
    · subst hline
      rw [leefEscape_newline, unescapeLEEF, List.cons.injEq, ih]
      simp
    rw [leefEscape_other htab hline]
    by_cases hescape : b = 92 ∧ (s.head? = some 116 ∨ s.head? = some 110)
    · refine iff_of_false ?_ fun h => h.1 hescape
      obtain ⟨rfl, hhead | hhead⟩ := hescape
      · obtain ⟨rest, hrest⟩ := List.head?_eq_some_iff.mp
          ((head_leefEscape (by decide) (by decide) (by decide) s).mpr hhead)
        rw [hrest, unescapeLEEF]
        exact nofun
      · obtain ⟨rest, hrest⟩ := List.head?_eq_some_iff.mp
          ((head_leefEscape (by decide) (by decide) (by decide) s).mpr hhead)
        rw [hrest, unescapeLEEF]
        exact nofun
    · have hkept : ¬(b = 92 ∧ ((leefEscape s).head? = some 116 ∨
          (leefEscape s).head? = some 110)) := by
        rwa [head_leefEscape (by decide) (by decide) (by decide),
          head_leefEscape (by decide) (by decide) (by decide)]
      rw [unescapeLEEF_cons hkept, List.cons.injEq, ih]
      simp [hescape]

theorem leefField_eq_some {f rest : Bytes} :
    leefField s = some (f, rest) ↔ s = f ++ 124 :: rest ∧ (124 : UInt8) ∉ f := by
  induction s generalizing f with
  | nil => simp [leefField]
  | cons b s ih =>
    rw [leefField]
    cases f with
    | nil =>
      split
      · next hbar => simp [hbar]
      · next hbar => simp [hbar]
    | cons c f =>
      split
      · next hbar =>
        subst hbar
        refine iff_of_false nofun fun h => ?_
        obtain rfl := (List.cons.inj h.1).1
        exact h.2 List.mem_cons_self
      · next hbar =>
        rw [Option.map_eq_some_iff]
        constructor
        · rintro ⟨⟨f', rest'⟩, hs, heq⟩
          obtain ⟨hf, rfl⟩ := Prod.mk.inj heq
          obtain ⟨rfl, rfl⟩ := List.cons.inj hf
          obtain ⟨hs, hf'⟩ := ih.mp hs
          exact ⟨congrArg (b :: ·) hs, List.not_mem_cons_of_ne_of_not_mem (Ne.symm hbar) hf'⟩
        · rintro ⟨hs, hf⟩
          obtain ⟨rfl, htail⟩ := List.cons.inj hs
          exact ⟨(f, rest), ih.mpr ⟨htail, (List.ne_and_not_mem_of_not_mem_cons hf).2⟩, rfl⟩

theorem readAttribute_pair {k : Bytes} (h : (61 : UInt8) ∉ k) (v : Bytes) :
    readAttribute (k ++ 61 :: v) = (k, unescapeLEEF v) := by
  have hall : ∀ b ∈ k, decide (b ≠ 61) = true := fun b hb => decide_eq_true fun heq => h (heq ▸ hb)
  rw [readAttribute, List.takeWhile_append_of_pos hall, List.dropWhile_append_of_pos hall]
  simp

/-- An attribute as it is written. -/
def attributeText (a : Bytes × Bytes) : Bytes := a.1 ++ 61 :: leefEscape a.2

theorem formatLEEF_eq (env : Envelope) :
    formatLEEF env = bytes "LEEF:2.0" ++ 124 :: (deviceVendor ++ 124 :: (deviceProduct ++ 124 ::
      (payloadStr env "schema_version" ++ 124 ::
        (leefEscape (payloadStr env "source_event_type") ++ 124 ::
          List.intercalate [9] ((leefLine env).extension.map attributeText))))) := by
  have htime : ∀ n, leefEscape (intText n) = intText n := fun n => by
    rw [leefEscape, replaceAll_of_not_mem _ (other_not_mem_intText (by decide) n),
      replaceAll_of_not_mem _ (other_not_mem_intText (by decide) n)]
  have hkeys : bytes "externalId=" = bytes "externalId" ++ [61] ∧
      bytes "devTime=" = bytes "devTime" ++ [61] ∧ bytes "outcome=" = bytes "outcome" ++ [61] ∧
      bytes "usrName=" = bytes "usrName" ++ [61] ∧ bytes "act=" = bytes "act" ++ [61] ∧
      bytes "tenantId=" = bytes "tenantId" ++ [61] ∧
      bytes "resourceUrn=" = bytes "resourceUrn" ++ [61] ∧
      bytes "sourceEventId=" = bytes "sourceEventId" ++ [61] ∧
      bytes "payloadDigest=" = bytes "payloadDigest" ++ [61] ∧
      bytes "traceId=" = bytes "traceId" ++ [61] := by decide
  have hbar : bytes "|" = [124] := rfl
  have htab : bytes "\t" = [9] := rfl
  unfold formatLEEF leefLine
  dsimp only
  rw [List.map_append, apply_ite (List.map attributeText)]
  simp only [List.map_cons, List.map_nil, attributeText, htime, hkeys, hbar, htab,
    List.append_assoc, List.singleton_append]
  simp [List.intercalate]

theorem tab_not_mem_leefEscape (s : Bytes) : (9 : UInt8) ∉ leefEscape s := by
  rw [leefEscape, mem_replaceAll_iff (by decide) (by decide)]
  exact not_mem_replaceAll_self (by decide) s

theorem bar_not_mem_unescapeLEEF (s : Bytes) :
    (124 : UInt8) ∈ unescapeLEEF s → (124 : UInt8) ∈ s := by
  fun_induction unescapeLEEF s with
  | case1 => exact id
  | case2 rest ih => simpa using ih
  | case3 rest ih => simpa using ih
  | case4 b rest _ _ ih =>
    intro h
    rcases List.mem_cons.mp h with rfl | h
    · exact List.mem_cons_self
    · exact List.mem_cons_of_mem b (ih h)

theorem readAttributes (env : Envelope) :
    ((List.intercalate [9] ((leefLine env).extension.map attributeText)).splitOn 9).map
        readAttribute =
      (leefLine env).extension.map fun a => (a.1, unescapeLEEF (leefEscape a.2)) := by
  have hkeys : ∀ a ∈ (leefLine env).extension, (61 : UInt8) ∉ a.1 ∧ (9 : UInt8) ∉ a.1 := by
    unfold leefLine
    dsimp only
    rw [List.forall_mem_append]
    split
    · simp +decide only [List.forall_mem_cons, and_true]
    · simp +decide only [List.forall_mem_cons, and_true]
  rw [List.splitOn_intercalate, List.map_map]
  · refine List.map_congr_left fun a ha => ?_
    exact readAttribute_pair (hkeys a ha).1 _
  · intro text htext
    obtain ⟨a, ha, rfl⟩ := List.mem_map.mp htext
    rw [attributeText, List.mem_append, List.mem_cons, not_or, not_or]
    exact ⟨(hkeys a ha).2, by decide, tab_not_mem_leefEscape a.2⟩
  · exact nofun

theorem readFields_succ {field : Bytes → Option (Bytes × Bytes)} {n : Nat} {first rest : Bytes}
    (h : field s = some (first, rest)) : readFields field (n + 1) s =
      (readFields field n rest).map (Prod.map (first :: ·) id) := by
  simp only [readFields, h, Option.bind_eq_bind, Option.bind_some]
  cases readFields field n rest with
  | none => rfl
  | some out => rfl

theorem readFields_formatLEEF (env : Envelope) : readFields leefField 5 (formatLEEF env) =
      (readFields leefField 2 (payloadStr env "schema_version" ++ 124 ::
          (leefEscape (payloadStr env "source_event_type") ++ 124 ::
            List.intercalate [9] ((leefLine env).extension.map attributeText)))).map
        (Prod.map ([bytes "LEEF:2.0", deviceVendor, deviceProduct] ++ ·) id) := by
  rw [formatLEEF_eq, readFields_succ (leefField_eq_some.mpr ⟨rfl, by decide⟩),
    readFields_succ (leefField_eq_some.mpr ⟨rfl, by decide⟩),
    readFields_succ (leefField_eq_some.mpr ⟨rfl, by decide⟩), Option.map_map, Option.map_map]
  rfl

theorem bar_not_mem_leefEscape (h : (124 : UInt8) ∉ s) : (124 : UInt8) ∉ leefEscape s := by
  rwa [leefEscape, mem_replaceAll_iff (by decide) (by decide),
    mem_replaceAll_iff (by decide) (by decide)]

/-- Without bars in the two fields only values that look escaped are not read back. -/
theorem readLEEF_of_no_bar {env : Envelope}
    (hversion : (124 : UInt8) ∉ payloadStr env "schema_version")
    (htype : (124 : UInt8) ∉ payloadStr env "source_event_type") : readLEEF (formatLEEF env) = some
      { header := [bytes "LEEF:2.0", deviceVendor, deviceProduct, payloadStr env "schema_version",
          unescapeLEEF (leefEscape (payloadStr env "source_event_type"))]
        extension :=
          (leefLine env).extension.map fun a => (a.1, unescapeLEEF (leefEscape a.2)) } := by
  rw [readLEEF, readFields_formatLEEF,
    readFields_succ (leefField_eq_some.mpr ⟨rfl, hversion⟩),
    readFields_succ (leefField_eq_some.mpr ⟨rfl, bar_not_mem_leefEscape htype⟩), readFields,
    ← readAttributes]
  rfl

theorem no_bar_of_readLEEF {env : Envelope} (h : readLEEF (formatLEEF env) = some (leefLine env)) :
    (124 : UInt8) ∉ payloadStr env "schema_version" ∧
      (124 : UInt8) ∉ payloadStr env "source_event_type" := by
  rw [readLEEF, readFields_formatLEEF] at h
  generalize payloadStr env "schema_version" ++ 124 :: _ = s at h
  cases hversion : leefField s with
  | none =>
    rw [readFields, hversion] at h
    cases h
  | some out =>
    obtain ⟨version, s'⟩ := out
    rw [readFields_succ hversion] at h
    cases htype : leefField s' with
    | none =>
      rw [readFields, htype] at h
      cases h
    | some out =>
      obtain ⟨eventID, ext⟩ := out
      rw [readFields_succ htype] at h
      have hheader := congrArg Line.header (Option.some.inj h)
      have hversions : version = payloadStr env "schema_version" := by
        exact (List.cons.inj (List.cons.inj (List.cons.inj (List.cons.inj hheader).2).2).2).1
      have htypes : unescapeLEEF eventID = payloadStr env "source_event_type" := by
        exact (List.cons.inj (List.cons.inj (List.cons.inj (List.cons.inj
          (List.cons.inj hheader).2).2).2).2).1
      rw [← hversions, ← htypes]
      exact ⟨(leefField_eq_some.mp hversion).2, fun hbar =>
        (leefField_eq_some.mp htype).2 (bar_not_mem_unescapeLEEF eventID hbar)⟩

theorem unescaped_of_not_mem (h : (92 : UInt8) ∉ s) : Unescaped s :=
  ⟨fun hpart => h (hpart.subset (by decide)), fun hpart => h (hpart.subset (by decide))⟩

theorem forall_unescaped_iff (env : Envelope) :
    (∀ a ∈ (leefLine env).extension, Unescaped a.2) ↔ ∀ v ∈ values env, Unescaped v := by
  have huuid : ∀ u : Uuid, Unescaped u.text := fun u =>
    unescaped_of_not_mem (u.not_mem_text (by decide) (by decide))
  have htime : ∀ n, Unescaped (intText n) := fun n =>
    unescaped_of_not_mem (other_not_mem_intText (by decide) n)
  have hnil : Unescaped [] := unescaped_of_not_mem List.not_mem_nil
  unfold leefLine values
  dsimp only
  rw [List.forall_mem_append]
  by_cases htrace : env.traceID = []
  · simp only [htrace, ne_eq, not_true_eq_false, if_false, List.forall_mem_cons, List.not_mem_nil,
      huuid, htime, hnil, true_and, and_true, false_implies, implies_true]
  · simp only [htrace, ne_eq, not_false_eq_true, if_true, List.forall_mem_cons, List.not_mem_nil,
      huuid, htime, true_and, and_true, false_implies, implies_true, and_assoc]

theorem readLEEF_formatLEEF_iff (env : Envelope) : readLEEF (formatLEEF env) = some (leefLine env) ↔
      (124 : UInt8) ∉ payloadStr env "schema_version" ∧
        ((124 : UInt8) ∉ payloadStr env "source_event_type" ∧
          Unescaped (payloadStr env "source_event_type")) ∧
        ∀ v ∈ values env, Unescaped v := by
  have hline : (124 : UInt8) ∉ payloadStr env "schema_version" →
      (124 : UInt8) ∉ payloadStr env "source_event_type" →
      (readLEEF (formatLEEF env) = some (leefLine env) ↔
        Unescaped (payloadStr env "source_event_type") ∧ ∀ v ∈ values env, Unescaped v) := by
    intro hversion htype
    rw [readLEEF_of_no_bar hversion htype, ← forall_unescaped_iff, ← unescapeLEEF_escape_iff,
      Option.some.injEq]
    constructor
    · intro h
      have hheader := congrArg Line.header h
      refine ⟨(List.cons.inj (List.cons.inj (List.cons.inj (List.cons.inj
        (List.cons.inj hheader).2).2).2).2).1, fun a ha => ?_⟩
      have hextension := List.map_eq_map_iff.mp
        ((congrArg Line.extension h).trans (List.map_id _).symm) a ha
      exact (unescapeLEEF_escape_iff a.2).mp (congrArg Prod.snd hextension)
    · rintro ⟨htype, hvalues⟩
      have hextension : ((leefLine env).extension.map fun a =>
          (a.1, unescapeLEEF (leefEscape a.2))) = (leefLine env).extension := by
        refine (List.map_congr_left fun a ha => ?_).trans (List.map_id _)
        exact Prod.ext rfl ((unescapeLEEF_escape_iff a.2).mpr (hvalues a ha))
      rw [htype, hextension]
      rfl
  constructor
  · intro h
    obtain ⟨hversion, htype⟩ := no_bar_of_readLEEF h
    obtain ⟨hescaped, hvalues⟩ := (hline hversion htype).mp h
    exact ⟨hversion, ⟨htype, hescaped⟩, hvalues⟩
  · rintro ⟨hversion, ⟨htype, hescaped⟩, hvalues⟩
    exact (hline hversion htype).mpr ⟨hescaped, hvalues⟩

/-- **The line formats are unambiguous** exactly for the plain envelopes. -/
theorem unambiguous_iff (env : Envelope) : Unambiguous env ↔ Plain env := by
  rw [Unambiguous, singleLine_formatCEF, singleLine_formatLEEF, readLEEF_formatLEEF_iff]
  constructor
  · rintro ⟨⟨⟨hversion, haction, htype, hreturn⟩, -⟩, -, hbar, ⟨htypeBar, hescaped⟩, hvalues⟩
    exact ⟨fun v hv => ⟨hreturn v hv, hvalues v hv⟩, haction.1, ⟨htype, htypeBar, hescaped⟩,
      ⟨hversion, hbar⟩⟩
  · intro h
    have hreturn : ∀ v ∈ values env, (13 : UInt8) ∉ v := fun v hv => (h.values v hv).1
    have haction : payloadStr env "action" ∈ values env := by simp [values]
    exact ⟨⟨⟨h.schemaVersion.1, ⟨h.action, hreturn _ haction⟩, h.sourceEventType.1, hreturn⟩,
        readCEF_formatCEF env⟩,
      ⟨h.schemaVersion.1, h.sourceEventType.1.2, hreturn⟩, h.schemaVersion.2,
      h.sourceEventType.2, fun v hv => (h.values v hv).2⟩

/-- An event with the given outcome. -/
def sampleEnvelope (outcome : String) : Envelope :=
  { eventID := Uuid.ofByte 1
    tenantID := Uuid.ofByte 2
    actorID := bytes "u-123"
    resourceURN := bytes "wr:tenant:case:case/c-1"
    occurredAt := Time.ofSec 63919195200
    traceID := bytes "trace-abc"
    payload := [("schema_version", .str (bytes "1.0")), ("action", .str (bytes "case.assign")),
      ("source_event_type", .str (bytes "case.assigned")), ("outcome", .str (bytes outcome))] }

/-- A carriage return is written as it is, and a backslash before a `t` is read as a tab. -/
theorem formats_ambiguous :
    ¬ Unambiguous (sampleEnvelope "a\rb") ∧ ¬ Unambiguous (sampleEnvelope "a\\tb") := by
  constructor
  · intro h
    exact absurd h.1.1 (by decide)
  · intro h
    exact absurd h.2.2 (by decide)

end Windrose.Audit.Siem

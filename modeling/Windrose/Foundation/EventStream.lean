/-
  Foundation/EventStream.lean --- what a client reads from an event stream.

  A stream is read line by line.  A line ends at a CR, at an LF or at the pair of them, and
  what follows the last end is no line yet.  A line is a field, whose name stands before the
  first colon; a blank line dispatches what the fields before it have set.
-/
import Windrose.Foundation.Lines

set_option autoImplicit false

namespace Windrose.Foundation.EventStream

/-! ## Lines -/

/-- The lines of a text of which `line` was read; `cr` when the byte before it was a CR,
which takes an LF with it. -/
def linesFrom (cr : Bool) (line : Bytes) : Bytes → List Bytes
  | [] => []
  | c :: t =>
    if c = 10 then if cr then linesFrom false [] t else line :: linesFrom false [] t
    else if c = 13 then line :: linesFrom true [] t
    else linesFrom false (line ++ [c]) t

def lines (t : Bytes) : List Bytes := linesFrom false [] t

/-- No end of a line is in the text. -/
def Unbroken (t : Bytes) : Prop := 10 ∉ t ∧ 13 ∉ t

instance (t : Bytes) : Decidable (Unbroken t) := inferInstanceAs (Decidable (_ ∧ _))

theorem unbroken_nil : Unbroken [] := ⟨List.not_mem_nil, List.not_mem_nil⟩

variable {t l : Bytes}

@[simp] theorem unbroken_append {s : Bytes} : Unbroken (s ++ t) ↔ Unbroken s ∧ Unbroken t := by
  simp only [Unbroken, List.mem_append, not_or]
  tauto

theorem Unbroken.sublist {s : Bytes} (ht : Unbroken t) (hs : s.Sublist t) : Unbroken s :=
  ⟨fun h => ht.1 (hs.subset h), fun h => ht.2 (hs.subset h)⟩

theorem linesFrom_line (hl : Unbroken l) (line t : Bytes) :
    linesFrom false line (l ++ 10 :: t) = (line ++ l) :: lines t := by
  induction l generalizing line with
  | nil =>
    rw [List.nil_append, linesFrom, if_pos rfl, if_neg Bool.false_ne_true, List.append_nil]
    rfl
  | cons c l ih =>
    obtain ⟨h10, hl10⟩ := List.ne_and_not_mem_of_not_mem_cons hl.1
    obtain ⟨h13, hl13⟩ := List.ne_and_not_mem_of_not_mem_cons hl.2
    rw [List.cons_append, linesFrom, if_neg h10.symm, if_neg h13.symm, ih ⟨hl10, hl13⟩,
      List.append_assoc, List.singleton_append]

theorem lines_joinLines {ls : List Bytes} (hls : ∀ l ∈ ls, Unbroken l) (t : Bytes) :
    lines (joinLines ls ++ t) = ls ++ lines t := by
  induction ls with
  | nil => rfl
  | cons l ls ih =>
    rw [List.forall_mem_cons] at hls
    have hcons : joinLines (l :: ls) ++ t = l ++ 10 :: (joinLines ls ++ t) := by simp [joinLines]
    rw [hcons, lines, linesFrom_line hls.1, List.nil_append, ih hls.2, List.cons_append]

theorem unbroken_of_mem_linesFrom {cr : Bool} {line : Bytes} (hline : Unbroken line)
    (hl : l ∈ linesFrom cr line t) : Unbroken l := by
  induction t generalizing cr line with
  | nil => exact absurd hl List.not_mem_nil
  | cons c t ih =>
    rw [linesFrom] at hl
    split_ifs at hl with h10 hcr h13
    · exact ih unbroken_nil hl
    · obtain rfl | hl := List.mem_cons.mp hl
      · exact hline
      · exact ih unbroken_nil hl
    · obtain rfl | hl := List.mem_cons.mp hl
      · exact hline
      · exact ih unbroken_nil hl
    · refine ih ?_ hl
      rw [unbroken_append]
      exact ⟨hline, by simpa using Ne.symm h10, by simpa using Ne.symm h13⟩

theorem unbroken_of_mem_lines (hl : l ∈ lines t) : Unbroken l :=
  unbroken_of_mem_linesFrom unbroken_nil hl

/-! ## Fields -/

/-- The line of a field. -/
def fieldLine (name value : Bytes) : Bytes := name ++ 58 :: 32 :: value

def fieldName (line : Bytes) : Bytes := line.takeWhile (· ≠ 58)

/-- What stands behind the colon, less one space. -/
def fieldValue (line : Bytes) : Bytes :=
  let value := (line.dropWhile (· ≠ 58)).tail
  if value.head? = some 32 then value.tail else value

section

variable {name : Bytes} (hname : 58 ∉ name)

include hname in
theorem fieldName_fieldLine (value : Bytes) : fieldName (fieldLine name value) = name := by
  have hall : ∀ c ∈ name, decide (c ≠ 58) = true :=
    fun c hc => decide_eq_true fun h => hname (h ▸ hc)
  rw [fieldName, fieldLine, List.takeWhile_append_of_pos hall, List.takeWhile_cons_of_neg (by simp),
    List.append_nil]

include hname in
theorem fieldValue_fieldLine (value : Bytes) : fieldValue (fieldLine name value) = value := by
  have hall : ∀ c ∈ name, decide (c ≠ 58) = true :=
    fun c hc => decide_eq_true fun h => hname (h ▸ hc)
  have hdrop : (fieldLine name value).dropWhile (· ≠ 58) = 58 :: 32 :: value := by
    rw [fieldLine, List.dropWhile_append_of_pos hall, List.dropWhile_cons_of_neg (by simp)]
  rw [fieldValue, hdrop]
  rfl

end

theorem unbroken_fieldLine {name value : Bytes} (hname : Unbroken name) :
    Unbroken (fieldLine name value) ↔ Unbroken value := by
  have hcons : fieldLine name value = name ++ ([58, 32] ++ value) := rfl
  rw [hcons, unbroken_append, unbroken_append]
  exact ⟨fun h => h.2.2, fun h => ⟨hname, by decide, h⟩⟩

theorem fieldValue_sublist (line : Bytes) : (fieldValue line).Sublist line := by
  have htail : ((line.dropWhile (· ≠ 58)).tail).Sublist line :=
    (List.tail_sublist _).trans (List.dropWhile_sublist _)
  rw [fieldValue]
  split
  · exact (List.tail_sublist _).trans htail
  · exact htail

/-! ## The client -/

/-- A message that a client dispatches. -/
structure Message where
  id : Bytes
  event : Bytes
  data : Bytes
  deriving DecidableEq

/-- What a client holds between two lines. -/
structure Client where
  lastID : Bytes := []
  event : Bytes := []
  data : Bytes := []

namespace Client

/-- A field of another name changes nothing, and so does a comment, whose name is empty.  The
name `retry` sets a time, which no message shows. -/
def setField (c : Client) (name value : Bytes) : Client :=
  if name = bytes "event" then { c with event := value }
  else if name = bytes "data" then { c with data := c.data ++ value ++ [10] }
  else if name = bytes "id" ∧ 0 ∉ value then { c with lastID := value }
  else c

def dispatch (c : Client) : Client × Option Message :=
  let next : Client := { c with event := [], data := [] }
  if c.data = [] then (next, none)
  else
    (next, some ⟨c.lastID, if c.event = [] then bytes "message" else c.event, c.data.dropLast⟩)

def line (c : Client) (l : Bytes) : Client × Option Message :=
  if l = [] then c.dispatch else (c.setField (fieldName l) (fieldValue l), none)

/-- The client after some lines. -/
def after (c : Client) (ls : List Bytes) : Client := ls.foldl (fun c l => (c.line l).1) c

/-- The messages of some lines. -/
def messages (c : Client) : List Bytes → List Message
  | [] => []
  | l :: ls => (c.line l).2.toList ++ (c.line l).1.messages ls

theorem after_append (c : Client) (ls ls' : List Bytes) :
    c.after (ls ++ ls') = (c.after ls).after ls' := List.foldl_append

theorem messages_append (c : Client) (ls ls' : List Bytes) :
    c.messages (ls ++ ls') = c.messages ls ++ (c.after ls).messages ls' := by
  induction ls generalizing c with
  | nil => rfl
  | cons l ls ih =>
    rw [List.cons_append, messages, ih, messages, List.append_assoc]
    rfl

theorem line_fieldLine (c : Client) {name : Bytes} (hname : 58 ∉ name) (value : Bytes) :
    c.line (fieldLine name value) = (c.setField name value, none) := by
  rw [line, if_neg (by simp [fieldLine]), fieldName_fieldLine hname, fieldValue_fieldLine hname]

/-- A client whose id and name have no end of a line, and whose id has no NUL. -/
structure Unbroken (c : Client) : Prop where
  lastID : EventStream.Unbroken c.lastID
  nul : 0 ∉ c.lastID
  event : EventStream.Unbroken c.event

theorem unbroken_fresh : ({} : Client).Unbroken := ⟨unbroken_nil, List.not_mem_nil, unbroken_nil⟩

theorem Unbroken.line {c : Client} (hc : c.Unbroken)
    (hl : EventStream.Unbroken l) : (c.line l).1.Unbroken := by
  have hvalue : EventStream.Unbroken (fieldValue l) := hl.sublist (fieldValue_sublist l)
  rw [Client.line]
  split
  · rw [dispatch]
    split <;> exact ⟨hc.lastID, hc.nul, unbroken_nil⟩
  · rw [setField]
    split_ifs with _ _ hid
    · exact ⟨hc.lastID, hc.nul, hvalue⟩
    · exact ⟨hc.lastID, hc.nul, hc.event⟩
    · exact ⟨hvalue, hid.2, hc.event⟩
    · exact hc

theorem Unbroken.message {c : Client} (hc : c.Unbroken) {m : Message} (hm : m ∈ (c.line l).2) :
    EventStream.Unbroken m.id ∧ 0 ∉ m.id ∧ EventStream.Unbroken m.event := by
  rw [Client.line] at hm
  split at hm
  · rw [dispatch] at hm
    split at hm
    · exact absurd hm (Option.not_mem_none m)
    · obtain rfl := Option.mem_some_iff.mp hm
      refine ⟨hc.lastID, hc.nul, ?_⟩
      dsimp only
      split
      · decide
      · exact hc.event
  · exact absurd hm (Option.not_mem_none m)

theorem messages_unbroken {c : Client} (hc : c.Unbroken) {ls : List Bytes}
    (hls : ∀ l ∈ ls, EventStream.Unbroken l) {m : Message} (hm : m ∈ c.messages ls) :
    EventStream.Unbroken m.id ∧ 0 ∉ m.id ∧ EventStream.Unbroken m.event := by
  induction ls generalizing c with
  | nil => exact absurd hm List.not_mem_nil
  | cons l ls ih =>
    rw [List.forall_mem_cons] at hls
    rw [messages, List.mem_append, Option.mem_toList] at hm
    obtain hm | hm := hm
    · exact hc.message hm
    · exact ih (hc.line hls.1) hls.2 hm

end Client

/-- What a client reads from a stream. -/
def read (t : Bytes) : List Message := ({} : Client).messages (lines t)

theorem read_unbroken {m : Message} (hm : m ∈ read t) :
    Unbroken m.id ∧ 0 ∉ m.id ∧ Unbroken m.event :=
  Client.messages_unbroken Client.unbroken_fresh (fun _ hl => unbroken_of_mem_lines hl) hm

end Windrose.Foundation.EventStream

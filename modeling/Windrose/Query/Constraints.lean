/-
  Query/Constraints.lean --- when the bound values meet their declarations.

  The checks of `coerce` do not look at the elements of a list, compare an integer with its
  bounds as a `float64`, and take two numbers for the same when their `float64`s are.  The
  rest of a declaration is enforced.  So what is bound conforms exactly if these three do
  not matter for the values supplied (`conforms_iff`).
-/
import Windrose.Foundation.Lexer
import Windrose.Query.Variables

set_option autoImplicit false

namespace Windrose.Query.Variables

open Windrose.Foundation

/-! ## What a declaration asks for -/

/-- The integers of a bound value, scalar or elements. -/
def BoundValue.ints (bv : BoundValue) : List Int :=
  (bv.value.toList ++ bv.list).filterMap fun
    | .int n => some n
    | _ => none

/-- An integer between the bounds, as numbers. -/
def InRange (d : VariableDecl) (n : Int) : Prop :=
  (∀ m ∈ d.min, m.units ≤ n * magOne) ∧ ∀ m ∈ d.max, n * magOne ≤ m.units

/-- The decimal of a text: its sign, digits and exponent. -/
def decimalOf (s : String) : Int × Decimal :=
  let t := (bytes s).map fun c => if c = 69 then 101 else c
  (if (readSign t).1 then -1 else 1, readUnsigned (readSign t).2)

/-- Two texts of the same decimal number. -/
def SameDecimal (s t : String) : Prop :=
  (decimalOf s).1 * ((decimalOf s).2.num * (decimalOf t).2.den : Nat) =
    (decimalOf t).1 * ((decimalOf t).2.num * (decimalOf s).2.den : Nat)

/-- Two values that are exactly equal; decimals are equal as numbers. -/
def SameValue (type : VariableType) (bv bv' : BoundValue) : Prop :=
  match type with
  | .decimal => ∃ s t, bv.value = some (.text s) ∧ bv'.value = some (.text t) ∧ SameDecimal s t
  | _ => bv.value = bv'.value ∧ bv.list = bv'.list

variable (p : Parsers)

/-- A value exactly equal to one of the allowed ones. -/
def IsAllowed (d : VariableDecl) (bv : BoundValue) : Prop :=
  ∃ av ∈ d.allowedValues, ∃ bv', coerce p d av = .ok bv' ∧ SameValue d.type bv bv'

/-- The bindings meet the declarations. -/
structure Conforms (decls : List VariableDecl) (bound : Dict String BoundValue) : Prop where
  inRange : ∀ d ∈ decls, ∀ bv, bound.lookup d.name = some bv → ∀ n ∈ bv.ints, InRange d n
  allowed : ∀ d ∈ decls, ∀ bv, bound.lookup d.name = some bv → d.allowedValues ≠ [] →
    IsAllowed p d bv
  required : ∀ d ∈ decls, d.isRequired = true → (bound.lookup d.name).isSome
  declared : ∀ name ∈ bound.keys, ∃ d ∈ decls, d.name = name

/-! ## What the checks see -/

/-- Rounding to a `float64` does not carry the integer over a bound. -/
def RoundsInside (d : VariableDecl) (n : Int) : Prop :=
  ∃ x, Double.ofInt n = some x ∧ (∀ m ∈ d.min, m.units ≤ x.units → m.units ≤ n * magOne) ∧
    ∀ m ∈ d.max, x.units ≤ m.units → n * magOne ≤ m.units

/-- A value with the canonical JSON of an allowed value is itself allowed. -/
def ComparesExactly (d : VariableDecl) (raw : Raw) (bv : BoundValue) : Prop :=
  (∃ av ∈ d.allowedValues, canonicalJSON av = canonicalJSON raw) → IsAllowed p d bv

/-- The checks of `coerce` decide for the value supplied what the declaration asks for. -/
def Enforced (d : VariableDecl) (raw : Raw) : Prop :=
  ∀ v ∈ raw.value, ∀ bv, coerceType p d v = .ok bv →
    match d.type with
    | .integer => (∀ n ∈ bv.ints, RoundsInside d n) ∧ ComparesExactly p d raw bv
    | .decimal => ComparesExactly p d raw bv
    | .stringList | .integerList =>
      (∀ n ∈ bv.ints, InRange d n) ∧ (d.allowedValues ≠ [] → IsAllowed p d bv)
    | _ => True

/-! ## Canonical JSON -/

theorem canonicalJSON_str {raw : Raw} {s : String} (h : raw.value = some (.str s)) :
    canonicalJSON raw = quote (bytes s) := by
  rw [canonicalJSON, h]
  rfl

theorem canonicalJSON_bool {raw : Raw} {b : Bool} (h : raw.value = some (.bool b)) :
    canonicalJSON raw = (Json.bool b).encode := by
  rw [canonicalJSON, h]
  rfl

theorem str_of_canonicalJSON {raw raw' : Raw} {s t : String} (h : raw.value = some (.str s))
    (h' : raw'.value = some (.str t)) (heq : canonicalJSON raw = canonicalJSON raw') : s = t := by
  rw [canonicalJSON_str h, canonicalJSON_str h'] at heq
  have happend := congrArg (· ++ []) heq
  exact bytes_injective (quote_append_inj happend).1

theorem bool_of_canonicalJSON {raw raw' : Raw} {b c : Bool} (h : raw.value = some (.bool b))
    (h' : raw'.value = some (.bool c)) (heq : canonicalJSON raw = canonicalJSON raw') : b = c := by
  rw [canonicalJSON_bool h, canonicalJSON_bool h'] at heq
  cases b <;> cases c
  · rfl
  · exact absurd (List.cons.inj heq).1 (by decide)
  · exact absurd (List.cons.inj heq).1 (by decide)
  · rfl

/-! ## Coercion -/

theorem coerce_ok {d : VariableDecl} {raw : Raw} {bv : BoundValue} (h : coerce p d raw = .ok bv) :
    ∃ v, raw.value = some v ∧ coerceType p d v = .ok bv ∧ checkAllowed d raw bv = .ok () ∧
      checkRange p d bv = .ok () := by
  obtain ⟨v, hv, h⟩ := bind_eq_ok.mp h
  obtain ⟨bv', hbv, h⟩ := bind_eq_ok.mp h
  obtain ⟨_, hallowed, h⟩ := bind_eq_ok.mp h
  obtain ⟨_, hrange, h⟩ := bind_eq_ok.mp h
  obtain rfl := Except.ok.inj h
  refine ⟨v, ?_, hbv, hallowed, hrange⟩
  cases hraw : raw.value with
  | none =>
    rw [hraw] at hv
    cases hv
  | some w =>
    rw [hraw] at hv
    rw [Except.ok.inj hv]

theorem checkAllowed_ok {d : VariableDecl} {raw : Raw} {bv : BoundValue}
    (h : checkAllowed d raw bv = .ok ()) (hlist : bv.isList = false) (hne : d.allowedValues ≠ []) :
    ∃ av ∈ d.allowedValues, canonicalJSON av = canonicalJSON raw := by
  unfold checkAllowed at h
  split at h
  · cases h
  · next hnot =>
    have hany : d.allowedValues.any (fun av => canonicalJSON av = canonicalJSON raw) = true := by
      by_contra hno
      exact hnot ⟨hne, by rw [hlist]; decide, hno⟩
    obtain ⟨av, hav, heq⟩ := List.any_eq_true.mp hany
    exact ⟨av, hav, of_decide_eq_true heq⟩

variable {n : Int} {decls : List VariableDecl} {bound : Dict String BoundValue}

theorem checkRange_ok {d : VariableDecl} {bv : BoundValue} {x : Double}
    (h : checkRange p d bv = .ok ()) (hbv : bv.value = some (.int n))
    (hx : Double.ofInt n = some x) :
    (∀ m ∈ d.min, m.units ≤ x.units) ∧ ∀ m ∈ d.max, x.units ≤ m.units := by
  have hnum : numericOf p bv.value = some (.finite x) := by
    rw [hbv, numericOf, hx]
    rfl
  unfold checkRange at h
  rw [hnum] at h
  simp only at h
  cases hmin : d.min.filter fun m => (Float64.finite x).lt (.finite m) with
  | some m =>
    rw [hmin] at h
    cases h
  | none =>
    rw [hmin] at h
    cases hmax : d.max.filter fun m => Float64.lt (.finite m) (.finite x) with
    | some m =>
      rw [hmax] at h
      cases h
    | none =>
      rw [Option.filter_eq_none_iff] at hmin hmax
      refine ⟨fun m hm => ?_, fun m hm => ?_⟩
      · exact Int.not_lt.mp fun hlt => hmin m hm (decide_eq_true hlt)
      · exact Int.not_lt.mp fun hlt => hmax m hm (decide_eq_true hlt)

theorem parseInt64_bounds {t : Bytes} (h : parseInt64 t = some n) : n.natAbs ≤ 2 ^ 63 := by
  unfold parseInt64 at h
  simp only at h
  generalize (if t.head? = some 45 ∨ t.head? = some 43 then t.tail else t) = digits at h
  generalize (if t.head? = some 45 then -(decVal digits : Int) else decVal digits) = m at h
  split at h
  · cases h
  · split at h
    · next hb =>
      obtain rfl := Option.some.inj h
      omega
    · cases h

theorem asInt64_ok {v : JsonText} (h : asInt64 v = .ok n) :
    (∃ t, v = .num t) ∧ n.natAbs ≤ 2 ^ 63 := by
  cases v with
  | num t =>
    rw [asInt64] at h
    split at h
    · next m hm =>
      obtain rfl := Except.ok.inj h
      exact ⟨⟨t, rfl⟩, parseInt64_bounds hm⟩
    · cases h
  | null | bool _ | str _ | arr _ | obj _ => cases h

variable {p} {d : VariableDecl} {raw : Raw} {v : JsonText} {bv : BoundValue}

theorem coerceType_integer (hd : d.type = .integer) (h : coerceType p d v = .ok bv) :
    ∃ n, asInt64 v = .ok n ∧ bv = ⟨d.name, d.type, false, some (.int n), [], .num n⟩ := by
  simp only [coerceType, hd] at h
  cases hn : asInt64 v with
  | error e =>
    rw [hn] at h
    cases h
  | ok n =>
    rw [hn] at h
    refine ⟨n, rfl, ?_⟩
    rw [hd]
    exact (Except.ok.inj h).symm

theorem coerceType_plain (hd : d.type = .string ∨ d.type = .boolean ∨ d.type = .date ∨
      d.type = .timestamp) (h : coerceType p d v = .ok bv) :
    ((∃ s, v = .str s) ∧ d.type ≠ .boolean ∨ (∃ b, v = .bool b) ∧ d.type = .boolean) ∧
      bv.isList = false ∧ bv.ints = [] := by
  rcases hd with hd | hd | hd | hd
  · cases v with
    | str s =>
      simp only [coerceType, hd] at h
      obtain rfl := Except.ok.inj h
      exact ⟨.inl ⟨⟨s, rfl⟩, by rw [hd]; decide⟩, rfl, rfl⟩
    | null | bool _ | num _ | arr _ | obj _ => simp [coerceType, hd] at h
  · cases v with
    | bool b =>
      simp only [coerceType, hd] at h
      obtain rfl := Except.ok.inj h
      exact ⟨.inr ⟨⟨b, rfl⟩, hd⟩, rfl, rfl⟩
    | null | str _ | num _ | arr _ | obj _ => simp [coerceType, hd] at h
  · cases v with
    | str s =>
      simp only [coerceType, hd] at h
      split at h
      · split at h
        · obtain rfl := Except.ok.inj h
          exact ⟨.inl ⟨⟨s, rfl⟩, by rw [hd]; decide⟩, rfl, rfl⟩
        · cases h
      · cases h
    | null | bool _ | num _ | arr _ | obj _ => simp [coerceType, hd] at h
  · cases v with
    | str s =>
      simp only [coerceType, hd] at h
      split at h
      · obtain rfl := Except.ok.inj h
        exact ⟨.inl ⟨⟨s, rfl⟩, by rw [hd]; decide⟩, rfl, rfl⟩
      · cases h
    | null | bool _ | num _ | arr _ | obj _ => simp [coerceType, hd] at h

theorem coerceType_decimal (hd : d.type = .decimal) (h : coerceType p d v = .ok bv) :
    bv.isList = false ∧ bv.ints = [] := by
  cases v with
  | num t =>
    simp only [coerceType, hd] at h
    obtain rfl := Except.ok.inj h
    exact ⟨rfl, rfl⟩
  | str t =>
    simp only [coerceType, hd] at h
    split at h
    · obtain rfl := Except.ok.inj h
      exact ⟨rfl, rfl⟩
    · cases h
  | null | bool _ | arr _ | obj _ => simp [coerceType, hd] at h

/-! ## One declaration -/

/-- What `coerce` passes meets the bounds and the allowed values of its declaration. -/
def Meets (p : Parsers) (d : VariableDecl) (bv : BoundValue) : Prop :=
  (∀ n ∈ bv.ints, InRange d n) ∧ (d.allowedValues ≠ [] → IsAllowed p d bv)

theorem comparesExactly_iff (h : checkAllowed d raw bv = .ok ()) (hlist : bv.isList = false) :
    (d.allowedValues ≠ [] → IsAllowed p d bv) ↔ ComparesExactly p d raw bv := by
  refine ⟨fun hmeets ⟨av, hav, _⟩ => hmeets (List.ne_nil_of_mem hav), fun hexact hne => ?_⟩
  exact hexact (checkAllowed_ok h hlist hne)

theorem roundsInside_iff (h : checkRange p d bv = .ok ())
    (hbv : bv.value = some (.int n)) (hn : n.natAbs ≤ 2 ^ 63) : InRange d n ↔ RoundsInside d n := by
  obtain ⟨x, hx⟩ := Double.exists_ofInt hn
  obtain ⟨hmin, hmax⟩ := checkRange_ok p h hbv hx
  refine ⟨fun hin => ⟨x, hx, fun m hm _ => hin.1 m hm, fun m hm _ => hin.2 m hm⟩, ?_⟩
  rintro ⟨y, hy, hmin', hmax'⟩
  obtain rfl := Option.some.inj (hx.symm.trans hy)
  exact ⟨fun m hm => hmin' m hm (hmin m hm), fun m hm => hmax' m hm (hmax m hm)⟩

theorem meets_of_plain (hd : d.type = .string ∨ d.type = .boolean ∨ d.type = .date ∨
      d.type = .timestamp) (hallowed : ∀ av ∈ d.allowedValues, ∃ bv', coerce p d av = .ok bv')
    (h : coerce p d raw = .ok bv) : Meets p d bv := by
  obtain ⟨v, hv, hbv, hcheck, -⟩ := coerce_ok p h
  obtain ⟨hplain, hlist, hints⟩ := coerceType_plain hd hbv
  refine ⟨fun n hn => ?_, fun hne => ?_⟩
  · rw [hints] at hn
    cases hn
  · obtain ⟨av, hav, heq⟩ := checkAllowed_ok hcheck hlist hne
    obtain ⟨bv', hbv'⟩ := hallowed av hav
    obtain ⟨w, hw, htype, -, -⟩ := coerce_ok p hbv'
    have hvw : w = v := by
      rcases hplain with ⟨⟨s, rfl⟩, hbool⟩ | ⟨⟨b, rfl⟩, hbool⟩
      · rcases (coerceType_plain hd htype).1 with ⟨⟨t, rfl⟩, -⟩ | ⟨-, hbool'⟩
        · rw [str_of_canonicalJSON hw hv heq]
        · exact absurd hbool' hbool
      · rcases (coerceType_plain hd htype).1 with ⟨-, hbool'⟩ | ⟨⟨c, rfl⟩, -⟩
        · exact absurd hbool hbool'
        · rw [bool_of_canonicalJSON hw hv heq]
    rw [hvw, hbv] at htype
    refine ⟨av, hav, bv', hbv', ?_⟩
    rw [← Except.ok.inj htype]
    unfold SameValue
    split
    · next hdec => rcases hd with hd | hd | hd | hd <;> rw [hd] at hdec <;> cases hdec
    · exact ⟨rfl, rfl⟩

theorem enforced_of (hv : raw.value = some v) (hbv : coerceType p d v = .ok bv) : Enforced p d raw ↔
      match d.type with
      | .integer => (∀ n ∈ bv.ints, RoundsInside d n) ∧ ComparesExactly p d raw bv
      | .decimal => ComparesExactly p d raw bv
      | .stringList | .integerList =>
        (∀ n ∈ bv.ints, InRange d n) ∧ (d.allowedValues ≠ [] → IsAllowed p d bv)
      | _ => True := by
  refine ⟨fun h => h v hv bv hbv, fun h w hw bv' hbv' => ?_⟩
  obtain rfl := Option.some.inj (hv.symm.trans hw)
  obtain rfl := Except.ok.inj (hbv.symm.trans hbv')
  exact h

theorem meets_iff (hallowed : ∀ av ∈ d.allowedValues, ∃ bv', coerce p d av = .ok bv')
    (h : coerce p d raw = .ok bv) : Meets p d bv ↔ Enforced p d raw := by
  obtain ⟨v, hv, hbv, hcheck, hrange⟩ := coerce_ok p h
  rw [enforced_of hv hbv]
  cases hd : d.type with
  | integer =>
    obtain ⟨n, hn, rfl⟩ := coerceType_integer hd hbv
    have hone : ∀ P : Int → Prop, (∀ m ∈ BoundValue.ints
        ⟨d.name, d.type, false, some (.int n), [], .num n⟩, P m) ↔ P n := fun P =>
      ⟨fun hP => hP n (List.mem_singleton_self n), fun hP m hm => List.mem_singleton.mp hm ▸ hP⟩
    simp only [Meets, hone]
    rw [roundsInside_iff hrange rfl (asInt64_ok hn).2, comparesExactly_iff hcheck rfl]
  | decimal =>
    obtain ⟨hlist, hints⟩ := coerceType_decimal hd hbv
    simp only [Meets, hints, comparesExactly_iff (p := p) hcheck hlist]
    exact and_iff_right nofun
  | stringList => exact Iff.rfl
  | integerList => exact Iff.rfl
  | string => exact iff_of_true (meets_of_plain (.inl hd) hallowed h) trivial
  | boolean => exact iff_of_true (meets_of_plain (.inr (.inl hd)) hallowed h) trivial
  | date => exact iff_of_true (meets_of_plain (.inr (.inr (.inl hd))) hallowed h) trivial
  | timestamp => exact iff_of_true (meets_of_plain (.inr (.inr (.inr hd))) hallowed h) trivial
  | other name =>
    simp only [coerceType, hd] at hbv
    cases hbv

/-! ## Declarations -/

theorem declsProblems_nil {seen : List String} (h : declsProblems p seen decls = []) :
    (decls.map (·.name)).Nodup ∧ (∀ d ∈ decls, d.name ∉ seen) ∧
      ∀ d ∈ decls, ∀ av ∈ d.allowedValues, ∃ bv, coerce p d av = .ok bv := by
  induction decls generalizing seen with
  | nil => exact ⟨List.nodup_nil, fun _ h => (nomatch h), fun _ h => (nomatch h)⟩
  | cons d decls ih =>
    rw [declsProblems, List.append_eq_nil_iff] at h
    obtain ⟨hnodup, hseen, hallowed⟩ := ih h.2
    have hd := h.1
    unfold declProblems at hd
    split at hd
    · cases hd
    · split at hd
      · cases hd
      · next hnew =>
        split at hd
        · cases hd
        · refine ⟨List.nodup_cons.mpr ⟨fun hmem => ?_, hnodup⟩, ?_, ?_⟩
          · obtain ⟨e, he, hname⟩ := List.mem_map.mp hmem
            exact hseen e he (by rw [hname]; exact List.mem_cons_self)
          · intro e he
            rcases List.mem_cons.mp he with rfl | he
            · exact hnew
            · exact fun hmem => hseen e he (List.mem_cons_of_mem _ hmem)
          · intro e he av hav
            rcases List.mem_cons.mp he with rfl | he
            · have hnil := List.flatMap_eq_nil_iff.mp (List.append_eq_nil_iff.mp hd).2 av hav
              unfold problemOf at hnil
              cases hc : coerce p e av with
              | error msg =>
                rw [hc] at hnil
                cases hnil
              | ok bv => exact ⟨bv, rfl⟩
            · exact hallowed e he av hav

theorem validateDecls_ok (h : validateDecls p decls = .ok ()) : (decls.map (·.name)).Nodup ∧
      ∀ d ∈ decls, ∀ av ∈ d.allowedValues, ∃ bv, coerce p d av = .ok bv := by
  unfold validateDecls at h
  split at h
  · cases h
  · next hnone =>
    obtain ⟨hnodup, -, hallowed⟩ := declsProblems_nil (Classical.not_not.mp hnone)
    exact ⟨hnodup, hallowed⟩

/-! ## Bindings -/

/-- What the loop of `BindValues` leaves of one declaration. -/
def Bound (p : Parsers) (values : Dict String Raw) (bound : Dict String BoundValue)
    (d : VariableDecl) : Prop :=
  match supplied d values with
  | some raw => ∃ bv, coerce p d raw = .ok bv ∧ bound.lookup d.name = some bv
  | none => d.isRequired = false ∧ bound.lookup d.name = none

variable {values : Dict String Raw}

theorem bindStep_nil {st : List VariableProblem × Dict String BoundValue}
    (h : (bindStep p values st d).1 = []) : st.1 = [] ∧ (∀ name, name ≠ d.name →
        (bindStep p values st d).2.lookup name = st.2.lookup name) ∧
      (st.2.lookup d.name = none → Bound p values (bindStep p values st d).2 d) := by
  unfold bindStep at h ⊢
  unfold Bound
  cases hraw : supplied d values with
  | none =>
    rw [hraw] at h
    simp only at h ⊢
    split at h
    · exact absurd h (by simp)
    · next hreq =>
      rw [if_neg hreq]
      exact ⟨h, fun _ _ => rfl, fun hnone => ⟨Bool.eq_false_iff.mpr hreq, hnone⟩⟩
  | some raw =>
    rw [hraw] at h
    simp only at h ⊢
    cases hc : coerce p d raw with
    | error e =>
      rw [hc] at h
      exact absurd h (by simp)
    | ok bv =>
      rw [hc] at h
      exact ⟨h, fun name hname => AList.lookup_insert_ne hname,
        fun _ => ⟨bv, rfl, AList.lookup_insert _⟩⟩

theorem Bound.of_lookup {bound' : Dict String BoundValue} (h : Bound p values bound d)
    (heq : bound'.lookup d.name = bound.lookup d.name) : Bound p values bound' d := by
  unfold Bound at h ⊢
  rw [heq]
  exact h

theorem foldl_bindStep_nil (hnodup : (decls.map (·.name)).Nodup)
    {st : List VariableProblem × Dict String BoundValue}
    (hnew : ∀ d ∈ decls, st.2.lookup d.name = none)
    (h : (decls.foldl (bindStep p values) st).1 = []) :
    st.1 = [] ∧ (∀ name, name ∉ decls.map (·.name) →
        (decls.foldl (bindStep p values) st).2.lookup name = st.2.lookup name) ∧
      ∀ d ∈ decls, Bound p values (decls.foldl (bindStep p values) st).2 d := by
  induction decls generalizing st with
  | nil => exact ⟨h, fun _ _ => rfl, fun _ h => (nomatch h)⟩
  | cons d decls ih =>
    rw [List.map_cons, List.nodup_cons] at hnodup
    have hother : ∀ e ∈ decls, e.name ≠ d.name := fun e he heq =>
      hnodup.1 (heq ▸ List.mem_map_of_mem he)
    -- the turn reports nothing, as the turns after it only add problems
    have hstep : (bindStep p values st d).1 = [] := by
      have hkeep : ∀ (ds : List VariableDecl)
          (st : List VariableProblem × Dict String BoundValue),
          (ds.foldl (bindStep p values) st).1 = [] → st.1 = [] := by
        intro ds
        induction ds with
        | nil => exact fun _ h => h
        | cons e ds ihds => exact fun st h => (bindStep_nil (ihds _ h)).1
      exact hkeep decls _ h
    obtain ⟨hst, hframe, hbound⟩ := bindStep_nil hstep
    obtain ⟨-, hframe', hbound'⟩ := ih hnodup.2 (fun e he => by
      rw [hframe e.name (hother e he)]
      exact hnew e (List.mem_cons_of_mem _ he)) h
    refine ⟨hst, fun name hname => ?_, fun e he => ?_⟩
    · obtain ⟨hne, hrest⟩ := List.ne_and_not_mem_of_not_mem_cons hname
      exact (hframe' name hrest).trans (hframe name hne)
    · rcases List.mem_cons.mp he with rfl | he
      · exact (hbound (hnew e List.mem_cons_self)).of_lookup (hframe' e.name hnodup.1)
      · exact hbound' e he

theorem bindValues_ok
    (hnodup : (decls.map (·.name)).Nodup) (h : bindValues p decls values = .ok bound) :
    (∀ name, name ∉ decls.map (·.name) → bound.lookup name = none) ∧
      ∀ d ∈ decls, Bound p values bound d := by
  unfold bindValues at h
  simp only at h
  split at h
  · cases h
  · next hnil =>
    obtain rfl := Except.ok.inj h
    obtain ⟨-, hframe, hbound⟩ := foldl_bindStep_nil hnodup
      (fun d _ => AList.lookup_empty d.name) (Classical.not_not.mp hnil)
    exact ⟨fun name hname => (hframe name hname).trans (AList.lookup_empty name), hbound⟩

theorem Bound.coerced (h : Bound p values bound d) (hlookup : bound.lookup d.name = some bv) :
    ∃ raw, supplied d values = some raw ∧ coerce p d raw = .ok bv := by
  unfold Bound at h
  cases hraw : supplied d values with
  | none =>
    rw [hraw] at h
    rw [h.2] at hlookup
    cases hlookup
  | some raw =>
    rw [hraw] at h
    obtain ⟨bv', hbv', hlookup'⟩ := h
    obtain rfl := Option.some.inj (hlookup.symm.trans hlookup')
    exact ⟨raw, rfl, hbv'⟩

/-- What is bound meets the declarations exactly if the checks decide for every value
supplied. -/
theorem conforms_iff (p : Parsers) (decls : List VariableDecl) (values : Dict String Raw)
    (bound : Dict String BoundValue) (hdecls : validateDecls p decls = .ok ())
    (hbind : bindValues p decls values = .ok bound) : Conforms p decls bound ↔
      ∀ d ∈ decls, ∀ raw, supplied d values = some raw → Enforced p d raw := by
  obtain ⟨hnodup, hallowed⟩ := validateDecls_ok hdecls
  obtain ⟨hframe, hbound⟩ := bindValues_ok hnodup hbind
  have hmeets : (∀ d ∈ decls, ∀ raw, supplied d values = some raw → Enforced p d raw) →
      ∀ d ∈ decls, ∀ bv, bound.lookup d.name = some bv → Meets p d bv := by
    intro h d hd bv hlookup
    obtain ⟨raw, hraw, hbv⟩ := (hbound d hd).coerced hlookup
    exact (meets_iff (hallowed d hd) hbv).mpr (h d hd raw hraw)
  refine ⟨fun h d hd raw hraw => ?_, fun h => ⟨?_, ?_, ?_, ?_⟩⟩
  · have hd' := hbound d hd
    rw [Bound, hraw] at hd'
    obtain ⟨bv, hbv, hlookup⟩ := hd'
    exact (meets_iff (hallowed d hd) hbv).mp ⟨h.inRange d hd bv hlookup, h.allowed d hd bv hlookup⟩
  · exact fun d hd bv hlookup => (hmeets h d hd bv hlookup).1
  · exact fun d hd bv hlookup => (hmeets h d hd bv hlookup).2
  · intro d hd hreq
    have hd' := hbound d hd
    unfold Bound at hd'
    split at hd'
    · obtain ⟨bv, -, hlookup⟩ := hd'
      rw [hlookup]
      rfl
    · rw [hd'.1] at hreq
      cases hreq
  · intro name hname
    by_contra hno
    have hnone := hframe name fun hmem => hno (List.mem_map.mp hmem)
    exact (AList.lookup_eq_none.mp hnone) hname

/-! ## The elements of a list -/

/-- Ten, as a bound. -/
def ten : Double := Double.whole 10 (by decide)

/-- An integer that is four, and a list of integers up to ten. -/
def sampleDecls : List VariableDecl :=
  [⟨"n", .integer, none, none, [⟨bytes "4", some (.num "4")⟩], none, some ten⟩,
    ⟨"ids", .integerList, some false, none, [], none, some ten⟩]

/-- Four, and a list of one number. -/
def sampleValues (id : String) : Dict String Raw :=
  ((∅ : Dict String Raw).insert "n" ⟨bytes "4", some (.num "4")⟩).insert "ids"
    ⟨bytes ("[" ++ id ++ "]"), some (.arr [.num id])⟩

def noParsers : Parsers := ⟨fun _ => none, fun _ => none, fun _ => none⟩

/-- The elements that are bound to the list. -/
def boundIds (id : String) : Option (List Int) :=
  match bindValues noParsers sampleDecls (sampleValues id) with
  | .ok bound => (bound.lookup "ids").map BoundValue.ints
  | .error _ => none

theorem exists_bound {id : String} {ns : List Int} (h : boundIds id = some ns) :
    ∃ bound, bindValues noParsers sampleDecls (sampleValues id) = .ok bound ∧
      ∃ bv, bound.lookup "ids" = some bv ∧ bv.ints = ns := by
  unfold boundIds at h
  split at h
  · next bound hbind => exact ⟨bound, hbind, Option.map_eq_some_iff.mp h⟩
  · cases h

theorem conforms_sample : ∃ bound, bindValues noParsers sampleDecls (sampleValues "7") = .ok bound ∧
      (Conforms noParsers sampleDecls bound ↔
        ∀ d ∈ sampleDecls, ∀ raw, supplied d (sampleValues "7") = some raw →
          Enforced noParsers d raw) :=
  let ⟨bound, hbind, _⟩ := exists_bound (show boundIds "7" = some [7] by decide +kernel)
  ⟨bound, hbind,
    conforms_iff noParsers sampleDecls (sampleValues "7") bound (by decide +kernel) hbind⟩

/-- Ninety-nine is bound to a list of integers up to ten. -/
theorem list_beyond_max : validateDecls noParsers sampleDecls = .ok () ∧
      ∃ bound, bindValues noParsers sampleDecls (sampleValues "99") = .ok bound ∧
        ¬ Conforms noParsers sampleDecls bound := by
  obtain ⟨bound, hbind, bv, hlookup, hints⟩ :=
    exists_bound (show boundIds "99" = some [99] by decide +kernel)
  refine ⟨by decide +kernel, bound, hbind, fun h => ?_⟩
  have hrange := h.inRange _ (List.mem_cons_of_mem _ (List.mem_singleton_self _)) bv hlookup 99
    (by rw [hints]; exact List.mem_singleton_self _)
  exact absurd (hrange.2 ten rfl) (by decide +kernel)

end Windrose.Query.Variables

/-
  Packs/Ownership.lean --- whose an object is, call by call.

  Source: packs/packctl/client.py.

  `Grows p N t t'` is all that the calls of the pack `p` do: an object stays, with more
  creators at most, and a new one is the pack's; those that are addressed by their key are
  among `N`.  `Held p t name x` says of what a ledger row would delete that it is the
  pack's.
-/
import Mathlib.Data.List.Nodup
import Windrose.Packs.Installer

set_option autoImplicit false

namespace Windrose.Packs

/-- The same object, with more creators at most. -/
structure Obj.Extends (o' o : Obj) : Prop where
  kind : o'.kind = o.kind
  key : o'.key = o.key
  uuid : o'.uuid = o.uuid
  details : o.kind.isSetting = false → o'.details = o.details
  creators : ∀ p ∈ o.creators, p ∈ o'.creators

namespace Obj.Extends

variable {o o' o'' : Obj}

theorem refl (o : Obj) : o.Extends o := ⟨rfl, rfl, rfl, fun _ => rfl, fun _ h => h⟩

theorem trans (h' : o''.Extends o') (h : o'.Extends o) : o''.Extends o where
  kind := h'.kind.trans h.kind
  key := h'.key.trans h.key
  uuid := h'.uuid.trans h.uuid
  details hs := (h'.details (h.kind ▸ hs)).trans (h.details hs)
  creators p hp := h'.creators p (h.creators p hp)

theorem id (h : o'.Extends o) : o'.id = o.id := by rw [Obj.id, Obj.id, h.kind, h.key, h.uuid]

end Obj.Extends

variable {kind : Kind}

theorem isSetting_keyed (h : kind.isSetting = true) : kind.keyed = true := by
  cases kind <;> first | rfl | cases h

variable {kind' : Kind} {key' p : String} {details : Details}

namespace Tenant

variable {t : Tenant} {kind : Kind} {key : String} {o o' : Obj}

theorem mem_of_find (h : t.find kind key = some o) :
    o ∈ t.objects ∧ o.kind = kind ∧ o.key = key := by
  have hp := List.find?_some h
  rw [decide_eq_true_eq] at hp
  exact ⟨List.mem_of_find?_eq_some h, hp⟩

theorem find_eq_none : t.find kind key = none ↔ ∀ o ∈ t.objects, o.kind = kind → o.key ≠ key := by
  rw [find, List.find?_eq_none]
  refine forall₂_congr fun o _ => ?_
  rw [decide_eq_true_eq, not_and]

theorem find_isSome : (t.find kind key).isSome ↔ ∃ o ∈ t.objects, o.kind = kind ∧ o.key = key := by
  rw [find, List.find?_isSome]
  refine exists_congr fun o => and_congr_right fun _ => ?_
  rw [decide_eq_true_eq]

theorem eq_of_uuid (ho : o ∈ t.objects) (ho' : o' ∈ t.objects) (h : o'.uuid = o.uuid) : o' = o :=
  List.inj_on_of_nodup_map (List.pairwise_map.mpr t.distinct) ho' ho h

theorem mem_insert : o ∈ (t.insert kind key details p).objects ↔
      o ∈ t.objects ∨ o = ⟨kind, key, t.next, details, [p]⟩ := by
  rw [insert, List.mem_append, List.mem_singleton]

theorem find_insert_of_some
    (h : t.find kind' key' = some o) : (t.insert kind key details p).find kind' key' = some o := by
  rw [find, insert, List.find?_append]
  exact Option.or_of_isSome (by rw [show t.objects.find? _ = some o from h]; rfl) |>.trans h

theorem find_insert_self (h : t.find kind key = none) :
    (t.insert kind key details p).find kind key = some ⟨kind, key, t.next, details, [p]⟩ := by
  rw [find, insert, List.find?_append, show t.objects.find? _ = none from h]
  simp

theorem find_insert_of_ne (h : ¬ (kind' = kind ∧ key' = key)) :
    (t.insert kind key details p).find kind' key' = t.find kind' key' := by
  have hne : ¬ (kind = kind' ∧ key = key') := fun hk => h (hk.imp Eq.symm Eq.symm)
  rw [find, insert, List.find?_append, List.find?_singleton, decide_eq_false hne]
  exact Option.or_none

end Tenant

theorem extends_written (hkind : kind.isSetting = true) (key : String)
    (details : Details) (p : String) (o : Obj) :
    (Tenant.written kind key details p o).Extends o := by
  rw [Tenant.written]
  split
  · next h =>
    refine ⟨rfl, rfl, rfl, fun hs => ?_, fun _ hq => List.mem_cons_of_mem _ hq⟩
    rw [h.1, hkind] at hs
    cases hs
  · exact Obj.Extends.refl o

/-! ## What the calls of a pack do -/

/-- Every object with the key is the pack's. -/
def OwnedBy (p : String) (t : Tenant) (kind : Kind) (key : String) : Prop :=
  ∀ o ∈ t.objects, o.kind = kind → o.key = key → p ∈ o.creators

/-- Objects are added under the keys of `N`, and none changes hands. -/
structure Grows (p : String) (N : Kind → String → Prop) (t t' : Tenant) : Prop where
  next_le : t.next ≤ t'.next
  kept : ∀ o ∈ t.objects, ∃ o' ∈ t'.objects, o'.Extends o
  origin : ∀ o' ∈ t'.objects, o' ∈ t.objects ∨ p ∈ o'.creators ∧
    ((∃ o ∈ t.objects, o'.Extends o) ∨
      t.next ≤ o'.uuid ∧ (o'.kind.keyed → N o'.kind o'.key ∧ t.find o'.kind o'.key = none))
  find : ∀ kind key o, kind.isSetting = false → t.find kind key = some o →
    t'.find kind key = some o
  /-- A setting reads as before, or it is the pack's. -/
  setting : ∀ kind key, kind.isSetting = true →
    t'.setting kind key = t.setting kind key ∨ OwnedBy p t' kind key

namespace Grows

variable {p : String} {N : Kind → String → Prop} {t t' t'' : Tenant}

theorem refl (t : Tenant) : Grows p N t t where
  next_le := Nat.le_refl _
  kept o ho := ⟨o, ho, .refl o⟩
  origin _ ho := .inl ho
  find _ _ _ _ h := h
  setting _ _ _ := .inl rfl

theorem owned (h : Grows p N t t') {key : String} (howned : OwnedBy p t kind key) :
    OwnedBy p t' kind key := by
  intro o' ho' hkind hkey
  rcases h.origin o' ho' with ho | ⟨hp, -⟩
  · exact howned o' ho hkind hkey
  · exact hp

theorem find_none (h : Grows p N t t') {key : String}
    (hnone : t'.find kind key = none) : t.find kind key = none := by
  rw [Tenant.find_eq_none] at hnone ⊢
  intro o ho hkind hkey
  obtain ⟨o', ho', hext⟩ := h.kept o ho
  exact hnone o' ho' (hext.kind.trans hkind) (hext.key.trans hkey)

theorem trans (h : Grows p N t t') (h' : Grows p N t' t'') : Grows p N t t'' where
  next_le := Nat.le_trans h.next_le h'.next_le
  kept o ho := by
    obtain ⟨o', ho', hext⟩ := h.kept o ho
    obtain ⟨o'', ho'', hext'⟩ := h'.kept o' ho'
    exact ⟨o'', ho'', hext'.trans hext⟩
  origin o'' ho'' := by
    rcases h'.origin o'' ho'' with ho' | ⟨hp, ⟨o', ho', hext⟩ | ⟨hnext, hkeyed⟩⟩
    · exact h.origin o'' ho'
    · rcases h.origin o' ho' with ho | ⟨-, ⟨o, ho, hext'⟩ | ⟨hnext, hkeyed⟩⟩
      · exact .inr ⟨hp, .inl ⟨o', ho, hext⟩⟩
      · exact .inr ⟨hp, .inl ⟨o, ho, hext.trans hext'⟩⟩
      · refine .inr ⟨hp, .inr ⟨hext.uuid ▸ hnext, ?_⟩⟩
        rw [hext.kind, hext.key]
        exact hkeyed
    · refine .inr ⟨hp, .inr ⟨Nat.le_trans h.next_le hnext, fun hk => ?_⟩⟩
      obtain ⟨hN, hnone⟩ := hkeyed hk
      exact ⟨hN, h.find_none hnone⟩
  find kind key o hs ho := h'.find kind key o hs (h.find kind key o hs ho)
  setting kind key hs := by
    rcases h'.setting kind key hs with hsame' | howned
    · rcases h.setting kind key hs with hsame | howned
      · exact .inl (hsame'.trans hsame)
      · exact .inr (h'.owned howned)
    · exact .inr howned

end Grows

section Moves

variable {p : String} {N : Kind → String → Prop} {t : Tenant} {kind : Kind} {key : String}
  {details : Details}

theorem grows_insert (h : kind.keyed = true → N kind key ∧ t.find kind key = none) :
    Grows p N t (t.insert kind key details p) where
  next_le := Nat.le_succ _
  kept o ho := ⟨o, Tenant.mem_insert.mpr (.inl ho), .refl o⟩
  origin o' ho' := by
    rcases Tenant.mem_insert.mp ho' with ho | rfl
    · exact .inl ho
    · exact .inr ⟨List.mem_singleton.mpr rfl, .inr ⟨Nat.le_refl _, h⟩⟩
  find _ _ _ _ ho := Tenant.find_insert_of_some ho
  setting kind' key' hs := by
    by_cases hk : kind' = kind ∧ key' = key
    · obtain ⟨rfl, rfl⟩ := hk
      obtain ⟨-, hnone⟩ := h (isSetting_keyed hs)
      refine .inr fun o ho hkind hkey => ?_
      rcases Tenant.mem_insert.mp ho with ho | rfl
      · exact absurd hkey (Tenant.find_eq_none.mp hnone o ho hkind)
      · exact List.mem_singleton.mpr rfl
    · left
      rw [Tenant.setting, Tenant.setting, Tenant.find_insert_of_ne hk]

theorem find_overwrite_of_ne (h : ¬ (kind' = kind ∧ key' = key)) :
    (t.overwrite kind key details p).find kind' key' = t.find kind' key' := by
  rw [Tenant.find, Tenant.find, Tenant.overwrite, List.find?_map]
  have hwritten : ∀ o : Obj, o.kind = kind' → o.key = key' →
      Tenant.written kind key details p o = o := by
    rintro o rfl rfl
    exact if_neg h
  have hsame : ((fun o : Obj => decide (o.kind = kind' ∧ o.key = key')) ∘
      Tenant.written kind key details p) = fun o => decide (o.kind = kind' ∧ o.key = key') := by
    funext o
    rw [Function.comp_apply, Tenant.written]
    split <;> rfl
  rw [hsame]
  cases hfind : t.objects.find? fun o => decide (o.kind = kind' ∧ o.key = key') with
  | none => rfl
  | some o =>
    obtain ⟨-, hkind, hkey⟩ := Tenant.mem_of_find hfind
    rw [Option.map_some, hwritten o hkind hkey]

theorem owned_overwrite : OwnedBy p (t.overwrite kind key details p) kind key := by
  intro o' ho' hkind hkey
  obtain ⟨o, ho, rfl⟩ := List.mem_map.mp ho'
  rw [Tenant.written] at hkind hkey ⊢
  split at hkind
  · next h =>
    rw [if_pos h]
    exact List.mem_cons_self
  · next h =>
    rw [if_neg h] at hkey
    exact absurd ⟨hkind, hkey⟩ h

theorem grows_overwrite (hkind : kind.isSetting = true) :
    Grows p N t (t.overwrite kind key details p) where
  next_le := Nat.le_refl _
  kept o ho := ⟨_, List.mem_map_of_mem ho, extends_written hkind key details p o⟩
  origin o' ho' := by
    obtain ⟨o, ho, rfl⟩ := List.mem_map.mp ho'
    by_cases h : o.kind = kind ∧ o.key = key
    · refine .inr ⟨?_, .inl ⟨o, ho, extends_written hkind key details p o⟩⟩
      rw [Tenant.written, if_pos h]
      exact List.mem_cons_self
    · rw [Tenant.written, if_neg h]
      exact .inl ho
  find kind' key' o hs ho := by
    refine (find_overwrite_of_ne fun h => ?_).trans ho
    rw [h.1, hkind] at hs
    cases hs
  setting kind' key' _ := by
    by_cases h : kind' = kind ∧ key' = key
    · obtain ⟨rfl, rfl⟩ := h
      exact .inr owned_overwrite
    · left
      rw [Tenant.setting, Tenant.setting, find_overwrite_of_ne h]

end Moves

/-! ## What a row holds -/

/-- What a row would delete is the pack's, and is what the row is named after. -/
structure Held (p : String) (t : Tenant) (name : String) (x : Kind × Id) : Prop where
  issued : ∀ n, x.2 = .uuid n → n < t.next
  keyed : x.1.keyed = true → x.2 = .key name
  owned : ∀ o ∈ t.objects, (o.kind, o.id) = x → p ∈ o.creators ∧ (x.1 ≠ .memories → o.key = name)

section Rows

variable {p q : String} {N : Kind → String → Prop} {t t' : Tenant} {name : String}
  {x : Kind × Id}

theorem Held.grows (h : Held p t name x) (hg : Grows q N t t')
    (hfree : q = p ∨ (x.1.keyed = true → N x.1 name → (t.find x.1 name).isSome)) :
    Held p t' name x where
  issued n hn := Nat.lt_of_lt_of_le (h.issued n hn) hg.next_le
  keyed := h.keyed
  owned o' ho' hx := by
    rcases hg.origin o' ho' with ho | ⟨hq, ⟨o, ho, hext⟩ | ⟨hnext, hkeyed⟩⟩
    · exact h.owned o' ho hx
    · obtain ⟨hp, hkey⟩ := h.owned o ho (by rw [← hx, hext.kind, hext.id])
      exact ⟨hext.creators p hp, fun hm => hext.key.trans (hkey hm)⟩
    · subst hx
      rcases hk : o'.kind.keyed with _ | _
      · have hid : o'.id = .uuid o'.uuid := by rw [Obj.id, hk]; rfl
        exact absurd (h.issued _ hid) (Nat.not_lt.mpr hnext)
      · have hid : o'.id = .key o'.key := by rw [Obj.id, hk]; rfl
        have hname : o'.key = name := Id.key.inj (hid.symm.trans (h.keyed hk))
        obtain ⟨hN, hnone⟩ := hkeyed hk
        rcases hfree with rfl | hfree
        · exact ⟨hq, fun _ => hname⟩
        · have hsome := hfree hk (hname ▸ hN)
          rw [← hname, hnone] at hsome
          cases hsome

theorem Held.mono (h : Held p t name x) (hnext : t.next ≤ t'.next)
    (hobj : ∀ o' ∈ t'.objects, ∃ o ∈ t.objects, o'.kind = o.kind ∧ o'.key = o.key ∧
      o'.uuid = o.uuid ∧ o'.creators = o.creators) : Held p t' name x where
  issued n hn := Nat.lt_of_lt_of_le (h.issued n hn) hnext
  keyed := h.keyed
  owned o' ho' hx := by
    obtain ⟨o, ho, hkind, hkey, huuid, hcreators⟩ := hobj o' ho'
    have hid : o'.id = o.id := by rw [Obj.id, Obj.id, hkind, hkey, huuid]
    rw [hcreators, hkey]
    exact h.owned o ho (by rw [← hx, hkind, hid])

theorem held_of_find {o : Obj} (hfind : t.find kind name = some o)
    (howned : OwnedBy p t kind name) : Held p t name (kind, o.id) := by
  obtain ⟨ho, hkind, hkey⟩ := Tenant.mem_of_find hfind
  subst hkind
  constructor
  · intro n hn
    rw [Obj.id] at hn
    split at hn
    · cases hn
    · cases hn
      exact t.issued o ho
  · intro hk
    show o.id = .key name
    rw [Obj.id, if_pos hk, hkey]
  · intro o' ho' hx
    obtain ⟨hk, hid⟩ := Prod.mk.inj hx
    have hname : o'.key = name := by
      rw [Obj.id, Obj.id, hk] at hid
      split at hid
      · exact (Id.key.inj hid).trans hkey
      · rw [Tenant.eq_of_uuid ho ho' (Id.uuid.inj hid)]
        exact hkey
    exact ⟨howned o' ho' hk hname, fun _ => hname⟩

theorem held_of_keyed (hk : kind.keyed = true) (howned : OwnedBy p t kind name) :
    Held p t name (kind, .key name) := by
  constructor
  · intro n hn
    cases hn
  · exact fun _ => rfl
  · intro o' ho' hx
    obtain ⟨rfl, hid⟩ := Prod.mk.inj hx
    rw [Obj.id, if_pos hk] at hid
    obtain rfl := Id.key.inj hid
    exact ⟨howned o' ho' rfl rfl, fun _ => rfl⟩

end Rows

end Windrose.Packs

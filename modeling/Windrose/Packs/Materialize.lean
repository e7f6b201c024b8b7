/-
  Packs/Materialize.lean --- what an install leaves behind.

  Source: services/pack-service/app/domain/installer.py (run_install, run_data_chain,
  run_complete).

  An install is a chain of calls.  `Continues` is what one of them does to the install
  under way, and what any number of them do.  Its rows hold what they would delete when the
  entries are `Clear`: the run comes to hold nothing that another made.
-/
import Windrose.Foundation.Runs
import Windrose.Packs.Ownership

set_option autoImplicit false

namespace Windrose.Packs

open Windrose.Foundation

/-! ## Rows -/

/-- A row holds all that it would delete. -/
def RowHeld (p : String) (t : Tenant) (r : Row) : Prop := ∀ x ∈ r.targets, Held p t r.identity x

variable {r : Row}

theorem mem_targets {x : Kind × Id} (h : x ∈ r.targets) :
    ∃ id, r.targetId = some id ∧ r.kind.isReversible = true ∧
      (r.kind = .roles → r.reversible = true) ∧
      (x = (r.kind, id) ∨ r.kind = .roles ∧ x = (.permissionGroups, .key r.identity)) := by
  obtain ⟨kind, identity, targetId, action, reversible, tombstoned⟩ := r
  rw [Row.targets] at h
  cases targetId with
  | none => cases h
  | some id =>
    refine ⟨id, rfl, ?_⟩
    cases kind
    case roles =>
      dsimp only at h
      split at h
      · next hrev =>
        refine ⟨rfl, fun _ => hrev, ?_⟩
        rcases List.mem_cons.mp h with rfl | h
        · exact .inr ⟨rfl, rfl⟩
        · exact .inl (List.mem_singleton.mp h)
      · cases h
    all_goals
      first
      | cases h; done
      | exact ⟨rfl, nofun, .inl (List.mem_singleton.mp h)⟩

@[simp] theorem carryOver_kind (prior : List Row) (r : Row) :
    (carryOver prior r).kind = r.kind := by
  rw [carryOver]
  split <;> rfl

@[simp] theorem carryOver_identity (prior : List Row) (r : Row) :
    (carryOver prior r).identity = r.identity := by
  rw [carryOver]
  split <;> rfl

@[simp] theorem carryOver_targetId (prior : List Row) (r : Row) :
    (carryOver prior r).targetId = r.targetId := by
  rw [carryOver]
  split <;> rfl

theorem carryOver_reversible {prior : List Row} (h : (carryOver prior r).reversible = true) :
    r.reversible = true ∨ priorReversible prior r.kind r.identity = true := by
  rw [carryOver] at h
  split at h
  · next hcarry =>
    rw [Bool.and_eq_true, Bool.and_eq_true] at hcarry
    exact .inr hcarry.1.1
  · exact .inl h

section

variable {p : String} {prior : List Row} {t : Tenant} {kind : Kind} {name : String} {a : Answer}

theorem rowHeld_of_not_reversible (h : r.kind.isReversible = false) :
    RowHeld p t (carryOver prior r) := by
  intro x hx
  obtain ⟨id, -, hrev, -⟩ := mem_targets hx
  rw [carryOver_kind, h] at hrev
  cases hrev

theorem rowHeld_of_held (hroles : r.kind ≠ .roles)
    (h : ∀ id, r.targetId = some id → Held p t r.identity (r.kind, id)) :
    RowHeld p t (carryOver prior r) := by
  intro x hx
  obtain ⟨id, hid, -, -, rfl | ⟨hr, -⟩⟩ := mem_targets hx
  · rw [carryOver_kind, carryOver_identity]
    exact h id (by rwa [carryOver_targetId] at hid)
  · rw [carryOver_kind] at hr
    exact absurd hr hroles

theorem rowHeld_role (h : a.action = .create ∨ priorReversible prior .roles name = true →
      (∀ id, a.id = some id → Held p t name (.roles, id)) ∧
        Held p t name (.permissionGroups, .key name)) :
    RowHeld p t (carryOver prior (record .roles name a)) := by
  intro x hx
  obtain ⟨id, hid, -, hrev, hcase⟩ := mem_targets hx
  rw [carryOver_targetId] at hid
  have hmay : a.action = .create ∨ priorReversible prior .roles name = true := by
    rcases carryOver_reversible (hrev (carryOver_kind prior _)) with hrev | hrev
    · rw [record, Bool.and_eq_true, Bool.and_eq_true, decide_eq_true_eq] at hrev
      exact .inl hrev.1.2
    · exact .inr hrev
  obtain ⟨hrole, hgroup⟩ := h hmay
  rw [carryOver_identity]
  rcases hcase with rfl | ⟨-, rfl⟩
  · rw [carryOver_kind]
    exact hrole id hid
  · rw [carryOver_identity]
    exact hgroup

end

/-! ## What an entry makes and adopts -/

/-- What the call for an entry makes under a key that is its id. -/
def Makes (kind : Kind) (e : Entry) (k : Kind) (s : String) : Prop :=
  s = e.name ∧ (k = kind ∨ kind = .roles ∧ k = .permissionGroups)

/-- An object that is there and that the row of the entry would come to hold.  A role that
is found is held when the prior ledger has a row of it that is reversible. -/
def Adopts (prior : List Row) (t : Tenant) (kind : Kind) (e : Entry) (o : Obj) : Prop :=
  o.key = e.name ∧
    match kind with
    | .displayLabels | .guardrails | .agentConfigs =>
      o.kind = kind ∧ t.setting kind e.name = some e.value
    | .roles => (o.kind = .roles ∨ o.kind = .permissionGroups) ∧
        (t.find .roles e.name = none ∨ priorReversible prior .roles e.name = true)
    -- what is found gets no row
    | .memories => False
    | _ => o.kind = kind ∧ kind.isReversible = true

/-- The entry adopts nothing but what is the pack's. -/
def Clear (p : String) (prior : List Row) (t : Tenant) (kind : Kind) (e : Entry) : Prop :=
  ∀ o ∈ t.objects, Adopts prior t kind e o → p ∈ o.creators

/-- What a call for an entry does. -/
structure Does (p : String) (N : Kind → String → Prop) (prior : List Row) (kind : Kind)
    (e : Entry) (t : Tenant) (a : Answer) : Prop where
  grows : Grows p N t a.tenant
  row : RowHeld p a.tenant (carryOver prior (record kind e.name a))
  there : (a.tenant.find kind e.name).isSome ∨ kind.default = some e.value

section Calls

variable {p : String} {N : Kind → String → Prop} {prior : List Row} {t₀ t : Tenant}
  {kind : Kind} {e : Entry} {key : String} {details : Details}

theorem ensureNamed_grows (hN : kind.keyed = true → N kind key) :
    Grows p N t (ensureNamed p kind key details t).tenant := by
  rw [ensureNamed]
  split
  · exact .refl t
  · next hnone => exact grows_insert fun hk => ⟨hN hk, hnone⟩

theorem ensureNamed_find (p : String) (kind : Kind) (key : String) (details : Details)
    (t : Tenant) : ∃ o, (ensureNamed p kind key details t).tenant.find kind key = some o ∧
      (ensureNamed p kind key details t).id = some o.id := by
  rw [ensureNamed]
  split
  · next o ho => exact ⟨o, ho, rfl⟩
  · next hnone => exact ⟨_, Tenant.find_insert_self hnone, rfl⟩

theorem ensureNamed_create (h : (ensureNamed p kind key details t).action = .create) :
    t.find kind key = none := by
  rw [ensureNamed] at h
  split at h
  · cases h
  · assumption

theorem ensureNamed_does (hg : Grows p N t₀ t) (hN : kind.keyed = true → N kind e.name)
    (hroles : kind ≠ .roles) (howned : kind.isReversible = true → OwnedBy p t₀ kind e.name) :
    Does p N prior kind e t (ensureNamed p kind e.name details t) := by
  have hgrows : Grows p N t (ensureNamed p kind e.name details t).tenant := ensureNamed_grows hN
  obtain ⟨o, hfind, hid⟩ := ensureNamed_find p kind e.name details t
  refine ⟨hgrows, ?_, .inl (by rw [hfind]; rfl)⟩
  cases hrev : kind.isReversible with
  | false => exact rowHeld_of_not_reversible hrev
  | true =>
    refine rowHeld_of_held hroles fun id hid' => ?_
    obtain rfl : o.id = id := Option.some.inj (hid.symm.trans hid')
    exact held_of_find hfind ((hg.trans hgrows).owned (howned hrev))

theorem ensureSetting_does (hg : Grows p N t₀ t) (hkind : kind.isSetting = true)
    (hN : N kind e.name)
    (howned : t₀.setting kind e.name = some e.value → OwnedBy p t₀ kind e.name) :
    Does p N prior kind e t (ensureSetting p kind e t) := by
  have hkeyed := isSetting_keyed hkind
  have hroles : kind ≠ .roles := by
    rintro rfl
    cases hkind
  have hrow : ∀ {t' : Tenant} (action : Action), OwnedBy p t' kind e.name →
      RowHeld p t' (carryOver prior (record kind e.name ⟨t', action, some (.key e.name)⟩)) := by
    intro t' action h
    refine rowHeld_of_held hroles fun id hid => ?_
    cases hid
    exact held_of_keyed hkeyed h
  rw [ensureSetting]
  split
  · next hsame =>
    refine ⟨.refl t, hrow _ ?_, ?_⟩
    · rcases hg.setting kind e.name hkind with hread | hall
      · exact hg.owned (howned (hread ▸ hsame))
      · exact hall
    · rw [Tenant.setting] at hsame
      split at hsame
      · next ho => exact .inl (by rw [ho]; rfl)
      · exact .inr hsame
  · split
    · next ho =>
      refine ⟨grows_overwrite hkind, hrow _ owned_overwrite, .inl ?_⟩
      obtain ⟨hmem, hk, hkey⟩ := Tenant.mem_of_find ho
      refine Tenant.find_isSome.mpr ⟨_, List.mem_map_of_mem hmem, ?_⟩
      have hext := extends_written hkind e.name (.setting e.stored) p
      exact ⟨(hext _).kind.trans hk, (hext _).key.trans hkey⟩
    · next hnone =>
      refine ⟨grows_insert fun _ => ⟨hN, hnone⟩, hrow _ ?_, .inl ?_⟩
      · intro o ho hk hkey
        rcases Tenant.mem_insert.mp ho with ho | rfl
        · exact absurd hkey (Tenant.find_eq_none.mp hnone o ho hk)
        · exact List.mem_singleton.mpr rfl
      · rw [Tenant.find_insert_self hnone]
        rfl

theorem ensureRole_does (hg : Grows p N t₀ t) (hN : N .permissionGroups e.name)
    (hclear : Clear p prior t₀ .roles e) : Does p N prior .roles e t (ensureRole p e t) := by
  have hrole : Grows p N t (ensureNamed p .roles e.name .plain t).tenant :=
    ensureNamed_grows fun h => nomatch h
  have hgroup : Grows p N (ensureNamed p .roles e.name .plain t).tenant
      (ensureRole p e t).tenant := ensureNamed_grows fun _ => hN
  obtain ⟨o, hfind, hid⟩ := ensureNamed_find p .roles e.name .plain t
  have hfind' := hgroup.find .roles e.name o rfl hfind
  have hall := hg.trans (hrole.trans hgroup)
  refine ⟨hrole.trans hgroup, rowHeld_role fun hmay => ?_, .inl (by rw [hfind']; rfl)⟩
  have hadopts : t₀.find .roles e.name = none ∨ priorReversible prior .roles e.name = true :=
    hmay.imp_left fun hcreate => hg.find_none (ensureNamed_create hcreate)
  have howned : ∀ k, k = .roles ∨ k = .permissionGroups →
      OwnedBy p (ensureRole p e t).tenant k e.name := by
    intro k hk
    refine hall.owned fun o ho hkind hkey => hclear o ho ⟨hkey, ?_, hadopts⟩
    rwa [hkind]
  refine ⟨fun id hid' => ?_, held_of_keyed rfl (howned _ (.inr rfl))⟩
  obtain rfl : o.id = id := Option.some.inj (hid.symm.trans hid')
  exact held_of_find hfind' (howned _ (.inl rfl))

theorem ensureEvalSet_does : Does p N prior .evalSets e t (ensureEvalSet p e t) := by
  have hrow : ∀ a : Answer, RowHeld p a.tenant (carryOver prior (record .evalSets e.name a)) :=
    fun a => rowHeld_of_not_reversible rfl
  rw [ensureEvalSet]
  split
  · next o ho =>
    refine ⟨.refl t, hrow _, .inl (Tenant.find_isSome.mpr ?_)⟩
    have hp := List.find?_some ho
    rw [decide_eq_true_eq] at hp
    exact ⟨o, List.mem_of_find?_eq_some ho, hp.1, hp.2.1⟩
  · refine ⟨grows_insert nofun, hrow _, .inl (Tenant.find_isSome.mpr ?_)⟩
    exact ⟨_, Tenant.mem_insert.mpr (.inr rfl), rfl, rfl⟩

theorem ensureInc1_does (hkind : kind ∈ inc1Kinds) (hg : Grows p N t₀ t)
    (hN : ∀ k s, Makes kind e k s → N k s) (hclear : Clear p prior t₀ kind e) :
    Does p N prior kind e t (ensureInc1 p kind e t) := by
  have hself : N kind e.name := hN kind e.name ⟨rfl, .inl rfl⟩
  have hsetting : (∀ o : Obj, o.kind = kind → o.key = e.name →
      t₀.setting kind e.name = some e.value → Adopts prior t₀ kind e o) →
      t₀.setting kind e.name = some e.value → OwnedBy p t₀ kind e.name :=
    fun h hread o ho hk hkey => hclear o ho (h o hk hkey hread)
  have hnamed : (∀ o : Obj, o.kind = kind → o.key = e.name → kind.isReversible = true →
      Adopts prior t₀ kind e o) → kind.isReversible = true → OwnedBy p t₀ kind e.name :=
    fun h hrev o ho hk hkey => hclear o ho (h o hk hkey hrev)
  cases kind
  case displayLabels | guardrails | agentConfigs =>
    exact ensureSetting_does hg rfl hself (hsetting fun o hk hkey hread => ⟨hkey, hk, hread⟩)
  case roles => exact ensureRole_does hg (hN _ _ ⟨rfl, .inr ⟨rfl, rfl⟩⟩) hclear
  case evalSets => exact ensureEvalSet_does
  case datasets | semanticModels | verifiedQueries | savedQueries | cases | pipelines | memories
      | dashboards | permissionGroups =>
    exact absurd hkind (by decide)
  all_goals
    exact ensureNamed_does hg (fun _ => hself) nofun
      (hnamed fun o hk hkey hrev => ⟨hkey, hk, hrev⟩)

end Calls

/-! ## What any number of calls do -/

/-- From one stage of an install to a later one. -/
structure Continues (p : String) (N : Kind → String → Prop) (prior : List Row) (x y : Progress) :
    Prop where
  grows : Grows p N x.tenant y.tenant
  urns : ∀ id, (x.datasetUrns.lookup id).isSome → (y.datasetUrns.lookup id).isSome
  rows : ∀ r ∈ y.records,
    r ∈ x.records ∨ r.tombstoned = false ∧ RowHeld p y.tenant (carryOver prior r)

variable {kind : Kind}

namespace Continues

variable {p : String} {N : Kind → String → Prop} {prior : List Row} {x y z : Progress}

theorem refl (x : Progress) : Continues p N prior x x := ⟨.refl _, fun _ h => h, fun _ h => .inl h⟩

theorem trans (h : Continues p N prior x y) (h' : Continues p N prior y z) :
    Continues p N prior x z where
  grows := h.grows.trans h'.grows
  urns id hid := h'.urns id (h.urns id hid)
  rows r hr := by
    rcases h'.rows r hr with hr | hheld
    · refine (h.rows r hr).imp_right fun ⟨hlive, hheld⟩ => ⟨hlive, fun x hx => ?_⟩
      exact (hheld x hx).grows h'.grows (.inl rfl)
    · exact .inr hheld

theorem of_row {t : Tenant} (hg : Grows p N x.tenant t) (hlive : r.tombstoned = false)
    (hrow : RowHeld p t (carryOver prior r)) :
    Continues p N prior x { x with tenant := t, records := x.records ++ [r] } where
  grows := hg
  urns _ h := h
  rows r' hr' := by
    rcases List.mem_append.mp hr' with hr' | hr'
    · exact .inl hr'
    · cases List.mem_singleton.mp hr'
      exact .inr ⟨hlive, hrow⟩

theorem call {f : Tenant → Answer} {e : Entry} (h : Does p N prior kind e x.tenant (f x.tenant)) :
    Continues p N prior x (x.call f kind e.name) := of_row h.grows rfl h.row

end Continues

section Present

variable {p : String} {N : Kind → String → Prop} {bindings : List (String × Id)} {t t' : Tenant}
  {kind : Kind} {e : Entry}

theorem Grows.find_isSome (h : Grows p N t t') {key : String}
    (hfind : (t.find kind key).isSome) : (t'.find kind key).isSome := by
  rw [Tenant.find_isSome] at hfind ⊢
  obtain ⟨o, ho, hkind, hkey⟩ := hfind
  obtain ⟨o', ho', hext⟩ := h.kept o ho
  exact ⟨o', ho', hext.kind.trans hkind, hext.key.trans hkey⟩

theorem isMemory_extends {o o' : Obj} (hext : o'.Extends o) {tag content : String}
    (h : isMemory tag content o = true) : isMemory tag content o' = true := by
  rw [isMemory, Bool.and_eq_true, Bool.and_eq_true, decide_eq_true_eq] at h
  rw [isMemory, hext.kind, hext.key, hext.details (by rw [h.1.1]; rfl), decide_eq_true h.1.1, h.1.2,
    h.2]
  rfl

theorem Grows.present (h : Grows p N t t') (hp : present p bindings kind e t = true) :
    present p bindings kind e t' = true := by
  cases kind
  case memories =>
    obtain ⟨o, ho, hm⟩ := List.any_eq_true.mp hp
    obtain ⟨o', ho', hext⟩ := h.kept o ho
    exact List.any_eq_true.mpr ⟨o', ho', isMemory_extends hext hm⟩
  case datasets =>
    rw [Packs.present] at hp ⊢
    split at hp
    · obtain ⟨o, ho, hid⟩ := List.any_eq_true.mp hp
      obtain ⟨o', ho', hext⟩ := h.kept o ho
      refine List.any_eq_true.mpr ⟨o', ho', ?_⟩
      rwa [hext.kind, hext.id]
    · exact h.find_isSome hp
  case displayLabels | guardrails | agentConfigs =>
    rw [Packs.present, Bool.or_eq_true] at hp ⊢
    exact hp.imp_left h.find_isSome
  all_goals exact h.find_isSome hp

theorem present_of_there (hkind : kind ≠ .memories ∧ kind ≠ .datasets)
    (h : (t.find kind e.name).isSome ∨ kind.default = some e.value) :
    present p bindings kind e t = true := by
  cases kind
  case memories => exact absurd rfl hkind.1
  case datasets => exact absurd rfl hkind.2
  case displayLabels | guardrails | agentConfigs =>
    rw [present, Bool.or_eq_true, decide_eq_true_eq]
    exact h
  all_goals exact h.resolve_right nofun

end Present

/-! ## The data chain -/

/-- The declaration of a dataset resolves to one of the tenant's, or has a file. -/
def Resolves (bindings : List (String × Id)) (t : Tenant) (e : Entry) : Prop :=
  match bindings.lookup e.identity with
  | some id => ∃ o ∈ t.objects, (o.kind = .datasets ∧ o.id = id) ∧
    exposes e.requiredColumns o = true
  | none => e.file ≠ none ∨
      ∃ o, t.find .datasets e.name = some o ∧ exposes e.requiredColumns o = true

section DataChain

variable {p : String} {N : Kind → String → Prop} {prior : List Row}
  {bindings : List (String × Id)} {t₀ t : Tenant} {e : Entry}

theorem bindDataset_tenant (e : Entry) (explicit : Option Id) (t : Tenant) :
    (bindDataset e explicit t).tenant = t := by
  rw [bindDataset]
  split
  · rfl
  · split <;> rfl

theorem bindDataset_found {explicit : Option Id} {o : Obj}
    (hds : boundTo e explicit t = some o) (ho : exposes e.requiredColumns o = true) :
    (bindDataset e explicit t).id = some o.id := by
  rw [bindDataset, hds]
  dsimp only
  rw [if_pos ho]

theorem dataset_resolved (hg : Grows p N t₀ t) (hres : Resolves bindings t₀ e) :
    let explicit := bindings.lookup e.identity
    let a := if explicit.isSome ∨ e.file = none then bindDataset e explicit t
      else ensureDataset p e t
    a.id.isSome ∧ present p bindings .datasets e a.tenant = true := by
  intro explicit a
  rw [Resolves] at hres
  split at hres
  · next id hid =>
    obtain ⟨o, ho, ⟨hkind, hoid⟩, hexp⟩ := hres
    obtain ⟨o', ho', hext⟩ := hg.kept o ho
    have hsome : explicit.isSome ∨ e.file = none := .inl (by rw [show explicit = _ from hid]; rfl)
    have hfind : boundTo e (some id) t = some o' := by
      rw [boundTo]
      cases hf : t.objects.find? fun o => decide (o.kind = .datasets ∧ o.id = id) with
      | none =>
        have hno := List.find?_eq_none.mp hf o' ho'
        rw [decide_eq_true_eq, hext.kind, hext.id] at hno
        exact absurd ⟨hkind, hoid⟩ hno
      | some o'' =>
        have hp := List.find?_some hf
        rw [decide_eq_true_eq] at hp
        have hsame : o''.id = o'.id := by rw [hp.2, hext.id, hoid]
        rw [Obj.id, Obj.id, hp.1, hext.kind, hkind] at hsame
        rw [Tenant.eq_of_uuid ho' (List.mem_of_find?_eq_some hf) (Id.uuid.inj hsame)]
    have hexp' : exposes e.requiredColumns o' = true := by
      rw [exposes, hext.details (by rw [hkind]; rfl)]
      exact hexp
    have ha : a = bindDataset e (some id) t := (if_pos hsome).trans (by rw [← hid])
    refine ⟨?_, ?_⟩
    · rw [ha, bindDataset_found hfind hexp']
      rfl
    · rw [ha, bindDataset_tenant, present, hid]
      refine List.any_eq_true.mpr ⟨o', ho', decide_eq_true ?_⟩
      rw [hext.kind, hext.id]
      exact ⟨hkind, hoid⟩
  · next hid =>
    have hnot : explicit.isSome = false := by rw [show explicit = _ from hid]; rfl
    have hpresent : ∀ t' : Tenant, (t'.find .datasets e.name).isSome →
        present p bindings .datasets e t' = true := by
      intro t' ht'
      rw [present, hid]
      exact ht'
    by_cases hfile : e.file = none
    · obtain ⟨o, ho, hexp⟩ := hres.resolve_left (absurd hfile)
      have hfind : boundTo e none t = some o := hg.find .datasets e.name o rfl ho
      have ha : a = bindDataset e none t := (if_pos (.inr hfile)).trans (by rw [← hid])
      refine ⟨?_, hpresent _ ?_⟩
      · rw [ha, bindDataset_found hfind hexp]
        rfl
      · rw [ha, bindDataset_tenant, show t.find .datasets e.name = some o from hfind]
        rfl
    · have ha : a = ensureDataset p e t := if_neg
          (by rw [hnot]; exact fun h => hfile (by simpa using h))
      obtain ⟨o, hfind, hoid⟩ := ensureNamed_find p .datasets e.name (.columns e.file) t
      refine ⟨?_, hpresent _ ?_⟩
      · rw [ha, ensureDataset, hoid]
        rfl
      · rw [ha, ensureDataset, hfind]
        rfl

theorem createCases_spec (bindings : List (String × Id)) (ds : Id) (es : List Entry) (t : Tenant) :
    Grows p N t (createCases p ds es t).1 ∧
      ∀ e ∈ es, present p bindings .cases e (createCases p ds es t).1 = true := by
  induction es generalizing t with
  | nil => exact ⟨.refl t, nofun⟩
  | cons e es ih =>
    rw [createCases]
    split
    · next hfound =>
      obtain ⟨hgrows, hrest⟩ := ih t
      exact ⟨hgrows, List.forall_mem_cons.mpr ⟨hgrows.present hfound, hrest⟩⟩
    · obtain ⟨hgrows, hrest⟩ := ih (t.insert .cases e.name (.rowOf ds) p)
      have hinsert : Grows p N t (t.insert .cases e.name (.rowOf ds) p) := grows_insert nofun
      refine ⟨hinsert.trans hgrows, List.forall_mem_cons.mpr ⟨hgrows.present ?_, hrest⟩⟩
      exact Tenant.find_isSome.mpr ⟨_, Tenant.mem_insert.mpr (.inr rfl), rfl, rfl⟩

theorem held_insert_memory (name content : String) (tags : List String) :
    Held p (t.insert .memories content (.tags tags) p) name (.memories, .uuid t.next) where
  issued n hn := by
    cases hn
    exact Nat.lt_succ_self _
  keyed h := nomatch h
  owned o ho hx := by
    refine ⟨?_, fun h => absurd rfl h⟩
    rcases Tenant.mem_insert.mp ho with ho | rfl
    · obtain ⟨hkind, hid⟩ := Prod.mk.inj hx
      rw [Obj.id, hkind] at hid
      exact absurd (Id.uuid.inj hid) (Nat.ne_of_lt (t.issued o ho))
    · exact List.mem_singleton.mpr rfl

theorem ensureMemories_spec (name tag : String) (listed : List Obj) (es : List Entry) (t : Tenant) :
    let out := ensureMemories p tag listed es t
    Grows p N t out.1 ∧ (∀ id ∈ out.2, Held p out.1 name (.memories, id)) ∧
      ∀ e ∈ es, listed.any (isMemory tag e.name) = true ∨
        out.1.objects.any (isMemory tag e.name) = true := by
  induction es generalizing t with
  | nil => exact ⟨.refl t, nofun, nofun⟩
  | cons e es ih =>
    rw [ensureMemories]
    split
    · next hlisted =>
      obtain ⟨hgrows, hheld, hrest⟩ := ih t
      exact ⟨hgrows, hheld, List.forall_mem_cons.mpr ⟨.inl hlisted, hrest⟩⟩
    · obtain ⟨hgrows, hheld, hrest⟩ := ih (t.insert .memories e.name (.tags (tag :: e.tags)) p)
      have hinsert : Grows p N t (t.insert .memories e.name (.tags (tag :: e.tags)) p) :=
        grows_insert nofun
      refine ⟨hinsert.trans hgrows, ?_, List.forall_mem_cons.mpr ⟨.inr ?_, hrest⟩⟩
      · intro id hid
        rcases List.mem_cons.mp hid with rfl | hid
        · exact (held_insert_memory name e.name (tag :: e.tags)).grows hgrows (.inl rfl)
        · exact hheld id hid
      · obtain ⟨o', ho', hext⟩ := hgrows.kept _ (Tenant.mem_insert.mpr (.inr rfl))
        refine List.any_eq_true.mpr ⟨o', ho', isMemory_extends hext ?_⟩
        simp [isMemory]

end DataChain

/-! ## One step of an install -/

section Steps

variable {p : String} {N : Kind → String → Prop} {prior : List Row}
  {bindings : List (String × Id)} {t₀ : Tenant} {x : Progress} {e : Entry}

theorem continues_installDataset (hg : Grows p N t₀ x.tenant) :
    Continues p N prior x (installDataset p bindings x e) ∧ (Resolves bindings t₀ e →
      ((installDataset p bindings x e).datasetUrns.lookup e.identity).isSome ∧
        present p bindings .datasets e (installDataset p bindings x e).tenant = true) := by
  have hres := fun h : Resolves bindings t₀ e => dataset_resolved (p := p) hg h
  rw [installDataset]
  dsimp only at hres ⊢
  generalize ha : (if (bindings.lookup e.identity).isSome = true ∨ e.file = none then
    bindDataset e (bindings.lookup e.identity) x.tenant
    else ensureDataset p e x.tenant) = a at hres ⊢
  have hgrows : Grows p N x.tenant a.tenant := by
    rw [← ha]
    split
    · rw [bindDataset_tenant]
      exact .refl _
    · exact ensureNamed_grows nofun
  refine ⟨⟨hgrows, fun id hid => ?_, fun r hr => ?_⟩, fun h => ?_⟩
  · dsimp only
    split
    · rw [List.lookup_cons]
      split
      · rfl
      · exact hid
    · exact hid
  · rcases List.mem_append.mp hr with hr | hr
    · exact .inl hr
    · cases List.mem_singleton.mp hr
      exact .inr ⟨rfl, rowHeld_of_not_reversible rfl⟩
  · obtain ⟨hid, hpresent⟩ := hres h
    refine ⟨?_, hpresent⟩
    obtain ⟨id, hid⟩ := Option.isSome_iff_exists.mp hid
    rw [hid]
    dsimp only
    rw [List.lookup_cons, beq_self_eq_true]
    rfl

/-- The drafts are looked up by a name, and what came of the call is recorded in other words. -/
theorem continues_draft {details : Details} {f : Tenant → Answer} {name : String}
    (hkind : kind = .semanticModels ∨ kind = .verifiedQueries)
    (hf : (f x.tenant).tenant = (ensureNamed p kind e.name details x.tenant).tenant) :
    Continues p N prior x (x.call f kind name) ∧
      present p bindings kind e (x.call f kind name).tenant = true := by
  have hirr : kind.isReversible = false ∧ kind.keyed = false ∧ kind ≠ .memories ∧
      kind ≠ .datasets := by
    rcases hkind with rfl | rfl <;> decide
  obtain ⟨hrev, hkeyed, hnamed⟩ := hirr
  have hdoes : Does p N prior kind e x.tenant (f x.tenant) := by
    refine ⟨?_, rowHeld_of_not_reversible hrev, .inl ?_⟩
    · rw [hf]
      exact ensureNamed_grows fun h => (nomatch hkeyed.symm.trans h)
    · obtain ⟨o, ho, -⟩ := ensureNamed_find p kind e.name details x.tenant
      rw [hf, ho]
      rfl
  exact ⟨.of_row hdoes.grows rfl (rowHeld_of_not_reversible hrev),
    present_of_there hnamed hdoes.there⟩

theorem semanticDraft_tenant (t : Tenant) : (semanticDraft p e t).tenant =
    (ensureNamed p .semanticModels e.name (.ready false) t).tenant := by
  rw [semanticDraft, ensureNamed]
  cases t.find .semanticModels e.name <;> rfl

theorem verifiedQuery_tenant (t : Tenant) : (verifiedQuery p e t).tenant =
    (ensureNamed p .verifiedQueries e.name .plain t).tenant := by
  rw [verifiedQuery, ensureNamed]
  cases t.find .verifiedQueries e.name <;> rfl

theorem does_named {t : Tenant} (hg : Grows p N t₀ t)
    (hkind : kind = .savedQueries ∨ kind = .pipelines ∨ kind = .dashboards)
    (hclear : Clear p prior t₀ kind e) :
    Does p N prior kind e t (ensureNamed p kind e.name .plain t) := by
  rcases hkind with rfl | rfl | rfl
  all_goals
    exact ensureNamed_does hg nofun nofun
      fun hrev o ho hk hkey => hclear o ho ⟨hkey, hk, hrev⟩

theorem continues_installCases (bindings : List (String × Id)) (c : Component) :
    Continues p N prior x (installCases p x c) ∧ ((x.datasetUrns.lookup c.dataset).isSome →
      ∀ e ∈ c.entries, present p bindings .cases e (installCases p x c).tenant = true) := by
  rw [installCases]
  split
  · next hnone =>
    refine ⟨.of_row (.refl _) rfl (rowHeld_of_not_reversible rfl), fun h => ?_⟩
    rw [hnone] at h
    cases h
  · next ds _ =>
    obtain ⟨hgrows, hpresent⟩ := createCases_spec (p := p) (N := N) bindings ds c.entries x.tenant
    exact ⟨.of_row hgrows rfl (rowHeld_of_not_reversible rfl), fun _ => hpresent⟩

theorem continues_installPipeline (bindings : List (String × Id)) (hg : Grows p N t₀ x.tenant)
    (hclear : Clear p prior t₀ .pipelines e) :
    Continues p N prior x (installPipeline p x e) ∧ ((x.datasetUrns.lookup e.dataset).isSome →
      present p bindings .pipelines e (installPipeline p x e).tenant = true) := by
  rw [installPipeline]
  split
  · next hnone =>
    refine ⟨.of_row (.refl _) rfl ?_, fun h => ?_⟩
    · exact rowHeld_of_held nofun nofun
    · rw [hnone] at h
      cases h
  · have hdoes : Does p N prior .pipelines e x.tenant (ensurePipeline p e x.tenant) :=
      does_named hg (.inr (.inl rfl)) hclear
    exact ⟨.call hdoes, fun _ => present_of_there (by decide) hdoes.there⟩

theorem continues_installMemories (c : Component) : Continues p N prior x (installMemories p x c) ∧
      ∀ e ∈ c.entries, present p bindings .memories e (installMemories p x c).tenant = true := by
  obtain ⟨hgrows, hheld, hall⟩ := ensureMemories_spec (p := p) (N := N) c.identity (sourceTag p)
    x.tenant.objects c.entries x.tenant
  rw [installMemories]
  refine ⟨⟨hgrows, fun _ h => h, fun r hr => ?_⟩, fun e he => ?_⟩
  · rcases List.mem_append.mp hr with hr | hr
    · exact .inl hr
    · right
      split at hr
      · cases List.mem_singleton.mp hr
        exact ⟨rfl, rowHeld_of_held nofun nofun⟩
      · obtain ⟨id, hid, rfl⟩ := List.mem_map.mp hr
        refine ⟨rfl, rowHeld_of_held nofun fun id' hid' => ?_⟩
        cases hid'
        exact hheld id hid
  · rcases hall e he with hlisted | hthere
    · have hbefore : present p bindings .memories e x.tenant = true := hlisted
      exact hgrows.present hbefore
    · exact hthere

end Steps

end Windrose.Packs

/-
  Identity/SigningKeys.lean --- the rotation of the signing keys.

  Source: services/identity-service/internal: keys/keys.go (KeyManager),
  domain/token.go (TokenTTL, ClockSkew), store/postgres/postgres.go (ListSigningKeys,
  UpdateSigningKey).

  The processes share the registry; each reads its own copy, as old as its last refresh.
  A rotation saves its key and then retires the older ones, one write at a time.  It may
  stop at any write; the next begins after it, at another reading of the clock.
-/
import Mathlib.Data.Finset.Max
import Mathlib.Data.List.Sort
import Windrose.Foundation.Runs

set_option autoImplicit false

namespace Windrose.Identity

open Windrose.Foundation

/-- In nanoseconds. -/
def minute : Int := 60000000000

/-- `TokenTTL`. -/
def tokenTTL : Int := 5 * minute

/-- `ClockSkew`. -/
def clockSkew : Int := minute

def overlapLead : Int := 10 * minute

/-- A row of `signing_keys`. -/
structure SigningKey (κ : Type) where
  kid : κ
  notBefore : Int
  retiredAt : Option Int

variable {κ : Type} [DecidableEq κ]

/-! ## A copy of the registry -/

def SigningKey.retired (now : Int) (k : SigningKey κ) : Bool := k.retiredAt.any (· ≤ now)

/-- A turn of the loop of `SigningKey`: among keys of one instant the preferred one. -/
def pick (preferredKID : Option κ) (best k : SigningKey κ) : SigningKey κ :=
  if best.notBefore < k.notBefore ∨ best.notBefore = k.notBefore ∧ some k.kid = preferredKID then k
  else best

/-- `SigningKey`. -/
def signingKey (preferredKID : Option κ) (now : Int) (cache : List (SigningKey κ)) :
    Option (SigningKey κ) :=
  match cache.filter fun k => k.notBefore ≤ now && !k.retired now with
  | [] => none
  | k :: ks => some (ks.foldl (pick preferredKID) k)

/-- `VerificationKey`. -/
def verificationKey (now : Int) (cache : List (SigningKey κ)) (kid : κ) : Option (SigningKey κ) :=
  (cache.find? (·.kid = kid)).filter (!·.retired now)

/-- `JWKS`. -/
def jwks (now : Int) (cache : List (SigningKey κ)) : List (SigningKey κ) :=
  cache.filter (!·.retired now)

theorem foldl_pick (preferredKID : Option κ) (k : SigningKey κ) (ks : List (SigningKey κ)) :
    ks.foldl (pick preferredKID) k ∈ k :: ks ∧
      ∀ j ∈ k :: ks, j.notBefore ≤ (ks.foldl (pick preferredKID) k).notBefore := by
  induction ks generalizing k with
  | nil => simp
  | cons x ks ih =>
    have hpick : (pick preferredKID k x = k ∨ pick preferredKID k x = x) ∧
        k.notBefore ≤ (pick preferredKID k x).notBefore ∧
        x.notBefore ≤ (pick preferredKID k x).notBefore := by
      unfold pick
      split
      · exact ⟨.inr rfl, by omega, le_rfl⟩
      · exact ⟨.inl rfl, le_rfl, by omega⟩
    obtain ⟨hmem, hmax⟩ := ih (pick preferredKID k x)
    obtain ⟨hbest, hrest⟩ := List.forall_mem_cons.mp hmax
    refine ⟨?_, List.forall_mem_cons.mpr ⟨hpick.2.1.trans hbest, List.forall_mem_cons.mpr
      ⟨hpick.2.2.trans hbest, hrest⟩⟩⟩
    rcases List.mem_cons.mp hmem with heq | hmem
    · rw [List.foldl_cons, heq]
      rcases hpick.1 with h | h <;> simp [h]
    · exact List.mem_cons_of_mem k (List.mem_cons_of_mem x hmem)

theorem signingKey_spec (preferredKID : Option κ) {now : Int} {cache : List (SigningKey κ)}
    {k : SigningKey κ} (hk : k ∈ cache) (hnow : k.notBefore ≤ now) (hlive : k.retired now = false) :
    ∃ b ∈ signingKey preferredKID now cache, b ∈ cache ∧ b.notBefore ≤ now ∧
      k.notBefore ≤ b.notBefore := by
  have hmem : k ∈ cache.filter fun k => k.notBefore ≤ now && !k.retired now := by
    simp [hk, hnow, hlive]
  unfold signingKey
  split
  · next hnil => simp [hnil] at hmem
  · next j ks hcons =>
    obtain ⟨hfrom, hmax⟩ := foldl_pick preferredKID j ks
    have hbest := List.mem_filter.mp (hcons ▸ hfrom)
    exact ⟨_, rfl, hbest.1, by simp_all, hmax k (hcons ▸ hmem)⟩

/-! ## The registry -/

/-- A `Rotate` under way: the keys that it has still to retire. -/
structure Rotation (κ : Type) where
  retireAt : Int
  pending : List (SigningKey κ)

/-- The stored keys and a rotation under way. -/
structure Registry (κ : Type) where
  keys : List (SigningKey κ)
  rotation : Option (Rotation κ)

/-- A write of `Rotate`. -/
inductive Write (κ : Type) where
  /-- the new key is saved and the keys are listed -/
  | rotate (kid : κ)
  /-- the next key is updated -/
  | update
  /-- `Rotate` returns an error -/
  | fail

namespace Registry

/-- `Bootstrap` over an empty registry. -/
def boot (now : Int) (kid : κ) : Registry κ := ⟨[⟨kid, now, none⟩], none⟩

def list (g : Registry κ) : List (SigningKey κ) :=
  g.keys.insertionSort fun j k => j.notBefore ≤ k.notBefore

/-- A turn of the loop of `Rotate`. -/
def update (g : Registry κ) : Registry κ :=
  match g.rotation with
  | some ⟨retireAt, k :: pending⟩ =>
    ⟨g.keys.map fun j => if j.kid = k.kid then { j with retiredAt := some retireAt } else j,
      some ⟨retireAt, pending⟩⟩
  | _ => g

/-- One step. -/
def step (g : Registry κ) (a : Int × Write κ) : Registry κ :=
  match a.2 with
  | .rotate kid =>
    let notBefore := a.1 + overlapLead
    let saved : Registry κ := { g with keys := g.keys ++ [⟨kid, notBefore, none⟩] }
    ⟨saved.keys, some ⟨notBefore + (tokenTTL + clockSkew),
      saved.list.filter fun k => k.kid ≠ kid ∧ k.retiredAt = none⟩⟩
  | .update => g.update
  | .fail => { g with rotation := none }

/-- A rotation has a new id, signs later than every key, and begins after the last. -/
def Allowed (g : Registry κ) (a : Int × Write κ) : Prop :=
  ∀ kid, a.2 = .rotate kid →
    (∀ k ∈ g.keys, k.kid ≠ kid ∧ k.notBefore < a.1 + overlapLead) ∧ ∀ r ∈ g.rotation, r.pending = []

/-- The ids of the keys, and from when on they sign. -/
def schedule (g : Registry κ) : List (κ × Int) := g.keys.map fun k => (k.kid, k.notBefore)

/-- At the instant the keys are retired that a later key follows. -/
def Follows (schedule : List (κ × Int)) (notBefore instant : Int) : Prop :=
  ∃ e ∈ schedule, notBefore < e.2 ∧ instant = e.2 + (tokenTTL + clockSkew)

/-- The invariant of the registry. -/
structure Good (g : Registry κ) : Prop where
  nodup : (g.schedule.map Prod.fst).Nodup
  retires : ∀ k ∈ g.keys, ∀ r ∈ k.retiredAt, Follows g.schedule k.notBefore r
  pending : ∀ r ∈ g.rotation, ∀ k ∈ r.pending, ∀ e ∈ g.schedule, e.1 = k.kid →
    Follows g.schedule e.2 r.retireAt

variable {g : Registry κ} {a : Int × Write κ}

theorem schedule_update (g : Registry κ) : g.update.schedule = g.schedule := by
  unfold update
  split
  · simp only [schedule, List.map_map]
    refine List.map_congr_left fun j _ => ?_
    simp only [Function.comp_apply]
    split <;> rfl
  · rfl

theorem schedule_run (g : Registry κ) (ws : List (Int × Write κ)) :
    g.schedule ⊆ (run step g ws).schedule ∧ ∀ e ∈ (run step g ws).schedule,
      e ∈ g.schedule ∨ ∃ a ∈ ws, e.2 = a.1 + overlapLead := by
  induction ws generalizing g with
  | nil => exact ⟨List.Subset.refl _, fun _ => .inl⟩
  | cons a ws ih =>
    have hstep : g.schedule ⊆ (g.step a).schedule ∧ ∀ e ∈ (g.step a).schedule,
        e ∈ g.schedule ∨ e.2 = a.1 + overlapLead := by
      obtain ⟨t, w⟩ := a
      cases w with
      | rotate kid =>
        simp only [step, schedule, List.map_append]
        refine ⟨List.subset_append_left _ _, fun e he => (List.mem_append.mp he).imp_right ?_⟩
        simp only [List.map_cons, List.map_nil, List.mem_singleton]
        rintro rfl
        rfl
      | update =>
        rw [step, schedule_update]
        exact ⟨List.Subset.refl _, fun _ => .inl⟩
      | fail => exact ⟨List.Subset.refl _, fun _ => .inl⟩
    obtain ⟨hkept, hfrom⟩ := ih (g.step a)
    refine ⟨List.Subset.trans hstep.1 hkept, fun e he => ?_⟩
    rcases hfrom e he with h | ⟨b, hb, h⟩
    · exact (hstep.2 e h).imp_right fun h => ⟨a, List.mem_cons_self, h⟩
    · exact .inr ⟨b, List.mem_cons_of_mem a hb, h⟩

theorem Good.update (h : Good g) : Good g.update := by
  refine ⟨schedule_update g ▸ h.nodup, ?_, ?_⟩ <;> rw [schedule_update] <;> unfold Registry.update
  all_goals split
  · next r k pending hrotation =>
    intro j hj
    obtain ⟨i, hi, rfl⟩ := List.mem_map.mp hj
    split
    · next hkid =>
      rintro _ ⟨⟩
      exact h.pending _ hrotation k List.mem_cons_self _ (List.mem_map_of_mem hi) hkid
    · exact h.retires i hi
  · exact h.retires
  · next r k pending hrotation =>
    rintro _ ⟨⟩ j hj
    exact h.pending _ hrotation j (List.mem_cons_of_mem k hj)
  · exact h.pending

theorem Good.rotate (h : Good g) {t : Int} {kid : κ} (ha : Allowed g (t, .rotate kid)) :
    Good (g.step (t, .rotate kid)) := by
  have hschedule : (g.step (t, .rotate kid)).schedule = g.schedule ++ [(kid, t + overlapLead)] :=
    List.map_append
  have hearlier : ∀ e ∈ g.schedule, e.1 ≠ kid ∧ e.2 < t + overlapLead := by
    intro e he
    obtain ⟨k, hk, rfl⟩ := List.mem_map.mp he
    exact (ha kid rfl).1 k hk
  constructor <;> rw [hschedule]
  · rw [List.map_append]
    refine List.nodup_append.mpr ⟨h.nodup, List.nodup_singleton kid, ?_⟩
    rintro _ hid _ hkid rfl
    obtain ⟨e, he, rfl⟩ := List.mem_map.mp hid
    exact (hearlier e he).1 (List.mem_singleton.mp hkid)
  · intro k hk r hr
    rcases List.mem_append.mp hk with hk | hk
    · obtain ⟨e, he, hrest⟩ := h.retires k hk r hr
      exact ⟨e, List.mem_append_left _ he, hrest⟩
    · cases List.mem_singleton.mp hk
      cases hr
  · rintro _ ⟨⟩ k hk e he hkid
    rcases List.mem_append.mp he with he | he
    · exact ⟨_, List.mem_append_right _ (List.mem_singleton_self _), (hearlier e he).2, rfl⟩
    · simp_all

theorem Good.run (h : Good g) {ws : List (Int × Write κ)} (hall : Each step Allowed g ws) :
    Good (run step g ws) := by
  refine always_of_each (fun g a h ha => ?_) h hall ws List.prefix_rfl
  obtain ⟨t, w⟩ := a
  cases w with
  | rotate kid => exact h.rotate ha
  | update => exact h.update
  | fail => exact { h with pending := by simp [step] }

/-! ## Tokens -/

/-- The schedule of a copy that has each key in use at an instant. -/
structure Knows (schedule : List (κ × Int)) (s : Int) (cache : List (SigningKey κ)) : Prop where
  all : ∀ e ∈ schedule, e.2 ≤ s → ∃ k ∈ cache, (k.kid, k.notBefore) = e
  only : ∀ k ∈ cache, (k.kid, k.notBefore) ∈ schedule ∧
    ∀ r ∈ k.retiredAt, Follows schedule k.notBefore r

variable {schedule : List (κ × Int)} {s : Int} {cache : List (SigningKey κ)}

omit [DecidableEq κ] in
theorem Knows.live (h : Knows schedule s cache) {k : SigningKey κ} (hk : k ∈ cache)
    (hnewest : ∀ e ∈ schedule, e.2 ≤ s → e.2 ≤ k.notBefore) {now : Int}
    (hnow : now ≤ s + (tokenTTL + clockSkew)) : k.retired now = false := by
  by_contra hretired
  obtain ⟨r, hr, hdue⟩ : ∃ r ∈ k.retiredAt, r ≤ now := by
    simpa [SigningKey.retired, Option.any_eq_true] using hretired
  obtain ⟨e, he, hlater, rfl⟩ := (h.only k hk).2 r hr
  have hle := hnewest e he (by omega)
  omega

theorem Knows.signs (h : Knows schedule s cache) (hstart : ∃ e ∈ schedule, e.2 ≤ s)
    (preferredKID : Option κ) : ∃ k ∈ signingKey preferredKID s cache,
      (k.kid, k.notBefore) ∈ schedule ∧ k.notBefore ≤ s ∧
      ∀ e ∈ schedule, e.2 ≤ s → e.2 ≤ k.notBefore := by
  obtain ⟨e₀, he₀, hle₀⟩ := hstart
  obtain ⟨e, he, hmax⟩ := (schedule.toFinset.filter (·.2 ≤ s)).exists_max_image Prod.snd
    ⟨e₀, by simp [he₀, hle₀]⟩
  simp only [Finset.mem_filter, List.mem_toFinset] at he hmax
  obtain ⟨k, hk, rfl⟩ := h.all e he.1 he.2
  have hlive := h.live hk (fun e he hle => hmax e ⟨he, hle⟩)
      (Int.le_add_of_nonneg_right (by decide))
  obtain ⟨b, hb, hmem, hnow, hle⟩ := signingKey_spec preferredKID hk he.2 hlive
  exact ⟨b, hb, (h.only b hmem).1, hnow, fun e he hnow => (hmax e ⟨he, hnow⟩).trans hle⟩

theorem Knows.verifies (h : Knows schedule s cache) (hnodup : (schedule.map Prod.fst).Nodup)
    {kid : κ} {notBefore now : Int} (he : (kid, notBefore) ∈ schedule) (hs : notBefore ≤ s)
    (hnewest : ∀ e ∈ schedule, e.2 ≤ s → e.2 ≤ notBefore)
    (hnow : now ≤ s + (tokenTTL + clockSkew)) :
    (verificationKey now cache kid).isSome ∧ ∃ k ∈ jwks now cache, k.kid = kid := by
  obtain ⟨k, hk, heq⟩ := h.all _ he hs
  have hfind : (cache.find? (·.kid = kid)).isSome := by simpa using ⟨k, hk, congrArg Prod.fst heq⟩
  obtain ⟨j, hj⟩ := Option.isSome_iff_exists.mp hfind
  have hmem := List.mem_of_find?_eq_some hj
  have hkid : j.kid = kid := by simpa using List.find?_some hj
  obtain ⟨rfl, rfl⟩ := Prod.mk.inj (List.inj_on_of_nodup_map hnodup (h.only j hmem).1 he hkid)
  have hlive := h.live hmem hnewest hnow
  exact ⟨by simp [verificationKey, hj, Option.filter_some, hlive], j,
    by simp [jwks, hmem, hlive], rfl⟩

/-- The copy lacks only writes that are younger at the instant than the lead. -/
def Fresh (ws : List (Int × Write κ)) (s : Int) (as : List (Int × Write κ)) : Prop :=
  ∃ rest, as ++ rest = ws ∧ ∀ a ∈ rest, s < a.1 + overlapLead

theorem Fresh.knows {g : Registry κ} {ws as : List (Int × Write κ)}
    (hall : Each step Allowed g ws) (hg : g.Good) (h : Fresh ws s as) :
    Knows (run step g ws).schedule s (run step g as).list := by
  obtain ⟨rest, rfl, hrest⟩ := h
  have hgood := hg.run fun done a hd => hall done a (hd.trans (List.prefix_append as rest))
  rw [run_append]
  obtain ⟨hsub, hfrom⟩ := (run step g as).schedule_run rest
  constructor
  · intro e he hs
    rcases hfrom e he with he | ⟨a, ha, hlead⟩
    · obtain ⟨k, hk, rfl⟩ := List.mem_map.mp he
      exact ⟨k, (List.mem_insertionSort _).mpr hk, rfl⟩
    · exact absurd (hrest a ha) (by omega)
  · intro k hk
    have hk := (List.mem_insertionSort _).mp hk
    refine ⟨hsub (List.mem_map_of_mem hk), fun r hr => ?_⟩
    obtain ⟨e, he, hfollows⟩ := hgood.retires k hk r hr
    exact ⟨e, hsub he, hfollows⟩

/-- Wherever rotations stop, each process with a fresh copy signs, and what it signs each
verifies whose copy is fresh as of the signing, as long as the token lives. -/
theorem tokens_verify {start s s' : Int} {first : κ} {ws as cs : List (Int × Write κ)}
    (hall : Each step Allowed (boot start first) ws) (hstart : start ≤ s)
    (has : Fresh ws s as) (hcs : Fresh ws s cs) (hlive : s' ≤ s + (tokenTTL + clockSkew))
    (preferredKID : Option κ) :
    ∃ k ∈ signingKey preferredKID s (run step (boot start first) as).list,
      (verificationKey s' (run step (boot start first) cs).list k.kid).isSome ∧
      ∃ j ∈ jwks s' (run step (boot start first) cs).list, j.kid = k.kid := by
  have hboot : Good (boot start first) :=
    ⟨List.nodup_singleton first, by simp [boot], by simp [boot]⟩
  obtain ⟨hsub, -⟩ := (boot start first).schedule_run ws
  obtain ⟨k, hk, hmem, hnow, hnewest⟩ := (has.knows hall hboot).signs
    ⟨(first, start), hsub (List.mem_singleton_self _), hstart⟩ preferredKID
  exact ⟨k, hk, (hcs.knows hall hboot).verifies (hboot.run hall).nodup hmem hnow hnewest hlive⟩

/-- Of two processes the second has not read the rotation. -/
theorem tokens_verify_two : ∃ k ∈ signingKey none (5 * minute)
      (run step (boot 0 0) [(0, .rotate 1), (0, .update)]).list,
    (verificationKey (11 * minute) (run step (boot 0 0) []).list k.kid).isSome ∧
      ∃ j ∈ jwks (11 * minute) (run step (boot 0 0) []).list, j.kid = k.kid :=
  @tokens_verify Nat _ 0 _ _ 0 [(0, .rotate 1), (0, .update)] _ _
    (by simp [each_cons, each_nil, Allowed, step, boot, update, list, overlapLead, minute])
    (by decide) ⟨[], rfl, by decide⟩ ⟨_, rfl, by decide⟩ (by decide) none

end Registry

end Windrose.Identity

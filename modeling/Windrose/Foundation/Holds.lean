/-
  Foundation/Holds.lean --- sums over a dictionary, and accounts with holds.

  `total f d` adds `f` over the values of a dictionary and `count p d` counts those with
  `p`; the lemmas say how both move under the operations of a dictionary.

  An account has spent something and holds amounts for what may still be spent.  `Within`
  says that both together stay under its limit.
-/
import Mathlib.Algebra.Ring.Int.Defs
import Mathlib.Data.List.AList
import Mathlib.Algebra.Order.BigOperators.Group.List

set_option autoImplicit false

namespace Windrose.Foundation

/-- A dictionary. -/
abbrev Dict (κ ν : Type) : Type := AList fun _ : κ => ν

namespace Dict

variable {κ ν : Type}

/-- The values. -/
def values (d : Dict κ ν) : List ν := d.entries.map (·.2)

/-- The entries with `p`. -/
def filter (p : κ → ν → Bool) (d : Dict κ ν) : Dict κ ν :=
  ⟨d.entries.filter fun e => p e.1 e.2, d.nodupKeys.sublist List.filter_sublist⟩

/-- The sum of `f` over the values. -/
def total (f : ν → Int) (d : Dict κ ν) : Int := (d.values.map f).sum

@[simp] theorem total_empty (f : ν → Int) : total f (∅ : Dict κ ν) = 0 := rfl

theorem values_filter_sublist (p : κ → ν → Bool) (d : Dict κ ν) :
    (d.filter p).values.Sublist d.values := List.filter_sublist.map _

variable {d : Dict κ ν}

variable {f : ν → Int}

theorem total_filter_le (hf : ∀ v ∈ d.values, 0 ≤ f v)
    (p : κ → ν → Bool) : total f (d.filter p) ≤ total f d :=
  List.Sublist.sum_le_sum ((values_filter_sublist p d).map f) (by simpa using hf)

theorem total_nonneg (hf : ∀ v ∈ d.values, 0 ≤ f v) : 0 ≤ total f d :=
  List.sum_nonneg (by simpa using hf)

variable [DecidableEq κ]

variable {v : ν}

theorem lookup_of_mem_values {d : Dict κ ν} (h : v ∈ d.values) : ∃ k, d.lookup k = some v := by
  obtain ⟨⟨k, w⟩, he, rfl⟩ := List.mem_map.mp h
  exact ⟨k, AList.mem_lookup_iff.mpr he⟩

variable {k : κ}

theorem lookup_of_filter {p : κ → ν → Bool} {d : Dict κ ν}
    (h : (d.filter p).lookup k = some v) : d.lookup k = some v :=
  AList.mem_lookup_iff.mpr (List.filter_sublist.subset (AList.mem_lookup_iff.mp h))

theorem lookup_filter {p : κ → ν → Bool} {d : Dict κ ν} (h : d.lookup k = some v)
    (hp : p k v = true) : (d.filter p).lookup k = some v :=
  AList.mem_lookup_iff.mpr (List.mem_filter.mpr ⟨AList.mem_lookup_iff.mp h, hp⟩)

theorem lookup_eq_some :
    d.lookup k = some v ↔ (⟨k, v⟩ : Sigma fun _ : κ => ν) ∈ d.entries := AList.mem_lookup_iff

theorem lookup_of_erase {d : Dict κ ν} {a k : κ} (h : (d.erase a).lookup k = some v) :
    d.lookup k = some v :=
  AList.mem_lookup_iff.mpr ((List.kerase_sublist a d.entries).subset (AList.mem_lookup_iff.mp h))

theorem mem_values_erase {d : Dict κ ν} (h : v ∈ values (d.erase k)) : v ∈ d.values := by
  obtain ⟨e, he, rfl⟩ := List.mem_map.mp h
  exact List.mem_map_of_mem ((List.kerase_sublist k d.entries).subset he)

theorem mem_values_insert {d : Dict κ ν} {v w : ν} (h : w ∈ values (d.insert k v)) :
    w = v ∨ w ∈ d.values := by
  rw [values, AList.entries_insert, List.map_cons, List.mem_cons] at h
  exact h.imp_right fun hw => mem_values_erase (k := k) hw

theorem total_insert (f : ν → Int) (d : Dict κ ν) (k : κ) (v : ν) :
    total f (d.insert k v) = f v + total f (d.erase k) := by
  unfold total values
  rw [AList.entries_insert]
  rfl

theorem perm_values_erase {d : Dict κ ν} (h : d.lookup k = some v) :
    d.values.Perm (v :: values (d.erase k)) := by
  have hkey : k ∈ d.entries.keys := AList.lookup_isSome.mp (by rw [h]; rfl)
  obtain ⟨w, l₁, l₂, -, hsplit, herase⟩ := List.exists_of_kerase hkey
  have hw : d.lookup k = some w := AList.mem_lookup_iff.mpr (by rw [hsplit]; simp)
  obtain rfl : v = w := Option.some.inj (h.symm.trans hw)
  have hrest : (d.erase k).entries = l₁ ++ l₂ := herase
  rw [values, values, hsplit, hrest]
  exact List.perm_middle.map _

theorem total_erase {d : Dict κ ν} (h : d.lookup k = some v) :
    total f d = f v + total f (d.erase k) :=
  ((perm_values_erase h).map f).sum_eq

theorem total_erase_le (hf : ∀ v ∈ d.values, 0 ≤ f v) (k : κ) :
    total f (d.erase k) ≤ total f d :=
  List.Sublist.sum_le_sum (((List.kerase_sublist k d.entries).map _).map f) (by simpa using hf)

/-! ### Counting -/

/-- The values with `p`. -/
def count (p : ν → Bool) (d : Dict κ ν) : Nat := d.values.countP p

omit [DecidableEq κ] in
@[simp] theorem count_empty (p : ν → Bool) : count p (∅ : Dict κ ν) = 0 := rfl

theorem count_erase {p : ν → Bool} {d : Dict κ ν} (h : d.lookup k = some v) :
    count p d = count p (d.erase k) + if p v then 1 else 0 := by
  rw [count, (perm_values_erase h).countP_eq, List.countP_cons]
  rfl

theorem count_insert_new {p : ν → Bool} {d : Dict κ ν} (h : k ∉ d) (v : ν) :
    count p (d.insert k v) = count p d + if p v then 1 else 0 := by
  unfold count values
  rw [AList.insert_of_notMem h]
  simp only [List.map_cons, List.countP_cons]

theorem count_insert {p : ν → Bool} {d : Dict κ ν} {w : ν} (h : d.lookup k = some w)
    (v : ν) : count p (d.insert k v) + (if p w then 1 else 0) =
      count p d + if p v then 1 else 0 := by
  have hinsert : count p (d.insert k v) = count p (d.erase k) + if p v then 1 else 0 := by
    unfold count values
    rw [AList.entries_insert, List.map_cons, List.countP_cons]
    rfl
  have herase := count_erase (p := p) h
  omega

end Dict

/-! ## Accounts with holds -/

open Dict

/-- The holds are no debts, and with what is spent they stay under the limit. -/
structure Within {κ ν : Type} (amount : ν → Int) (limit spent : Int) (d : Dict κ ν) : Prop where
  nonneg : ∀ v ∈ d.values, 0 ≤ amount v
  fits : spent + total amount d ≤ limit

namespace Within

variable {κ ν : Type} {amount : ν → Int} {limit spent : Int} {d : Dict κ ν}

theorem empty (h : 0 ≤ limit) : Within amount limit 0 (∅ : Dict κ ν) := ⟨nofun, by simpa using h⟩

theorem spent_le (h : Within amount limit spent d) : spent ≤ limit := by
  have hheld := total_nonneg h.nonneg
  have hfits := h.fits
  omega

theorem filter (h : Within amount limit spent d) (p : κ → ν → Bool) :
    Within amount limit spent (d.filter p) := by
  have hheld := total_filter_le h.nonneg p
  have hfits := h.fits
  exact ⟨fun v hv => h.nonneg v ((values_filter_sublist p d).subset hv), by omega⟩

variable [DecidableEq κ]

theorem erase (h : Within amount limit spent d) (k : κ) :
    Within amount limit spent (d.erase k) := by
  have hheld := total_erase_le h.nonneg k
  have hfits := h.fits
  exact ⟨fun v hv => h.nonneg v (mem_values_erase hv), by omega⟩

theorem grant (h : Within amount limit spent d) {k : κ} {v : ν} (hv : 0 ≤ amount v)
    (hroom : spent + total amount d + amount v ≤ limit) :
    Within amount limit spent (d.insert k v) := by
  refine ⟨fun w hw => ?_, ?_⟩
  · obtain rfl | hw := mem_values_insert hw
    · exact hv
    · exact h.nonneg w hw
  · have hheld := total_erase_le h.nonneg k
    rw [total_insert]
    omega

theorem settle (h : Within amount limit spent d) {k : κ} {v : ν} {actual : Int}
    (hk : d.lookup k = some v) (hactual : actual ≤ amount v) :
    Within amount limit (spent + actual) (d.erase k) := by
  have hheld := total_erase (f := amount) hk
  have hfits := h.fits
  exact ⟨fun w hw => h.nonneg w (mem_values_erase hw), by omega⟩

end Within

end Windrose.Foundation

/-
  Foundation/JsonTree.lean --- JSON values over any type of numbers.

  Languages read the same text with numbers of their own, so a value is a tree whose
  numbers are a parameter.  What a reader does to the numbers is a `map` or, if it may
  fail, a `traverse`; both leave the order of the fields alone (`sorted_map`), and a map
  is determined by what it does to the numbers that occur (`map_eq_map_iff`).
-/
import Mathlib.Data.List.Perm.Basic
import Mathlib.Data.List.Sort
import Windrose.Foundation.Json

set_option autoImplicit false

namespace Windrose.Foundation

/-- A JSON value; the fields of an object in the order they are written in. -/
inductive JsonTree (ν : Type) where
  | null
  | bool (b : Bool)
  | num (n : ν)
  | str (s : String)
  | arr (vs : List (JsonTree ν))
  | obj (fs : List (String × JsonTree ν))

namespace JsonTree

variable {ν μ κ : Type}

/-! ## Operations -/

mutual

def map (f : ν → μ) : JsonTree ν → JsonTree μ
  | .null => .null
  | .bool b => .bool b
  | .num n => .num (f n)
  | .str s => .str s
  | .arr vs => .arr (mapItems f vs)
  | .obj fs => .obj (mapFields f fs)

def mapItems (f : ν → μ) : List (JsonTree ν) → List (JsonTree μ)
  | [] => []
  | v :: vs => map f v :: mapItems f vs

def mapFields (f : ν → μ) : List (String × JsonTree ν) → List (String × JsonTree μ)
  | [] => []
  | (k, v) :: fs => (k, map f v) :: mapFields f fs

end

mutual

/-- Every number has to be read, or the value is not. -/
def traverse (f : ν → Option μ) : JsonTree ν → Option (JsonTree μ)
  | .null => some .null
  | .bool b => some (.bool b)
  | .num n => (f n).map .num
  | .str s => some (.str s)
  | .arr vs => (traverseItems f vs).map .arr
  | .obj fs => (traverseFields f fs).map .obj

def traverseItems (f : ν → Option μ) : List (JsonTree ν) → Option (List (JsonTree μ))
  | [] => some []
  | v :: vs => (traverse f v).bind fun w => (traverseItems f vs).map (w :: ·)

def traverseFields (f : ν → Option μ) :
    List (String × JsonTree ν) → Option (List (String × JsonTree μ))
  | [] => some []
  | (k, v) :: fs => (traverse f v).bind fun w => (traverseFields f fs).map ((k, w) :: ·)

end

mutual

/-- The numbers that occur. -/
def numbers : JsonTree ν → List ν
  | .null => []
  | .bool _ => []
  | .num n => [n]
  | .str _ => []
  | .arr vs => numbersItems vs
  | .obj fs => numbersFields fs

def numbersItems : List (JsonTree ν) → List ν
  | [] => []
  | v :: vs => numbers v ++ numbersItems vs

def numbersFields : List (String × JsonTree ν) → List ν
  | [] => []
  | (_, v) :: fs => numbers v ++ numbersFields fs

end

/-- The order of two fields, from an order of their names. -/
def fieldLE (le : String → String → Bool) (f g : String × JsonTree ν) : Prop := le f.1 g.1 = true

instance (le : String → String → Bool) : DecidableRel (fieldLE (ν := ν) le) :=
  fun f g => inferInstanceAs (Decidable (le f.1 g.1 = true))

mutual

/-- The fields of every object in an order of their names. -/
def sorted (le : String → String → Bool) : JsonTree ν → JsonTree ν
  | .null => .null
  | .bool b => .bool b
  | .num n => .num n
  | .str s => .str s
  | .arr vs => .arr (sortedItems le vs)
  | .obj fs => .obj ((sortedFields le fs).insertionSort (fieldLE le))

def sortedItems (le : String → String → Bool) : List (JsonTree ν) → List (JsonTree ν)
  | [] => []
  | v :: vs => sorted le v :: sortedItems le vs

def sortedFields (le : String → String → Bool) :
    List (String × JsonTree ν) → List (String × JsonTree ν)
  | [] => []
  | (k, v) :: fs => (k, sorted le v) :: sortedFields le fs

end

mutual

/-- The value with a text for every number. -/
def toJson (text : ν → Number) : JsonTree ν → Json
  | .null => .null
  | .bool b => .bool b
  | .num n => .num (text n)
  | .str s => .str s
  | .arr vs => .arr (toJsonItems text vs)
  | .obj fs => .obj (toJsonFields text fs)

def toJsonItems (text : ν → Number) : List (JsonTree ν) → List Json
  | [] => []
  | v :: vs => toJson text v :: toJsonItems text vs

def toJsonFields (text : ν → Number) : List (String × JsonTree ν) → List (String × Json)
  | [] => []
  | (k, v) :: fs => (k, toJson text v) :: toJsonFields text fs

end

attribute [local grind =] map numbers sorted

/-! ## Induction -/

@[elab_as_elim]
theorem ind {P : JsonTree ν → Prop} (null : P .null) (bool : ∀ b, P (.bool b))
    (num : ∀ n, P (.num n)) (str : ∀ s, P (.str s)) (arr : ∀ vs, (∀ v ∈ vs, P v) → P (.arr vs))
    (obj : ∀ fs, (∀ f ∈ fs, P f.2) → P (.obj fs)) (v : JsonTree ν) : P v :=
  @JsonTree.rec ν P (fun vs => ∀ v ∈ vs, P v) (fun fs => ∀ f ∈ fs, P f.2) (fun f => P f.2)
    null bool num str arr obj
    nofun (fun _ _ hv hvs => List.forall_mem_cons.mpr ⟨hv, hvs⟩)
    nofun (fun _ _ hf hfs => List.forall_mem_cons.mpr ⟨hf, hfs⟩) (fun _ _ hv => hv) v

theorem mapItems_eq (f : ν → μ) (vs : List (JsonTree ν)) : mapItems f vs = vs.map (map f) := by
  induction vs with
  | nil => rfl
  | cons v vs ih => rw [mapItems, ih, List.map_cons]

theorem mapFields_eq (f : ν → μ) (fs : List (String × JsonTree ν)) :
    mapFields f fs = fs.map fun g => (g.1, map f g.2) := by
  induction fs with
  | nil => rfl
  | cons g fs ih => rw [mapFields, ih, List.map_cons]

theorem numbersItems_eq (vs : List (JsonTree ν)) : numbersItems vs = vs.flatMap numbers := by
  induction vs with
  | nil => rfl
  | cons v vs ih => rw [numbersItems, ih, List.flatMap_cons]

theorem numbersFields_eq (fs : List (String × JsonTree ν)) :
    numbersFields fs = fs.flatMap fun f => f.2.numbers := by
  induction fs with
  | nil => rfl
  | cons f fs ih => rw [numbersFields, ih, List.flatMap_cons]

theorem sortedItems_eq (le : String → String → Bool) (vs : List (JsonTree ν)) :
    sortedItems le vs = vs.map (sorted le) := by
  induction vs with
  | nil => rfl
  | cons v vs ih => rw [sortedItems, ih, List.map_cons]

variable {le : String → String → Bool}

theorem sortedFields_eq (fs : List (String × JsonTree ν)) :
    sortedFields le fs = fs.map fun f => (f.1, f.2.sorted le) := by
  induction fs with
  | nil => rfl
  | cons f fs ih => rw [sortedFields, ih, List.map_cons]

/-! ## The numbers of a map -/

theorem numbers_map (f : ν → μ) (v : JsonTree ν) : (v.map f).numbers = v.numbers.map f := by
  induction v using ind with
  | arr vs ih =>
    rw [map, numbers, numbers, mapItems_eq, numbersItems_eq, numbersItems_eq, List.flatMap_map,
      List.map_flatMap]
    exact List.flatMap_congr ih
  | obj fs ih =>
    rw [map, numbers, numbers, mapFields_eq, numbersFields_eq, numbersFields_eq, List.flatMap_map,
      List.map_flatMap]
    exact List.flatMap_congr ih
  | _ => rfl

theorem map_congr {f g : ν → μ} (v : JsonTree ν) (h : ∀ n ∈ v.numbers, f n = g n) :
    v.map f = v.map g := by
  induction v using ind with
  | num n => rw [map, map, h n (by rw [numbers]; exact List.mem_singleton_self n)]
  | arr vs ih =>
    rw [numbers, numbersItems_eq, List.forall_mem_flatMap] at h
    rw [map, map, mapItems_eq, mapItems_eq]
    exact congrArg arr (List.map_congr_left fun v hv => ih v hv (h v hv))
  | obj fs ih =>
    rw [numbers, numbersFields_eq, List.forall_mem_flatMap] at h
    rw [map, map, mapFields_eq, mapFields_eq]
    exact congrArg obj (List.map_congr_left fun f hf => by rw [ih f hf (h f hf)])
  | _ => rfl

theorem map_eq_map_iff {f g : ν → μ} {v : JsonTree ν} :
    v.map f = v.map g ↔ ∀ n ∈ v.numbers, f n = g n := by
  refine ⟨fun h => ?_, map_congr v⟩
  have hnumbers := congrArg numbers h
  rw [numbers_map, numbers_map] at hnumbers
  exact List.map_inj_left.mp hnumbers

theorem map_map (f : ν → μ) (g : μ → κ) (v : JsonTree ν) :
    (v.map f).map g = v.map fun n => g (f n) := by
  induction v using ind with
  | arr vs ih =>
    rw [map, map, map, mapItems_eq, mapItems_eq, mapItems_eq, List.map_map]
    exact congrArg arr (List.map_congr_left ih)
  | obj fs ih =>
    rw [map, map, map, mapFields_eq, mapFields_eq, mapFields_eq, List.map_map]
    exact congrArg obj (List.map_congr_left fun f hf => congrArg (Prod.mk f.1) (ih f hf))
  | _ => rfl

theorem map_id (v : JsonTree ν) : v.map id = v := by
  induction v using ind with
  | arr vs ih => rw [map, mapItems_eq, List.map_congr_left (g := id) ih, List.map_id]
  | obj fs ih =>
    rw [map, mapFields_eq, List.map_congr_left (g := id) fun f hf =>
      congrArg (Prod.mk f.1) (ih f hf),
      List.map_id]
  | _ => rfl

/-! ## Reading -/

mutual

variable {f : ν → Option μ} {g : ν → μ}

theorem traverse_eq_map (v : JsonTree ν)
    (h : ∀ n ∈ v.numbers, f n = some (g n)) : v.traverse f = some (v.map g) := by
  match v with
  | .null | .bool _ | .str _ => rfl
  | .num n => rw [traverse, map, h n (by rw [numbers]; exact List.mem_singleton_self n),
    Option.map_some]
  | .arr vs => rw [traverse, map, traverseItems_eq_map vs h, Option.map_some]
  | .obj fs => rw [traverse, map, traverseFields_eq_map fs h, Option.map_some]

theorem traverseItems_eq_map (vs : List (JsonTree ν))
    (h : ∀ n ∈ numbersItems vs, f n = some (g n)) : traverseItems f vs = some (mapItems g vs) := by
  match vs with
  | [] => rfl
  | v :: vs =>
    rw [numbersItems, List.forall_mem_append] at h
    rw [traverseItems, mapItems, traverse_eq_map v h.1, traverseItems_eq_map vs h.2,
      Option.bind_some, Option.map_some]

theorem traverseFields_eq_map (fs : List (String × JsonTree ν))
    (h : ∀ n ∈ numbersFields fs, f n = some (g n)) :
    traverseFields f fs = some (mapFields g fs) := by
  match fs with
  | [] => rfl
  | (k, v) :: fs =>
    rw [numbersFields, List.forall_mem_append] at h
    rw [traverseFields, mapFields, traverse_eq_map v h.1, traverseFields_eq_map fs h.2,
      Option.bind_some, Option.map_some]

end

mutual

theorem read_of_traverse {f : ν → Option μ} (v : JsonTree ν) {w : JsonTree μ}
    (h : v.traverse f = some w) :
    ∀ n ∈ v.numbers, ∃ m, f n = some m := by
  match v with
  | .null | .bool _ | .str _ =>
    intro n hn
    rw [numbers] at hn
    cases hn
  | .num n =>
    rw [traverse] at h
    obtain ⟨m, hm, -⟩ := Option.map_eq_some_iff.mp h
    intro k hk
    rw [numbers] at hk
    exact ⟨m, (List.mem_singleton.mp hk) ▸ hm⟩
  | .arr vs =>
    rw [traverse] at h
    obtain ⟨ws, hws, -⟩ := Option.map_eq_some_iff.mp h
    exact read_of_traverseItems vs hws
  | .obj fs =>
    rw [traverse] at h
    obtain ⟨gs, hgs, -⟩ := Option.map_eq_some_iff.mp h
    exact read_of_traverseFields fs hgs

theorem read_of_traverseItems {f : ν → Option μ} (vs : List (JsonTree ν)) {ws : List (JsonTree μ)}
    (h : traverseItems f vs = some ws) : ∀ n ∈ numbersItems vs, ∃ m, f n = some m := by
  match vs with
  | [] =>
    intro n hn
    cases hn
  | v :: vs =>
    rw [traverseItems] at h
    obtain ⟨w, hw, hrest⟩ := Option.bind_eq_some_iff.mp h
    obtain ⟨ws, hws, -⟩ := Option.map_eq_some_iff.mp hrest
    rw [numbersItems, List.forall_mem_append]
    exact ⟨read_of_traverse v hw, read_of_traverseItems vs hws⟩

theorem read_of_traverseFields {f : ν → Option μ} (fs : List (String × JsonTree ν))
    {gs : List (String × JsonTree μ)} (h : traverseFields f fs = some gs) :
    ∀ n ∈ numbersFields fs, ∃ m, f n = some m := by
  match fs with
  | [] =>
    intro n hn
    cases hn
  | (k, v) :: fs =>
    rw [traverseFields] at h
    obtain ⟨w, hw, hrest⟩ := Option.bind_eq_some_iff.mp h
    obtain ⟨gs, hgs, -⟩ := Option.map_eq_some_iff.mp hrest
    rw [numbersFields, List.forall_mem_append]
    exact ⟨read_of_traverse v hw, read_of_traverseFields fs hgs⟩

end

/-! ## The order of fields -/

theorem sorted_map (le : String → String → Bool) (f : ν → μ) (v : JsonTree ν) :
    (v.map f).sorted le = (v.sorted le).map f := by
  induction v using ind with
  | arr vs ih =>
    rw [map, sorted, sorted, map, mapItems_eq, mapItems_eq, sortedItems_eq, sortedItems_eq,
      List.map_map, List.map_map]
    exact congrArg arr (List.map_congr_left ih)
  | obj fs ih =>
    have hfields : sortedFields le (mapFields f fs) = mapFields f (sortedFields le fs) := by
      rw [mapFields_eq, mapFields_eq, sortedFields_eq, sortedFields_eq, List.map_map, List.map_map]
      exact List.map_congr_left fun g hg => congrArg (Prod.mk g.1) (ih g hg)
    rw [map, sorted, sorted, map, hfields, mapFields_eq, mapFields_eq]
    congr 1
    exact (List.map_insertionSort (fieldLE le) (fieldLE le) (fun g => (g.1, map f g.2)) _
      fun _ _ _ _ => Iff.rfl).symm
  | _ => rfl

theorem numbers_sorted (le : String → String → Bool) (v : JsonTree ν) :
    (v.sorted le).numbers.Perm v.numbers := by
  induction v using ind with
  | arr vs ih =>
    rw [sorted, numbers, numbers, sortedItems_eq, numbersItems_eq, numbersItems_eq,
      List.flatMap_map]
    exact List.Perm.flatMap_left _ ih
  | obj fs ih =>
    rw [sorted, numbers, numbers, numbersFields_eq, numbersFields_eq]
    refine ((List.perm_insertionSort _ _).flatMap_right _).trans ?_
    rw [sortedFields_eq, List.flatMap_map]
    exact List.Perm.flatMap_left _ ih
  | _ => rfl

theorem sorted_sorted (htotal : ∀ s t, le s t = true ∨ le t s = true)
    (htrans : ∀ s t u, le s t = true → le t u = true → le s u = true) (v : JsonTree ν) :
    (v.sorted le).sorted le = v.sorted le := by
  induction v using ind with
  | arr vs ih =>
    rw [sorted, sorted, sortedItems_eq, sortedItems_eq, List.map_map]
    exact congrArg arr (List.map_congr_left ih)
  | obj fs ih =>
    have : Std.Total (fieldLE (ν := ν) le) := ⟨fun f g => htotal f.1 g.1⟩
    have : IsTrans _ (fieldLE (ν := ν) le) := ⟨fun f g h => htrans f.1 g.1 h.1⟩
    have hfix : ∀ f ∈ (sortedFields le fs).insertionSort (fieldLE le), f.2.sorted le = f.2 := by
      intro f hf
      have hf := (List.perm_insertionSort _ _).mem_iff.mp hf
      rw [sortedFields_eq] at hf
      obtain ⟨g, hg, rfl⟩ := List.mem_map.mp hf
      exact ih g hg
    rw [sorted, sorted, sortedFields_eq, List.map_congr_left (g := id), List.map_id]
    · exact congrArg obj ((List.pairwise_insertionSort _ _).insertionSort_eq)
    · intro f hf
      rw [hfix f hf]
      rfl
  | _ => rfl

theorem lookup_of_perm {fs gs : List (String × JsonTree ν)} (h : fs.Perm gs)
    (hfs : (fs.map Prod.fst).Nodup) (k : String) : fs.lookup k = gs.lookup k := by
  induction h with
  | nil => rfl
  | cons f _ ih => rw [List.lookup_cons, List.lookup_cons, ih (List.nodup_cons.mp hfs).2]
  | swap f g hs =>
    have hne : g.1 ≠ f.1 := fun heq => (List.nodup_cons.mp hfs).1 (by simp [heq])
    rw [List.lookup_cons, List.lookup_cons, List.lookup_cons, List.lookup_cons]
    by_cases hf : k = f.1
    · have hg : (k == g.1) = false := by simpa [hf] using hne.symm
      simp [hg]
    · have hf : (k == f.1) = false := by simpa using hf
      simp [hf]
  | trans hleft _ ih ih' => exact (ih hfs).trans (ih' ((hleft.map Prod.fst).nodup_iff.mp hfs))

theorem lookup_of_sorted_eq {fs gs : List (String × JsonTree ν)}
    (hfs : (fs.map Prod.fst).Nodup) (h : (obj fs).sorted le = (obj gs).sorted le) (k : String) :
    (fs.lookup k).map (sorted le) = (gs.lookup k).map (sorted le) := by
  have hlookup : ∀ hs : List (String × JsonTree ν),
      (sortedFields le hs).lookup k = (hs.lookup k).map (sorted le) := by
    intro hs
    induction hs with
    | nil => rfl
    | cons f hs ih =>
      rw [sortedFields, List.lookup_cons, List.lookup_cons, ih]
      split <;> rfl
  have hperm : (sortedFields le fs).Perm (sortedFields le gs) := by
    have heq := JsonTree.obj.inj h
    have hright := List.perm_insertionSort (fieldLE le) (sortedFields le gs)
    rw [← heq] at hright
    exact (List.perm_insertionSort _ _).symm.trans hright
  have hkeys : ((sortedFields le fs).map Prod.fst).Nodup := by
    rw [sortedFields_eq]
    simpa [Function.comp_def] using hfs
  rw [← hlookup fs, ← hlookup gs]
  exact lookup_of_perm hperm hkeys k

theorem forall_numbers_sorted {P : ν → Prop} {v : JsonTree ν} :
    (∀ n ∈ (v.sorted le).numbers, P n) ↔ ∀ n ∈ v.numbers, P n :=
  forall_congr' fun _ => imp_congr_left (numbers_sorted le v).mem_iff

/-! ## Texts -/

mutual

theorem toJson_map (f : ν → μ) (text : μ → Number) (v : JsonTree ν) :
    (v.map f).toJson text = v.toJson fun n => text (f n) := by
  match v with
  | .null | .bool _ | .str _ | .num _ => rfl
  | .arr vs => rw [map, toJson, toJson, toJsonItems_map f text vs]
  | .obj fs => rw [map, toJson, toJson, toJsonFields_map f text fs]

theorem toJsonItems_map (f : ν → μ) (text : μ → Number) (vs : List (JsonTree ν)) :
    toJsonItems text (mapItems f vs) = toJsonItems (fun n => text (f n)) vs := by
  match vs with
  | [] => rfl
  | v :: vs => rw [mapItems, toJsonItems, toJsonItems, toJson_map f text v,
    toJsonItems_map f text vs]

theorem toJsonFields_map (f : ν → μ) (text : μ → Number) (fs : List (String × JsonTree ν)) :
    toJsonFields text (mapFields f fs) = toJsonFields (fun n => text (f n)) fs := by
  match fs with
  | [] => rfl
  | (k, v) :: fs =>
    rw [mapFields, toJsonFields, toJsonFields, toJson_map f text v, toJsonFields_map f text fs]

end

end JsonTree

end Windrose.Foundation

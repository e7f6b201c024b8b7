/-
  Pipelines/Dag.lean --- the cycle search of the pipeline validator.

  Source: services/pipeline-orchestrator/app/domain/dag.py (_find_cycle).

  `dfs` calls itself once for each node of a walk, and the interpreter's recursion limit
  leaves room for so many calls only.  The invariant of the search says of every walk that it
  has come past, in the order of a depth-first search, that its nodes are distinct and its end
  was entered within the limit.
-/
import Mathlib.Data.List.Nodup
import Mathlib.Data.List.Perm.Subperm
import Mathlib.Data.List.Range

set_option autoImplicit false

namespace Windrose.Pipelines.Dag

open Relation

variable {A : Type} {edges : List (A × A)}

/-! ## Graphs -/

/-- There is an edge. -/
def Edge (edges : List (A × A)) (a b : A) : Prop := (a, b) ∈ edges

/-- No node reaches itself. -/
def Acyclic (edges : List (A × A)) : Prop := ∀ a, ¬ TransGen (Edge edges) a a

/-- Distinct nodes, each with an edge to the next and the last to the first. -/
structure IsCycle (edges : List (A × A)) (c : List A) : Prop where
  ne_nil : c ≠ []
  nodup : c.Nodup
  chain : c.IsChain (Edge edges)
  back : ∀ a ∈ c.getLast?, ∀ b ∈ c.head?, Edge edges a b

theorem IsCycle.not_acyclic {c : List A} (h : IsCycle edges c) : ¬ Acyclic edges := by
  intro hacyclic
  cases c with
  | nil => exact h.ne_nil rfl
  | cons b c =>
    have hlast := List.getLast?_eq_some_getLast (List.cons_ne_nil b c)
    have hwalk := List.relationReflTransGen_of_exists_isChain_cons c h.chain rfl
    exact hacyclic b (TransGen.tail' hwalk (h.back _ hlast b rfl))

/-! ## The walks of a search -/

variable {nodes : List A} {u v : A} {p w x y : List A} {limit : Nat}

variable (edges nodes) in
/-- A walk along the edges that starts in one of the nodes. -/
structure Walk (w : List A) : Prop where
  ne_nil : w ≠ []
  start : ∀ a ∈ w.head?, a ∈ nodes
  chain : w.IsChain (Edge edges)

theorem Walk.part (h : Walk edges nodes w) (hp : p <+: w) (hne : p ≠ []) :
    Walk edges nodes p := by
  refine ⟨hne, fun a ha => h.start a ?_, h.chain.prefix hp⟩
  obtain ⟨q, rfl⟩ := hp
  rwa [List.head?_append_of_ne_nil _ hne]

variable [DecidableEq A]

variable (edges) in
/-- The nodes that the edges from a node lead to, in the order of the edges. -/
def adj (a : A) : List A := (edges.filter (·.1 = a)).map (·.2)

theorem mem_adj {a b : A} : b ∈ adj edges a ↔ Edge edges a b := by simp [adj, Edge]

variable (edges nodes) in
/-- What a search tries at the end of a walk; it starts with the nodes in their order. -/
def next (w : List A) : List A :=
  match w.getLast? with
  | none => nodes
  | some u => adj edges u

@[simp] theorem next_concat : next edges nodes (p ++ [u]) = adj edges u := by
  rw [next, List.getLast?_concat]

variable (edges nodes) in
/-- A depth-first search comes on the walk `w` before `x`: it is a part of `x`, or turns off
from it to a node that is tried first. -/
def Before (w x : List A) : Prop :=
  w <+: x ∧ w ≠ x ∨ ∃ p a b, p ++ [a] <+: w ∧ p ++ [b] <+: x ∧
    (next edges nodes p).idxOf a < (next edges nodes p).idxOf b

variable (edges nodes) in
/-- A walk of more nodes than the limit, before which the search comes neither on a repeated
node nor on another walk to the same end. -/
structure TooDeep (limit : Nat) (x : List A) : Prop where
  walk : Walk edges nodes x
  long : limit < x.length
  first : ∀ w, Walk edges nodes w → Before edges nodes w x →
    w.Nodup ∧ w.getLast? ≠ x.getLast?

theorem Walk.mem_next (h : Walk edges nodes w) (hp : p ++ [v] <+: w) :
    v ∈ next edges nodes p := by
  obtain ⟨q, rfl⟩ := hp
  rcases List.eq_nil_or_concat p with rfl | ⟨p, u, rfl⟩
  · exact h.start v rfl
  · rw [List.concat_eq_append, next_concat, mem_adj]
    have hchain := h.chain
    rw [List.append_assoc, List.isChain_append] at hchain
    exact hchain.2.2 u (by simp) v rfl

theorem walk_concat (hp : p ≠ [] → Walk edges nodes p) (hv : v ∈ next edges nodes p) :
    Walk edges nodes (p ++ [v]) := by
  rcases List.eq_nil_or_concat p with rfl | ⟨p, u, rfl⟩
  · refine ⟨List.cons_ne_nil v [], fun a ha => ?_, List.isChain_singleton v⟩
    exact Option.some.inj ha ▸ hv
  · rw [List.concat_eq_append] at hp hv ⊢
    have h := hp (by simp)
    refine ⟨by simp, fun a ha => h.start a ?_, h.chain.append (List.isChain_singleton v) ?_⟩
    · rwa [List.head?_append_of_ne_nil _ h.ne_nil] at ha
    · intro a ha b hb
      cases List.getLast?_concat.symm.trans ha
      cases hb
      rw [next_concat, mem_adj] at hv
      exact hv

theorem Before.extend (h : Before edges nodes w x) (hy : x <+: y) : Before edges nodes w y := by
  rcases h with ⟨hw, hne⟩ | ⟨p, a, b, ha, hb, hlt⟩
  · refine .inl ⟨hw.trans hy, ?_⟩
    rintro rfl
    exact hne (hw.eq_of_length (le_antisymm hw.length_le hy.length_le))
  · exact .inr ⟨p, a, b, ha, hb.trans hy, hlt⟩

theorem before_concat_self : Before edges nodes p (p ++ [v]) :=
  .inl ⟨List.prefix_append p [v], by simp⟩

/-- What comes before the next node of a walk: what comes before the walk, the walk, and what
goes on with a node that is tried first. -/
theorem before_concat : Before edges nodes w (p ++ [v]) ↔
    Before edges nodes w p ∨ w = p ∨
      ∃ a, p ++ [a] <+: w ∧ (next edges nodes p).idxOf a < (next edges nodes p).idxOf v := by
  constructor
  · rintro (⟨hw, hne⟩ | ⟨q, a, b, ha, hb, hlt⟩)
    · have hw := (List.prefix_concat_iff.mp hw).resolve_left hne
      by_cases heq : w = p
      · exact .inr (.inl heq)
      · exact .inl (.inl ⟨hw, heq⟩)
    · rcases List.prefix_concat_iff.mp hb with heq | hb
      · obtain ⟨rfl, hlast⟩ := List.append_inj' heq rfl
        obtain rfl := List.singleton_inj.mp hlast
        exact .inr (.inr ⟨a, ha, hlt⟩)
      · exact .inl (.inr ⟨q, a, b, ha, hb, hlt⟩)
  · rintro (h | rfl | ⟨a, ha, hlt⟩)
    · exact h.extend (List.prefix_append p [v])
    · exact before_concat_self
    · exact .inr ⟨p, a, v, ha, List.prefix_rfl, hlt⟩

/-- Of two walks the search comes on one first. -/
theorem before_total (hw : Walk edges nodes w) (hx : Walk edges nodes x) :
    w = x ∨ Before edges nodes w x ∨ Before edges nodes x w := by
  suffices h : ∀ p, p <+: w → p = x ∨ Before edges nodes p x ∨ Before edges nodes x p from
    h w List.prefix_rfl
  intro p
  induction p using List.reverseRecOn with
  | nil => exact fun _ => .inr (.inl (.inl ⟨List.nil_prefix, hx.ne_nil.symm⟩))
  | append_singleton p a ih =>
    intro hp
    rcases ih ((List.prefix_append p [a]).trans hp) with rfl | hbefore | hafter
    · exact .inr (.inr before_concat_self)
    · rcases hbefore with ⟨⟨r, rfl⟩, hne⟩ | ⟨q, c, d, hc, hd, hlt⟩
      · cases r with
        | nil => exact absurd (List.append_nil p).symm hne
        | cons b r =>
          have hb : p ++ [b] <+: p ++ b :: r := by simp
          by_cases hab : a = b
          · subst hab
            by_cases heq : p ++ [a] = p ++ a :: r
            · exact .inl heq
            · exact .inr (.inl (.inl ⟨hb, heq⟩))
          · have hidx := mt (List.idxOf_inj (hw.mem_next hp)).mp hab
            rcases Nat.lt_or_gt_of_ne hidx with hlt | hgt
            · exact .inr (.inl (.inr ⟨p, a, b, List.prefix_rfl, hb, hlt⟩))
            · exact .inr (.inr (.inr ⟨p, b, a, hb, List.prefix_rfl, hgt⟩))
      · exact .inr (.inl (.inr ⟨q, c, d, hc.trans (List.prefix_append p [a]), hd, hlt⟩))
    · exact .inr (.inr (hafter.extend (List.prefix_append p [a])))

/-- The end of a walk is the end of one within the limit that is no later. -/
def Short (edges : List (A × A)) (nodes : List A) (limit : Nat) (w : List A) : Prop :=
  ∃ x, (x = w ∨ Before edges nodes x w) ∧ Walk edges nodes x ∧ x.getLast? = w.getLast? ∧
    x.length ≤ limit

theorem Short.not_tooDeep (h : Short edges nodes limit w) : ¬ TooDeep edges nodes limit w := by
  rintro ⟨-, hlong, hfirst⟩
  obtain ⟨x, rfl | hbefore, hx, hend, hlength⟩ := h
  · omega
  · exact (hfirst x hx hbefore).2 hend

theorem TooDeep.nodup (h : TooDeep edges nodes limit x) : x.Nodup := by
  rcases List.eq_nil_or_concat x with rfl | ⟨p, v, rfl⟩
  · exact List.nodup_nil
  rw [List.concat_eq_append] at h ⊢
  have hpart {q : List A} (hq : q <+: p) (hne : q ≠ []) :
      q.Nodup ∧ q.getLast? ≠ (p ++ [v]).getLast? := by
    have hbefore : Before edges nodes q (p ++ [v]) := before_concat.mpr <| by
      by_cases heq : q = p
      · exact .inr (.inl heq)
      · exact .inl (.inl ⟨hq, heq⟩)
    exact h.first q (h.walk.part (hq.trans (List.prefix_append p [v])) hne) hbefore
  refine List.nodup_append_comm.mp (List.nodup_cons.mpr ⟨fun hmem => ?_, ?_⟩)
  · obtain ⟨l, r, rfl⟩ := List.append_of_mem hmem
    refine (hpart (q := l ++ [v]) (by simp) (by simp)).2 ?_
    rw [List.getLast?_concat, List.getLast?_concat]
  · rcases eq_or_ne p [] with rfl | hne
    · exact List.nodup_nil
    · exact (hpart List.prefix_rfl hne).1

/-! ## The search -/

/-- The color of a node. -/
inductive Color where
  | white
  | gray
  | black
  deriving DecidableEq

/-- `maximum recursion depth exceeded`. -/
structure RecursionError where
  deriving DecidableEq

/-- What ends a search early: the cycle that it found, or the recursion limit. -/
inductive Halt (A : Type) where
  | cycle (c : List A)
  | raised (e : RecursionError)

/-- The state of the depth-first search. -/
structure Search (A : Type) where
  color : A → Option Color
  stack : List A

def Search.paint (s : Search A) (u : A) (c : Color) (stack : List A) : Search A :=
  ⟨Function.update s.color u (some c), stack⟩

variable (edges) in
/-- `dfs`, when the interpreter's stack has room for so many nested calls of it. -/
def dfs : Nat → A → Search A → Except (Halt A) (Search A)
  | 0, _, _ => .error (.raised ⟨⟩)
  | room + 1, u, s => do
      let s ← (adj edges u).foldlM (fun s v =>
        match s.color v with
        | some .gray => .error (.cycle (s.stack.drop (s.stack.idxOf v)))
        | some .white => dfs room v s
        | _ => .ok s) (s.paint u .gray (s.stack ++ [u]))
      return s.paint u .black s.stack.dropLast

variable (edges) in
/-- `_find_cycle`, called with room for `limit` calls of `dfs`. -/
def findCycle (limit : Nat) (nodes : List A) : Except RecursionError (Option (List A)) :=
  let start : Search A := ⟨fun a => if a ∈ nodes then some .white else none, []⟩
  let visit (s : Search A) (node : A) : Except (Halt A) (Search A) :=
    if s.color node = some .white then dfs edges limit node s else .ok s
  match nodes.foldlM visit start with
  | .ok _ => .ok none
  | .error (.cycle c) => .ok (some c)
  | .error (.raised e) => .error e

variable {s t : Search A} {ds vs : List A}

section Paint

variable {c : Color} {stack : List A}

@[simp] theorem color_paint : (s.paint u c stack).color u = some c := Function.update_self ..

theorem color_paint_of_ne (h : v ≠ u) : (s.paint u c stack).color v = s.color v :=
  Function.update_of_ne h ..

theorem isSome_paint (hu : (s.color u).isSome = true) :
    ((s.paint u c stack).color v).isSome = (s.color v).isSome := by
  by_cases hne : v = u
  · rw [hne, color_paint, hu]
    rfl
  · rw [color_paint_of_ne hne]

theorem color_of_paint {d : Color} (h : (s.paint u c stack).color v = some d) (hd : d ≠ c) :
    v ≠ u ∧ s.color v = some d := by
  by_cases hne : v = u
  · rw [hne, color_paint] at h
    exact absurd (Option.some.inj h).symm hd
  · exact ⟨hne, color_paint_of_ne hne ▸ h⟩

end Paint

variable (edges nodes) in
/-- The walks that the search has come past when its stack is `p` and it has tried `ds` at
the end of that. -/
def Met (ds p w : List A) : Prop :=
  Before edges nodes w p ∨ w = p ∨ ∃ a ∈ ds, p ++ [a] <+: w

variable (edges nodes) in
/-- What the search keeps, with `ds` tried at the end of its stack. -/
structure Search.Inv (limit : Nat) (ds : List A) (s : Search A) : Prop where
  known : ∀ a, (s.color a).isSome ↔ a ∈ nodes
  gray : ∀ a, s.color a = some .gray ↔ a ∈ s.stack
  closed : ∀ a, s.color a = some .black → (∀ b, Edge edges a b → s.color b = some .black) ∧
    ¬ TransGen (Edge edges) a a
  walk : s.stack ≠ [] → Walk edges nodes s.stack
  met : ∀ w, Walk edges nodes w → Met edges nodes ds s.stack w →
    w.Nodup ∧ (∀ a ∈ w.getLast?, s.color a ≠ some .white) ∧ Short edges nodes limit w
  entered : ∀ a ∈ nodes, s.color a ≠ some .white → ∃ w, Walk edges nodes w ∧
    Met edges nodes ds s.stack w ∧ w.getLast? = some a ∧ w.length ≤ limit

section Met

variable {a : A}

theorem idxOf_lt_iff (hnext : next edges nodes p = ds ++ v :: vs) (hv : v ∉ ds) :
    (next edges nodes p).idxOf a < (next edges nodes p).idxOf v ↔ a ∈ ds := by
  have hidx : (ds ++ v :: vs).idxOf v = ds.length := by
    rw [List.idxOf_append_of_notMem hv, List.idxOf_cons_self, Nat.add_zero]
  rw [hnext, hidx]
  constructor
  · intro hlt
    by_contra ha
    rw [List.idxOf_append_of_notMem ha] at hlt
    omega
  · intro ha
    rw [List.idxOf_append_of_mem ha]
    exact List.idxOf_lt_length_of_mem ha

theorem before_concat_iff_met (hnext : next edges nodes p = ds ++ v :: vs) (hv : v ∉ ds) :
    Before edges nodes w (p ++ [v]) ↔ Met edges nodes ds p w := by
  rw [before_concat, Met]
  refine or_congr_right (or_congr_right ?_)
  simp only [idxOf_lt_iff hnext hv, and_comm]

theorem met_concat :
    Met edges nodes (ds ++ [v]) p w ↔ Met edges nodes ds p w ∨ p ++ [v] <+: w := by
  simp only [Met, List.mem_append, List.mem_singleton, or_and_right, exists_or, exists_eq_left,
    or_assoc]

theorem met_adj (hw : Walk edges nodes w) (hnext : next edges nodes p = ds ++ v :: vs)
    (hv : v ∉ ds) :
    Met edges nodes (adj edges v) (p ++ [v]) w ↔ Met edges nodes (ds ++ [v]) p w := by
  rw [met_concat, Met, before_concat_iff_met hnext hv]
  refine or_congr_right ⟨?_, fun ⟨q, hq⟩ => ?_⟩
  · rintro (rfl | ⟨a, -, ha⟩)
    · exact List.prefix_rfl
    · exact (List.prefix_append (p ++ [v]) [a]).trans ha
  · cases q with
    | nil => exact .inl (hq.symm.trans (List.append_nil _))
    | cons a q =>
      have ha : (p ++ [v]) ++ [a] <+: w := ⟨q, by simpa using hq⟩
      have hnext := hw.mem_next ha
      rw [next_concat] at hnext
      exact .inr ⟨a, hnext, ha⟩

end Met

section Inv

theorem edge_of_mem_next (hv : v ∈ next edges nodes p) :
    ∀ a ∈ p.getLast?, Edge edges a v := by
  intro a ha
  rw [next, Option.mem_def.mp ha] at hv
  exact mem_adj.mp hv

theorem Search.Inv.nodup (h : s.Inv edges nodes limit ds) : s.stack.Nodup := by
  by_cases hne : s.stack = []
  · rw [hne]
    exact List.nodup_nil
  · exact (h.met _ (h.walk hne) (.inr (.inl rfl))).1

theorem Search.Inv.chain (h : s.Inv edges nodes limit ds) : s.stack.IsChain (Edge edges) := by
  by_cases hne : s.stack = []
  · rw [hne]
    exact List.isChain_nil
  · exact (h.walk hne).chain

theorem Search.Inv.black_of_walk (h : s.Inv edges nodes limit ds) (hu : s.color u = some .black)
    (hwalk : ReflTransGen (Edge edges) u v) : s.color v = some .black := by
  induction hwalk with
  | refl => exact hu
  | tail _ hedge ih => exact (h.closed _ ih).1 _ hedge

theorem Search.Inv.black (h : s.Inv edges nodes limit ds) (hv : v ∈ nodes)
    (hgray : s.color v ≠ some .gray) (hwhite : s.color v ≠ some .white) :
    s.color v = some .black := by
  obtain ⟨c, hcolor⟩ := Option.isSome_iff_exists.mp ((h.known v).mpr hv)
  cases c with
  | white => exact absurd hcolor hwhite
  | gray => exact absurd hcolor hgray
  | black => exact hcolor

theorem Search.Inv.isCycle_drop (h : s.Inv edges nodes limit ds) (hv : s.color v = some .gray)
    (htop : ∀ a ∈ s.stack.getLast?, Edge edges a v) :
    IsCycle edges (s.stack.drop (s.stack.idxOf v)) := by
  obtain ⟨l, r, hstack⟩ := List.append_of_mem ((h.gray v).mp hv)
  have hnot : v ∉ l := by
    intro hl
    have hnodup := h.nodup
    rw [hstack] at hnodup
    exact List.disjoint_of_nodup_append hnodup hl List.mem_cons_self
  have hdrop : s.stack.drop (s.stack.idxOf v) = v :: r := by
    rw [hstack, List.idxOf_append_of_notMem hnot, List.idxOf_cons_self, Nat.add_zero,
      List.drop_left]
  have hchain := h.chain.drop (s.stack.idxOf v)
  have hnodup := h.nodup.sublist (List.drop_sublist (s.stack.idxOf v) _)
  rw [hdrop] at hchain hnodup ⊢
  refine ⟨List.cons_ne_nil v r, hnodup, hchain, fun a ha b hb => ?_⟩
  obtain rfl : v = b := Option.some.inj hb
  refine htop a ?_
  rw [hstack, List.getLast?_append, Option.mem_def.mp ha]
  rfl

variable (hedges : ∀ e ∈ edges, e.1 ∈ nodes ∧ e.2 ∈ nodes)
include hedges

theorem mem_nodes_of_mem_next (hv : v ∈ next edges nodes p) : v ∈ nodes := by
  rcases List.eq_nil_or_concat p with rfl | ⟨p, u, rfl⟩
  · exact hv
  · rw [List.concat_eq_append, next_concat, mem_adj] at hv
    exact (hedges _ hv).2

theorem Search.Inv.tried (h : s.Inv edges nodes limit ds)
    (hnext : ∀ a ∈ ds, a ∈ next edges nodes s.stack) (hv : v ∈ ds) :
    s.color v = some .black := by
  have hmem := hnext v hv
  have hmet : Met edges nodes ds s.stack (s.stack ++ [v]) := .inr (.inr ⟨v, hv, List.prefix_rfl⟩)
  obtain ⟨hnodup, hend, -⟩ := h.met _ (walk_concat h.walk hmem) hmet
  refine h.black (mem_nodes_of_mem_next hedges hmem) (fun hgray => ?_) ?_
  · refine List.disjoint_of_nodup_append hnodup ((h.gray v).mp hgray) (List.mem_singleton_self v)
  · exact hend v List.getLast?_concat

theorem Search.Inv.untried (h : s.Inv edges nodes limit ds)
    (hnext : next edges nodes s.stack = ds ++ v :: vs) (hv : s.color v ≠ some .black) :
    v ∉ ds :=
  fun hmem => hv (h.tried hedges (fun _ hd => hnext ▸ List.mem_append_left _ hd) hmem)

theorem Search.Inv.not_tooDeep (h : s.Inv edges nodes limit ds)
    (hnext : next edges nodes s.stack = ds ++ v :: vs) (hv : s.color v = some .gray) :
    ¬ TooDeep edges nodes limit w := by
  intro hw
  have hmem : v ∈ next edges nodes s.stack := hnext ▸ List.mem_append_right _ List.mem_cons_self
  have hx := walk_concat h.walk hmem
  have hcycle : ¬ (s.stack ++ [v]).Nodup := fun hnodup =>
    List.disjoint_of_nodup_append hnodup ((h.gray v).mp hv) (List.mem_singleton_self v)
  rcases before_total hw.walk hx with rfl | hbefore | hafter
  · exact hcycle hw.nodup
  · have hmet := (before_concat_iff_met hnext (h.untried hedges hnext (by simp [hv]))).mp hbefore
    exact (h.met w hw.walk hmet).2.2.not_tooDeep hw
  · exact hcycle (hw.first _ hx hafter).1

theorem Search.Inv.tooDeep (h : s.Inv edges nodes limit ds)
    (hnext : next edges nodes s.stack = ds ++ v :: vs) (hv : s.color v = some .white)
    (hlimit : s.stack.length = limit) : TooDeep edges nodes limit (s.stack ++ [v]) := by
  have hmem : v ∈ next edges nodes s.stack := hnext ▸ List.mem_append_right _ List.mem_cons_self
  refine ⟨walk_concat h.walk hmem, by simp [hlimit], fun w hw hbefore => ?_⟩
  have hmet := (before_concat_iff_met hnext (h.untried hedges hnext (by simp [hv]))).mp hbefore
  obtain ⟨hnodup, hend, -⟩ := h.met w hw hmet
  exact ⟨hnodup, fun heq => hend v (heq.trans List.getLast?_concat) hv⟩

theorem Search.Inv.enter (h : s.Inv edges nodes limit ds)
    (hnext : next edges nodes s.stack = ds ++ u :: vs) (hu : s.color u = some .white)
    (hlimit : s.stack.length < limit) :
    (s.paint u .gray (s.stack ++ [u])).Inv edges nodes limit [] := by
  have hmem : u ∈ next edges nodes s.stack := hnext ▸ List.mem_append_right _ List.mem_cons_self
  have hnot : u ∉ s.stack := fun hmem => by
    have hgray := (h.gray u).mpr hmem
    rw [hu] at hgray
    cases hgray
  have hwalk := walk_concat h.walk hmem
  have hlength : (s.stack ++ [u]).length ≤ limit := by
    rw [List.length_append, List.length_singleton]
    omega
  have hmet (w : List A) : Met edges nodes [] (s.stack ++ [u]) w ↔
      Met edges nodes ds s.stack w ∨ w = s.stack ++ [u] := by
    rw [← before_concat_iff_met hnext (h.untried hedges hnext (by simp [hu])), Met]
    simp
  refine ⟨fun a => ?_, fun a => ?_, fun a ha => ?_, fun _ => hwalk, fun w hw hmetw => ?_,
    fun a ha hwhite => ?_⟩
  · rw [isSome_paint (by rw [hu]; rfl), h.known]
  · change _ ↔ a ∈ s.stack ++ [u]
    by_cases hne : a = u
    · simp [hne]
    · simp [color_paint_of_ne hne, h.gray, hne]
  · obtain ⟨hnext, hwalk⟩ := h.closed a (color_of_paint ha nofun).2
    refine ⟨fun b hb => ?_, hwalk⟩
    have hb := hnext b hb
    rwa [color_paint_of_ne (by rintro rfl; rw [hu] at hb; cases hb)]
  · rcases (hmet w).mp hmetw with hold | rfl
    · obtain ⟨hnodup, hend, hshort⟩ := h.met w hw hold
      exact ⟨hnodup, fun a ha hwhite => hend a ha (color_of_paint hwhite nofun).2, hshort⟩
    · have hnodup : (s.stack ++ [u]).Nodup :=
        List.nodup_append_comm.mp (List.nodup_cons.mpr ⟨hnot, h.nodup⟩)
      refine ⟨hnodup, fun a ha => ?_, _, .inl rfl, hwalk, rfl, hlength⟩
      cases List.getLast?_concat.symm.trans ha
      rw [color_paint]
      nofun
  · by_cases hne : a = u
    · rw [hne]
      exact ⟨_, hwalk, (hmet _).mpr (.inr rfl), List.getLast?_concat, hlength⟩
    · rw [color_paint_of_ne hne] at hwhite
      obtain ⟨w, hw, hold, hrest⟩ := h.entered a ha hwhite
      exact ⟨w, hw, (hmet w).mpr (.inl hold), hrest⟩

theorem Search.Inv.leave (h : s.Inv edges nodes limit (adj edges u)) (hstack : s.stack = p ++ [u])
    (hnext : next edges nodes p = ds ++ u :: vs) (hu : u ∉ ds) :
    (s.paint u .black p).Inv edges nodes limit (ds ++ [u]) := by
  have hgray : s.color u = some .gray := (h.gray u).mpr (by simp [hstack])
  have hadj : next edges nodes s.stack = adj edges u := by rw [hstack, next_concat]
  have hnodup := h.nodup
  rw [hstack] at hnodup
  have hblack {b : A} (hb : s.color b = some .black) :
      (s.paint u .black p).color b = some .black := by
    by_cases hne : b = u
    · rw [hne, color_paint]
    · rwa [color_paint_of_ne hne]
  refine ⟨fun a => ?_, fun a => ?_, fun a ha => ?_, fun hne => ?_, fun w hw hmet => ?_,
    fun a ha hwhite => ?_⟩
  · rw [isSome_paint (by rw [hgray]; rfl), h.known]
  · by_cases hne : a = u
    · rw [hne, color_paint]
      refine iff_of_false nofun fun hmem => ?_
      exact List.disjoint_of_nodup_append hnodup hmem (List.mem_singleton_self u)
    · rw [color_paint_of_ne hne, h.gray, hstack, List.mem_append, List.mem_singleton]
      exact or_iff_left hne
  · by_cases hne : a = u
    · subst hne
      have hall {b : A} (hb : Edge edges a b) : s.color b = some .black :=
        h.tried hedges (fun _ hmem => hadj ▸ hmem) (mem_adj.mpr hb)
      refine ⟨fun b hb => hblack (hall hb), fun hwalk => ?_⟩
      obtain ⟨v, hedge, hwalk⟩ := TransGen.head'_iff.mp hwalk
      have hself := h.black_of_walk (hall hedge) hwalk
      rw [hgray] at hself
      cases hself
    · rw [color_paint_of_ne hne] at ha
      obtain ⟨hclosed, hwalk⟩ := h.closed a ha
      exact ⟨fun b hb => hblack (hclosed b hb), hwalk⟩
  · exact (h.walk (by simp [hstack])).part (hstack ▸ List.prefix_append p [u]) hne
  · have hmet := (met_adj hw hnext hu).mpr hmet
    rw [← hstack] at hmet
    obtain ⟨hnodup, hend, hshort⟩ := h.met w hw hmet
    exact ⟨hnodup, fun a ha hwhite => hend a ha (color_of_paint hwhite nofun).2, hshort⟩
  · obtain ⟨w, hw, hmet, hrest⟩ := h.entered a ha fun hold => hwhite <| by
      rw [color_paint_of_ne, hold]
      rintro rfl
      rw [hgray] at hold
      cases hold
    rw [hstack, met_adj hw hnext hu] at hmet
    exact ⟨w, hw, hmet, hrest⟩

omit hedges in
/-- The walks on from a black node are met as they are: their nodes are black, and each was
entered before. -/
theorem Search.Inv.skip (h : s.Inv edges nodes limit ds)
    (hnext : next edges nodes s.stack = ds ++ v :: vs) (hv : s.color v = some .black) :
    s.Inv edges nodes limit (ds ++ [v]) := by
  refine ⟨h.known, h.gray, h.closed, h.walk, fun w hw hmet => ?_, fun a ha hwhite => ?_⟩
  · rcases met_concat.mp hmet with hold | hpre
    · exact h.met w hw hold
    by_cases hds : v ∈ ds
    · exact h.met w hw (.inr (.inr ⟨v, hds, hpre⟩))
    obtain ⟨q, rfl⟩ := hpre
    have hchain := hw.chain
    rw [List.append_assoc, List.isChain_append] at hchain
    replace hchain : (v :: q).IsChain (Edge edges) := hchain.2.1
    have hpair := List.isChain_iff_pairwise.mp (hchain.imp fun _ _ => TransGen.single)
    have hblack : ∀ a ∈ v :: q, s.color a = some .black := fun a ha => by
      rcases List.mem_cons.mp ha with rfl | ha
      · exact hv
      · exact h.black_of_walk hv ((List.pairwise_cons.mp hpair).1 a ha).to_reflTransGen
    have hend := hblack _ (List.getLast_mem (List.cons_ne_nil v q))
    have hlast : (s.stack ++ [v] ++ q).getLast? =
        some ((v :: q).getLast (List.cons_ne_nil v q)) := by
      rw [List.append_assoc, List.singleton_append, List.getLast?_append_cons,
        List.getLast?_eq_some_getLast (List.cons_ne_nil v q)]
    refine ⟨?_, fun a ha hwhite => ?_, ?_⟩
    · rw [List.append_assoc, List.singleton_append, List.nodup_append']
      refine ⟨h.nodup, hpair.imp_of_mem fun ha _ hab heq => ?_, fun a hstack ha => ?_⟩
      · exact (h.closed _ (hblack _ ha)).2 (heq ▸ hab)
      · have hgray := (h.gray a).mpr hstack
        rw [hblack a ha] at hgray
        cases hgray
    · cases hlast.symm.trans ha
      rw [hend] at hwhite
      cases hwhite
    · have hknown := (h.known _).mp (Option.isSome_of_mem hend)
      obtain ⟨x, hx, hmet, hsame, hlength⟩ := h.entered _ hknown (by simp [hend])
      have hbefore := ((before_concat_iff_met hnext hds).mpr hmet).extend (List.prefix_append _ q)
      exact ⟨x, .inr hbefore, hx, hsame.trans hlast.symm, hlength⟩
  · obtain ⟨w, hw, hmet, hrest⟩ := h.entered a ha hwhite
    exact ⟨w, hw, met_concat.mpr (.inl hmet), hrest⟩

/-- How a part of the search ends: it has tried `ds` at the end of its stack, or has found a
cycle before any walk that is too deep, or a walk that is. -/
def Sound (edges : List (A × A)) (nodes : List A) (limit : Nat) (s : Search A) (ds : List A) :
    Except (Halt A) (Search A) → Prop
  | .ok t => t.stack = s.stack ∧ t.Inv edges nodes limit ds
  | .error (.cycle c) => IsCycle edges c ∧ ∀ w, ¬ TooDeep edges nodes limit w
  | .error (.raised _) => ∃ w, TooDeep edges nodes limit w

variable (vs) in
omit hedges in
theorem sound_foldlM {f : Search A → A → Except (Halt A) (Search A)}
    (h : s.Inv edges nodes limit ds) (hnext : next edges nodes s.stack = ds ++ vs)
    (hstep : ∀ t ds v vs, t.Inv edges nodes limit ds → next edges nodes t.stack = ds ++ v :: vs →
      t.stack = s.stack → Sound edges nodes limit t (ds ++ [v]) (f t v)) :
    Sound edges nodes limit s (ds ++ vs) (vs.foldlM f s) := by
  induction vs generalizing s ds with
  | nil =>
    rw [List.append_nil]
    exact ⟨rfl, h⟩
  | cons v vs ih =>
    have hv := hstep s ds v vs h hnext rfl
    rw [List.foldlM_cons]
    match hf : f s v with
    | .error (.cycle c) =>
      rw [hf] at hv
      exact hv
    | .error (.raised e) =>
      rw [hf] at hv
      exact hv
    | .ok t =>
      rw [hf] at hv
      obtain ⟨hstack, ht⟩ := hv
      rw [List.append_cons] at hnext ⊢
      have hrest := ih ht (hstack.symm ▸ hnext) fun r ds v vs hr hnext heq =>
        hstep r ds v vs hr hnext (heq.trans hstack)
      change Sound edges nodes limit s _ (vs.foldlM f t)
      match hfold : vs.foldlM f t with
      | .error (.cycle c) =>
        rw [hfold] at hrest
        exact hrest
      | .error (.raised e) =>
        rw [hfold] at hrest
        exact hrest
      | .ok r =>
        rw [hfold] at hrest
        exact ⟨hrest.1.trans hstack, hrest.2⟩

theorem dfs_sound {room : Nat} (h : s.Inv edges nodes limit ds)
    (hnext : next edges nodes s.stack = ds ++ u :: vs) (hu : s.color u = some .white)
    (hroom : room + s.stack.length = limit) :
    Sound edges nodes limit s (ds ++ [u]) (dfs edges room u s) := by
  induction room generalizing s u ds vs with
  | zero => exact ⟨_, h.tooDeep hedges hnext hu (by omega)⟩
  | succ room ih =>
    have hloop := sound_foldlM (adj edges u) (f := fun s v =>
      match s.color v with
      | some .gray => .error (.cycle (s.stack.drop (s.stack.idxOf v)))
      | some .white => dfs edges room v s
      | _ => .ok s) (h.enter hedges hnext hu (by omega))
        next_concat
        fun t ds v vs ht hnext hstack => by
          have hmem : v ∈ next edges nodes t.stack :=
            hnext ▸ List.mem_append_right _ List.mem_cons_self
          split
          · next hgray =>
            exact ⟨ht.isCycle_drop hgray (edge_of_mem_next hmem),
              fun w => ht.not_tooDeep hedges hnext hgray⟩
          · next hwhite =>
            refine ih ht hnext hwhite ?_
            have hlength := congrArg List.length hstack
            change t.stack.length = (s.stack ++ [u]).length at hlength
            rw [List.length_append, List.length_singleton] at hlength
            omega
          · next hgray hwhite =>
            exact ⟨rfl, ht.skip hnext (ht.black (mem_nodes_of_mem_next hedges hmem) hgray hwhite)⟩
    rw [dfs]
    revert hloop
    generalize (adj edges u).foldlM (m := Except (Halt A)) _ _ = o
    intro hloop
    match o with
    | .error (.cycle c) => exact hloop
    | .error (.raised e) => exact hloop
    | .ok t =>
      obtain ⟨hstack, ht⟩ := hloop
      have hdrop : t.stack.dropLast = s.stack := by
        rw [hstack]
        exact List.dropLast_concat
      have hleave := ht.leave hedges hstack hnext (h.untried hedges hnext (by simp [hu]))
      exact ⟨hdrop, hdrop ▸ hleave⟩

variable (limit) in
/-- The search raises exactly when there is a walk that is too deep; else it returns a cycle if
there is one. -/
theorem findCycle_sound :
    match findCycle edges limit nodes with
    | .ok none => Acyclic edges ∧ ∀ w, ¬ TooDeep edges nodes limit w
    | .ok (some c) => IsCycle edges c ∧ ∀ w, ¬ TooDeep edges nodes limit w
    | .error _ => ∃ w, TooDeep edges nodes limit w := by
  have hnone {w : List A} (hw : Walk edges nodes w) : ¬ Met edges nodes [] [] w := by
    rintro ((⟨hw', hne⟩ | ⟨p, a, b, -, hb, -⟩) | hnil | ⟨a, ha, -⟩)
    · exact hne (List.prefix_nil.mp hw')
    · simpa using hb.length_le
    · exact hw.ne_nil hnil
    · cases ha
  have hinv : Search.Inv edges nodes limit []
      ⟨fun a => if a ∈ nodes then some .white else none, []⟩ := by
    refine ⟨fun a => ?_, fun a => ?_, fun a ha => ?_, fun hne => absurd rfl hne,
      fun w hw hmet => absurd hmet (hnone hw), fun a ha hwhite => ?_⟩
    · by_cases hmem : a ∈ nodes <;> simp [hmem]
    · by_cases hmem : a ∈ nodes <;> simp [hmem]
    · by_cases hmem : a ∈ nodes <;> simp [hmem] at ha
    · exact absurd (if_pos ha) hwhite
  have hloop := sound_foldlM nodes (f := fun s node =>
    if s.color node = some .white then dfs edges limit node s else .ok s) hinv
      rfl
      fun t ds v vs ht hnext hstack => by
        have hv : v ∈ nodes := mem_nodes_of_mem_next hedges
          (hnext ▸ List.mem_append_right _ List.mem_cons_self)
        split
        · next hwhite => exact dfs_sound hedges ht hnext hwhite (by rw [hstack]; rfl)
        · next hwhite =>
          refine ⟨rfl, ht.skip hnext (ht.black hv (fun hgray => ?_) hwhite)⟩
          have hmem := (ht.gray v).mp hgray
          rw [hstack] at hmem
          cases hmem
  rw [findCycle]
  revert hloop
  generalize nodes.foldlM (m := Except (Halt A)) _ _ = o
  intro hloop
  match o with
  | .error (.cycle c) => exact hloop
  | .error (.raised e) => exact hloop
  | .ok t =>
    obtain ⟨hstack, ht⟩ := hloop
    refine ⟨fun a hwalk => ?_, fun w hw => ?_⟩
    · obtain ⟨b, hedge, -⟩ := TransGen.head'_iff.mp hwalk
      have hblack := ht.tried hedges (fun _ hmem => by rw [hstack]; exact hmem) (hedges _ hedge).1
      exact (ht.closed a hblack).2 hwalk
    · obtain ⟨a, q, rfl⟩ := List.exists_cons_of_ne_nil hw.walk.ne_nil
      have hmet : Met edges nodes ([] ++ nodes) t.stack (a :: q) := by
        rw [hstack]
        exact .inr (.inr ⟨a, hw.walk.start a rfl, by simp⟩)
      exact (ht.met _ hw.walk hmet).2.2.not_tooDeep hw

end Inv

theorem not_tooDeep_of_length_le (hedges : ∀ e ∈ edges, e.1 ∈ nodes ∧ e.2 ∈ nodes)
    (hlimit : nodes.length ≤ limit) : ¬ TooDeep edges nodes limit w := by
  intro h
  have hsub : w ⊆ nodes := fun v hv => by
    obtain ⟨l, r, rfl⟩ := List.append_of_mem hv
    exact mem_nodes_of_mem_next hedges (h.walk.mem_next (p := l) ⟨r, by simp⟩)
  have hle := (h.nodup.subperm hsub).length_le
  have hlong := h.long
  omega

/-! ## A long chain -/

/-- Each node leads to the next. -/
def chain (n : Nat) : List (Nat × Nat) := (List.range n).map fun i => (i, i + 1)

theorem mem_chain {n a b : Nat} : Edge (chain n) a b ↔ a < n ∧ b = a + 1 := by
  simp [Edge, chain, eq_comm]

theorem chain_acyclic (n : Nat) : Acyclic (chain n) := by
  have hlt {a b : Nat} (h : TransGen (Edge (chain n)) a b) : a < b := by
    induction h with
    | single hedge =>
      have := mem_chain.mp hedge
      omega
    | tail _ hedge ih =>
      have := mem_chain.mp hedge
      omega
  exact fun a h => lt_irrefl a (hlt h)

theorem chain_tooDeep (n : Nat) :
    TooDeep (chain n) (List.range (n + 1)) n (List.range (n + 1)) := by
  have hwalk : Walk (chain n) (List.range (n + 1)) (List.range (n + 1)) := by
    refine ⟨by simp, fun a ha => List.mem_of_head? ha, ?_⟩
    exact (List.isChain_range_succ _ n).mpr fun m hm => mem_chain.mpr ⟨hm, rfl⟩
  refine ⟨hwalk, by simp, fun w hw hbefore => ?_⟩
  rcases hbefore with ⟨⟨r, hr⟩, hne⟩ | ⟨p, a, b, -, hb, hlt⟩
  · have hnodup := hr ▸ List.nodup_range (n := n + 1)
    refine ⟨(List.nodup_append.mp hnodup).1, fun hend => ?_⟩
    have hne : r ≠ [] := by
      rintro rfl
      exact hne (hr ▸ (List.append_nil w).symm)
    rw [← hr, List.getLast?_append_of_ne_nil _ hne, List.getLast?_eq_some_getLast hne] at hend
    exact List.disjoint_of_nodup_append hnodup (List.mem_of_getLast? hend) (List.getLast_mem hne)
  · -- only one node is tried on the way, so that no walk turns off to another
    have hmem := hwalk.mem_next hb
    have hfirst : (next (chain n) (List.range (n + 1)) p).head? = some b := by
      rcases List.eq_nil_or_concat p with rfl | ⟨p, u, rfl⟩
      · obtain ⟨q, hq⟩ := hb
        exact (congrArg List.head? hq).symm
      · rw [List.concat_eq_append, next_concat] at hmem ⊢
        have hall : ∀ c ∈ adj (chain n) u, c = b := fun c hc =>
          (mem_chain.mp (mem_adj.mp hc)).2.trans (mem_chain.mp (mem_adj.mp hmem)).2.symm
        obtain ⟨c, l, hcons⟩ := List.exists_cons_of_ne_nil (List.ne_nil_of_mem hmem)
        rw [hcons] at hall ⊢
        rw [List.head?_cons, hall c List.mem_cons_self]
    obtain ⟨l, hl⟩ := List.head?_eq_some_iff.mp hfirst
    rw [hl, List.idxOf_cons_self] at hlt
    omega

theorem chain_edges (n : Nat) :
    ∀ e ∈ chain n, e.1 ∈ List.range (n + 1) ∧ e.2 ∈ List.range (n + 1) := by
  rintro ⟨a, b⟩ he
  obtain ⟨ha, rfl⟩ := mem_chain.mp he
  exact ⟨List.mem_range.mpr (by omega), List.mem_range.mpr (by omega)⟩

theorem findCycle_chain (n : Nat) : findCycle (chain n) n (List.range (n + 1)) = .error ⟨⟩ := by
  have hsound := findCycle_sound n (chain_edges n)
  match hfind : findCycle (chain n) n (List.range (n + 1)) with
  | .ok none =>
    rw [hfind] at hsound
    exact absurd (chain_tooDeep n) (hsound.2 _)
  | .ok (some c) =>
    rw [hfind] at hsound
    exact absurd (chain_tooDeep n) (hsound.2 _)
  | .error _ => rfl

end Windrose.Pipelines.Dag

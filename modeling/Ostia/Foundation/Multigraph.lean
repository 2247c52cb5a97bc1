import Mathlib.Data.Sym.Sym2
import Mathlib.Data.Multiset.Bind
import Mathlib.Data.Multiset.Count
import Mathlib.Logic.Equiv.Basic

/-!
# Labelled multigraphs with directed and undirected links

A multigraph is a multiset of links.  A link is directed or undirected, carries
a label, and may be a loop or parallel to another link.  Seen from a vertex, a
link is one or two arcs: a label, a direction and the vertex at the other end.

The arcs of all vertices determine the multiset of links.  A renaming of the
vertices is therefore a symmetry of the links as soon as it is one of the arcs,
which is how exchanging two vertices is tested.
-/

namespace Ostia
namespace Foundation
namespace Multigraph

variable {V W X L : Type*}

/-- One labelled link of a multigraph. -/
inductive Link (V L : Type*) where
  | directed (source target : V) (label : L)
  | undirected (ends : Sym2 V) (label : L)
deriving DecidableEq

/-- How a link is seen from one of its ends. -/
inductive Dir where
  | undirected
  | out
  | into
deriving DecidableEq, Repr

namespace Dir

/-- The direction of the same link seen from its other end. -/
def reverse : Dir -> Dir
  | undirected => undirected
  | out => into
  | into => out

@[simp] theorem reverse_reverse (d : Dir) : d.reverse.reverse = d := by
  cases d <;> rfl

end Dir

namespace Link

/-- A link with its ends renamed. -/
def map (f : V -> W) : Link V L -> Link W L
  | directed a b l => directed (f a) (f b) l
  | undirected e l => undirected (e.map f) l

theorem map_map (g : W -> X) (f : V -> W) (e : Link V L) :
    (e.map f).map g = e.map (g ∘ f) := by
  cases e with
  | directed a b l => rfl
  | undirected e l => simp [map, Sym2.map_map]

@[simp] theorem map_id (e : Link V L) : e.map id = e := by
  cases e with
  | directed a b l => rfl
  | undirected e l => simp [map]

theorem map_congr {f g : V -> W} (h : forall v, f v = g v) (e : Link V L) :
    e.map f = e.map g := by
  have hfg : f = g := funext h
  rw [hfg]

theorem map_injective {f : V -> W} (hf : Function.Injective f) :
    Function.Injective (map f : Link V L -> Link W L) := by
  intro e e' h
  cases e <;> cases e' <;> simp only [map, directed.injEq, undirected.injEq,
    reduceCtorEq] at h
  · rw [hf h.1, hf h.2.1, h.2.2]
  · rw [Sym2.map.injective hf h.1, h.2]

/-- A link with its label replaced. -/
def relabel {M : Type*} (h : L -> M) : Link V L -> Link V M
  | directed a b l => directed a b (h l)
  | undirected e l => undirected e (h l)

def label : Link V L -> L
  | directed _ _ l => l
  | undirected _ l => l

@[simp] theorem label_map (f : V -> W) (e : Link V L) :
    (e.map f).label = e.label := by
  cases e <;> rfl

@[simp] theorem label_relabel {M : Type*} (h : L -> M) (e : Link V L) :
    (e.relabel h).label = h e.label := by
  cases e <;> rfl

theorem relabel_map {M : Type*} (h : L -> M) (f : V -> W) (e : Link V L) :
    (e.map f).relabel h = (e.relabel h).map f := by
  cases e <;> rfl

theorem relabel_relabel {M N : Type*} (h' : M -> N) (h : L -> M) (e : Link V L) :
    (e.relabel h).relabel h' = e.relabel (h' ∘ h) := by
  cases e <;> rfl

theorem relabel_eq_self {h : L -> L} {e : Link V L} (heq : h e.label = e.label) :
    e.relabel h = e := by
  cases e with
  | directed a b l => exact congrArg (directed a b) heq
  | undirected e l => exact congrArg (undirected e) heq

variable [DecidableEq V]

/-- The arcs of a link at a vertex: label, direction and far end. -/
def arcs (x : V) : Link V L -> Multiset (L × Dir × V)
  | directed a b l =>
      (if a = x then {(l, Dir.out, b)} else 0) +
        (if b = x then {(l, Dir.into, a)} else 0)
  | undirected e l =>
      e.lift
        ⟨fun a b =>
          (if a = x then {(l, Dir.undirected, b)} else 0) +
            (if b = x then {(l, Dir.undirected, a)} else 0),
          fun _ _ => add_comm _ _⟩

@[simp] theorem arcs_directed (x a b : V) (l : L) :
    (directed a b l).arcs x =
      (if a = x then {(l, Dir.out, b)} else 0) +
        (if b = x then {(l, Dir.into, a)} else 0) := rfl

@[simp] theorem arcs_undirected (x a b : V) (l : L) :
    (undirected s(a, b) l).arcs x =
      (if a = x then {(l, Dir.undirected, b)} else 0) +
        (if b = x then {(l, Dir.undirected, a)} else 0) := rfl

end Link

/-!
## Arcs of a multigraph
-/

section Arcs

variable [DecidableEq V]

/-- The arcs at a vertex of a multiset of links. -/
def arcs (E : Multiset (Link V L)) (x : V) : Multiset (L × Dir × V) :=
  E.bind (Link.arcs x)

/-- Rename the far end of an arc. -/
def renameEnd (f : V -> W) (a : L × Dir × V) : L × Dir × W :=
  (a.1, a.2.1, f a.2.2)

theorem link_arcs_map [DecidableEq W] (f : V ≃ W) (x : V) (e : Link V L) :
    (e.map f).arcs (f x) = (e.arcs x).map (renameEnd f) := by
  cases e with
  | directed a b l =>
      simp only [Link.map, Link.arcs_directed, f.injective.eq_iff]
      split_ifs <;> simp [renameEnd]
  | undirected e l =>
      induction e using Sym2.ind with
      | _ a b =>
          simp only [Link.map, Sym2.map_mk, Link.arcs_undirected,
            f.injective.eq_iff]
          split_ifs <;> simp [renameEnd]

/-- Renaming the vertices of all links renames the arcs. -/
theorem arcs_map [DecidableEq W] (f : V ≃ W) (E : Multiset (Link V L)) (x : V) :
    arcs (E.map (Link.map f)) (f x) = (arcs E x).map (renameEnd f) := by
  unfold arcs
  rw [Multiset.bind_map, Multiset.map_bind]
  exact Multiset.bind_congr fun e _ => link_arcs_map f x e

end Arcs

/-!
## Counting arcs
-/

section Count

variable [DecidableEq V] [DecidableEq L]

/-- How often an arc with a given far end, label and direction occurs. -/
def arcCount (E : Multiset (Link V L)) (x y : V) (l : L) (d : Dir) : Nat :=
  (arcs E x).count (l, d, y)

theorem arcCount_zero (x y : V) (l : L) (d : Dir) :
    arcCount (0 : Multiset (Link V L)) x y l d = 0 := by
  simp [arcCount, arcs]

theorem arcCount_cons (e : Link V L) (E : Multiset (Link V L)) (x y : V)
    (l : L) (d : Dir) :
    arcCount (e ::ₘ E) x y l d =
      (e.arcs x).count (l, d, y) + arcCount E x y l d := by
  simp [arcCount, arcs, Multiset.count_add]

theorem link_count_reverse (e : Link V L) (x y : V) (l : L) (d : Dir) :
    (e.arcs x).count (l, d, y) = (e.arcs y).count (l, d.reverse, x) := by
  cases e with
  | directed a b k =>
      cases d <;>
        simp only [Link.arcs_directed, Multiset.count_add, Dir.reverse] <;>
        split_ifs <;> simp_all [Multiset.count_singleton, eq_comm]
  | undirected e k =>
      induction e using Sym2.ind with
      | _ a b =>
          cases d <;>
            simp only [Link.arcs_undirected, Multiset.count_add,
              Dir.reverse] <;>
            split_ifs <;> simp_all [Multiset.count_singleton, eq_comm]

/-- An arc from one end of a link is an arc of reverse direction from the other. -/
theorem arcCount_reverse (E : Multiset (Link V L)) (x y : V) (l : L)
    (d : Dir) : arcCount E x y l d = arcCount E y x l d.reverse := by
  induction E using Multiset.induction with
  | empty =>
      rw [arcCount_zero, arcCount_zero]
  | cons e E ih =>
      rw [arcCount_cons, arcCount_cons, ih, link_count_reverse]

theorem arcCount_map [DecidableEq W] (f : V ≃ W) (E : Multiset (Link V L))
    (x y : V) (l : L) (d : Dir) :
    arcCount (E.map (Link.map f)) (f x) (f y) l d = arcCount E x y l d := by
  have hinj : Function.Injective (renameEnd f : L × Dir × V -> L × Dir × W) := by
    rintro ⟨l1, d1, y1⟩ ⟨l2, d2, y2⟩ h
    simpa [renameEnd] using h
  unfold arcCount
  rw [arcs_map]
  exact Multiset.count_map_eq_count' _ _ hinj (l, d, y)

theorem link_count_out (e : Link V L) (a b : V) (l : L) :
    (e.arcs a).count (l, Dir.out, b) =
      if e = Link.directed a b l then 1 else 0 := by
  cases e with
  | directed a' b' k =>
      have hinto :
          (if b' = a then {(k, Dir.into, a')} else 0 :
            Multiset (L × Dir × V)).count (l, Dir.out, b) = 0 := by
        split_ifs <;> simp
      rw [Link.arcs_directed, Multiset.count_add, hinto, Nat.add_zero]
      by_cases ha : a' = a
      · simp only [ha, if_true, Multiset.count_singleton, Prod.mk.injEq,
          Link.directed.injEq, true_and]
        simp only [eq_comm, and_comm]
      · simp [ha]
  | undirected e k =>
      induction e using Sym2.ind with
      | _ a' b' =>
          simp only [Link.arcs_undirected, Multiset.count_add, reduceCtorEq,
            if_false]
          split_ifs <;> simp

theorem link_count_undirected (e : Link V L) (a b : V) (l : L) :
    (e.arcs a).count (l, Dir.undirected, b) =
      if e = Link.undirected s(a, b) l then (if a = b then 2 else 1) else 0 := by
  cases e with
  | directed a' b' k =>
      simp only [Link.arcs_directed, Multiset.count_add, reduceCtorEq, if_false]
      split_ifs <;> simp
  | undirected e k =>
      induction e using Sym2.ind with
      | _ a' b' =>
          by_cases ha : a' = a <;> by_cases hb : b' = a <;>
            by_cases hl : l = k <;> by_cases hab : a = b <;>
            simp_all [Multiset.count_singleton, eq_comm]

theorem count_directed (E : Multiset (Link V L)) (a b : V) (l : L) :
    E.count (Link.directed a b l) = arcCount E a b l Dir.out := by
  induction E using Multiset.induction with
  | empty =>
      rw [arcCount_zero, Multiset.count_zero]
  | cons e E ih =>
      rw [arcCount_cons, Multiset.count_cons, link_count_out, ih, add_comm]
      simp only [eq_comm]

theorem count_undirected (E : Multiset (Link V L)) (a b : V) (l : L) :
    E.count (Link.undirected s(a, b) l) * (if a = b then 2 else 1) =
      arcCount E a b l Dir.undirected := by
  induction E using Multiset.induction with
  | empty =>
      rw [arcCount_zero, Multiset.count_zero, Nat.zero_mul]
  | cons e E ih =>
      rw [arcCount_cons, Multiset.count_cons, link_count_undirected, Nat.add_mul,
        ih, add_comm]
      by_cases he : e = Link.undirected s(a, b) l
      · simp [he]
      · simp [he, Ne.symm he]

/-- The arcs of all vertices determine the links. -/
theorem eq_of_arcCount_eq {E E' : Multiset (Link V L)}
    (h : forall x y l d, arcCount E x y l d = arcCount E' x y l d) :
    E = E' := by
  ext e
  cases e with
  | directed a b l =>
      rw [count_directed, count_directed, h]
  | undirected e l =>
      induction e using Sym2.ind with
      | _ a b =>
          have hcount := h a b l Dir.undirected
          rw [← count_undirected, ← count_undirected] at hcount
          refine Nat.eq_of_mul_eq_mul_right ?_ hcount
          split_ifs <;> decide

/-!
## Exchanging two vertices
-/

/-- The arcs of the first vertex to the second. -/
def mutualArcs (E : Multiset (Link V L)) (u v : V) : Multiset (L × Dir) :=
  ((arcs E u).filter (fun a => a.2.2 = v)).map (fun a => (a.1, a.2.1))

/-- The arcs of the first vertex that do not reach the second; a loop has no far end. -/
def otherArcs (E : Multiset (Link V L)) (u v : V) :
    Multiset (L × Dir × Option V) :=
  ((arcs E u).filter (fun a => a.2.2 ≠ v)).map
    (fun a => (a.1, a.2.1, if a.2.2 = u then none else some a.2.2))

theorem count_mutualArcs (E : Multiset (Link V L)) (u v : V) (l : L) (d : Dir) :
    (mutualArcs E u v).count (l, d) = arcCount E u v l d := by
  unfold mutualArcs arcCount
  rw [Multiset.count_map, Multiset.filter_filter, Multiset.count,
    Multiset.countP_eq_card_filter]
  congr 1
  apply Multiset.filter_congr
  rintro ⟨l', d', y⟩ _
  simp only [Prod.mk.injEq]
  tauto

theorem count_otherArcs_some (E : Multiset (Link V L)) {u v w : V} (l : L)
    (d : Dir) (hu : w ≠ u) (hv : w ≠ v) :
    (otherArcs E u v).count (l, d, some w) = arcCount E u w l d := by
  unfold otherArcs arcCount
  rw [Multiset.count_map, Multiset.filter_filter, Multiset.count,
    Multiset.countP_eq_card_filter]
  congr 1
  apply Multiset.filter_congr
  rintro ⟨l', d', y⟩ _
  by_cases hy : y = u
  · subst hy
    simp [hu]
  · simp only [hy, if_false, Prod.mk.injEq, Option.some.injEq]
    constructor
    · rintro ⟨⟨rfl, rfl, rfl⟩, _⟩
      exact ⟨rfl, rfl, rfl⟩
    · rintro ⟨rfl, rfl, rfl⟩
      exact ⟨⟨rfl, rfl, rfl⟩, hv⟩

theorem count_otherArcs_none (E : Multiset (Link V L)) {u v : V} (l : L)
    (d : Dir) (huv : u ≠ v) :
    (otherArcs E u v).count (l, d, none) = arcCount E u u l d := by
  unfold otherArcs arcCount
  rw [Multiset.count_map, Multiset.filter_filter, Multiset.count,
    Multiset.countP_eq_card_filter]
  congr 1
  apply Multiset.filter_congr
  rintro ⟨l', d', y⟩ _
  by_cases hy : y = u
  · subst hy
    simp only [if_true, Prod.mk.injEq, and_true]
    tauto
  · simp [hy, Ne.symm hy]

theorem count_otherArcs_self (E : Multiset (Link V L)) (u v : V) (l : L) (d : Dir) :
    (otherArcs E u v).count (l, d, some u) = 0 := by
  unfold otherArcs
  rw [Multiset.count_eq_zero, Multiset.mem_map]
  intro h
  obtain ⟨⟨l', d', y⟩, _, heq⟩ := h
  by_cases hy : y = u
  · simp [hy] at heq
  · simp [hy] at heq

theorem count_otherArcs_other (E : Multiset (Link V L)) (u v : V) (l : L) (d : Dir) :
    (otherArcs E u v).count (l, d, some v) = 0 := by
  unfold otherArcs
  rw [Multiset.count_eq_zero, Multiset.mem_map]
  intro h
  obtain ⟨⟨l', d', y⟩, hy, heq⟩ := h
  rw [Multiset.mem_filter] at hy
  by_cases hu : y = u
  · simp [hu] at heq
  · simp only [hu, if_false, Prod.mk.injEq, Option.some.injEq] at heq
    exact hy.2 heq.2.2

/-- A symmetry that exchanges two vertices leaves them the same arcs. -/
theorem arcs_eq_of_map_swap {E : Multiset (Link V L)} {u v : V} (huv : u ≠ v)
    (h : E.map (Link.map (Equiv.swap u v)) = E) :
    mutualArcs E u v = mutualArcs E v u ∧ otherArcs E u v = otherArcs E v u := by
  have hcount : forall x y l d,
      arcCount E (Equiv.swap u v x) (Equiv.swap u v y) l d = arcCount E x y l d := by
    intro x y l d
    have hmap := arcCount_map (Equiv.swap u v) E x y l d
    rwa [h] at hmap
  constructor
  · ext ⟨l, d⟩
    rw [count_mutualArcs, count_mutualArcs, ← hcount u v, Equiv.swap_apply_left,
      Equiv.swap_apply_right]
  · ext ⟨l, d, y⟩
    cases y with
    | none =>
        rw [count_otherArcs_none E l d huv, count_otherArcs_none E l d huv.symm,
          ← hcount u u, Equiv.swap_apply_left]
    | some w =>
        by_cases hu : w = u
        · rw [hu, count_otherArcs_self, count_otherArcs_other]
        · by_cases hv : w = v
          · rw [hv, count_otherArcs_self, count_otherArcs_other]
          · rw [count_otherArcs_some E l d hu hv, count_otherArcs_some E l d hv hu,
              ← hcount u w, Equiv.swap_apply_left, Equiv.swap_apply_of_ne_of_ne hu hv]

/--
Two vertices with the same arcs to each other, the same loops and the same arcs
to every third vertex are exchanged by a symmetry of the multigraph.
-/
theorem map_swap_eq {E : Multiset (Link V L)} {u v : V} (huv : u ≠ v)
    (hmutual : mutualArcs E u v = mutualArcs E v u)
    (hother : otherArcs E u v = otherArcs E v u) :
    E.map (Link.map (Equiv.swap u v)) = E := by
  have hcross : forall l d, arcCount E u v l d = arcCount E v u l d := by
    intro l d
    rw [← count_mutualArcs, ← count_mutualArcs, hmutual]
  have hloop : forall l d, arcCount E u u l d = arcCount E v v l d := by
    intro l d
    rw [← count_otherArcs_none E l d huv, ← count_otherArcs_none E l d huv.symm,
      hother]
  have hthird : forall w l d, w ≠ u -> w ≠ v ->
      arcCount E u w l d = arcCount E v w l d := by
    intro w l d hu hv
    rw [← count_otherArcs_some E l d hu hv,
      ← count_otherArcs_some E l d hv hu, hother]
  have hthird' : forall w l d, w ≠ u -> w ≠ v ->
      arcCount E w u l d = arcCount E w v l d := by
    intro w l d hu hv
    rw [arcCount_reverse, hthird w l d.reverse hu hv, arcCount_reverse,
      Dir.reverse_reverse]
  have hswap : forall x y l d,
      arcCount E (Equiv.swap u v x) (Equiv.swap u v y) l d =
        arcCount E x y l d := by
    intro x y l d
    -- The nine positions of the two ends against the exchanged pair.
    by_cases hxu : x = u
    · subst hxu
      by_cases hyu : y = x
      · rw [hyu, Equiv.swap_apply_left, hloop]
      · by_cases hyv : y = v
        · rw [hyv, Equiv.swap_apply_left, Equiv.swap_apply_right, hcross]
        · rw [Equiv.swap_apply_left, Equiv.swap_apply_of_ne_of_ne hyu hyv,
            hthird y l d hyu hyv]
    · by_cases hxv : x = v
      · subst hxv
        by_cases hyu : y = u
        · rw [hyu, Equiv.swap_apply_left, Equiv.swap_apply_right, hcross]
        · by_cases hyv : y = x
          · rw [hyv, Equiv.swap_apply_right, hloop]
          · rw [Equiv.swap_apply_right, Equiv.swap_apply_of_ne_of_ne hyu hyv,
              hthird y l d hyu hyv]
      · rw [Equiv.swap_apply_of_ne_of_ne hxu hxv]
        by_cases hyu : y = u
        · rw [hyu, Equiv.swap_apply_left, hthird' x l d hxu hxv]
        · by_cases hyv : y = v
          · rw [hyv, Equiv.swap_apply_right, hthird' x l d hxu hxv]
          · rw [Equiv.swap_apply_of_ne_of_ne hyu hyv]
  apply eq_of_arcCount_eq
  intro x y l d
  have hmap := arcCount_map (Equiv.swap u v) E (Equiv.swap u v x)
    (Equiv.swap u v y) l d
  rw [Equiv.swap_apply_self, Equiv.swap_apply_self] at hmap
  rw [hmap, hswap]

end Count

end Multigraph
end Foundation
end Ostia

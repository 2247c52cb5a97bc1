import Ostia.Foundation.ForestClasses
import Ostia.Topology.Identity.PermGroup
import Ostia.Topology.Identity.StrongGenerators

/-!
# Orbits are complete

The orbits of a cell are joined from the strong generators that fix the path, which generate
the stabiliser of the path.  An element of the stabiliser that carries one vertex of the cell to
another stays in the cell at each of its generators, so it stays in one orbit.
-/

namespace Ostia
namespace Topology

open Foundation
open Foundation.UnionFind (Forest classOf mem_classOf)

namespace Identity
namespace PermGroup

variable {n : Nat}

/-- The generator leads from each vertex of the cell to one of the same tree. -/
def Follows (f : Forest n) (cell : List (Fin n)) (s : Perm n) : Prop :=
  forall x, x ∈ cell -> f.top x = f.top (s x)

theorem joinImages_keeps (cell : List (Fin n)) (s : Perm n) {f : Forest n} {x y : Fin n}
    (h : f.top x = f.top y) : (joinImages cell f s).top x = (joinImages cell f s).top y := by
  unfold joinImages
  induction cell generalizing f with
  | nil => exact h
  | cons z cell ih => exact ih (UnionFind.union_keeps f z (s z) h)

theorem joinImages_follows (cell : List (Fin n)) (s : Perm n) (f : Forest n) :
    Follows (joinImages cell f s) cell s := by
  unfold Follows
  induction cell generalizing f with
  | nil =>
      intro x hx
      cases hx
  | cons z cell ih =>
      intro x hx
      cases List.mem_cons.mp hx with
      | inl hxz =>
          rw [hxz]
          exact joinImages_keeps cell s (UnionFind.union_joins f z (s z))
      | inr hx => exact ih (f.union z (s z)) x hx

theorem foldl_joinImages_keeps (gens : List (Perm n)) (cell : List (Fin n)) {f : Forest n}
    {x y : Fin n} (h : f.top x = f.top y) :
    (gens.foldl (joinImages cell) f).top x = (gens.foldl (joinImages cell) f).top y := by
  induction gens generalizing f with
  | nil => exact h
  | cons s gens ih => exact ih (joinImages_keeps cell s h)

theorem foldl_joinImages_follows (gens : List (Perm n)) (cell : List (Fin n)) (f : Forest n) :
    forall s, s ∈ gens -> Follows (gens.foldl (joinImages cell) f) cell s := by
  induction gens generalizing f with
  | nil =>
      intro s hs
      cases hs
  | cons t gens ih =>
      intro s hs
      cases List.mem_cons.mp hs with
      | inl hst =>
          intro x hx
          rw [hst]
          exact foldl_joinImages_keeps gens cell (joinImages_follows cell t f x hx)
      | inr hs => exact ih (joinImages cell f t) s hs

/-- An element of the group that the generators span follows the trees too. -/
theorem follows_closure {f : Forest n} {cell : List (Fin n)} {gens : List (Perm n)}
    (hgens : forall s, s ∈ gens -> Follows f cell s)
    (hcell : forall u, u ∈ Subgroup.closure { s | s ∈ gens } -> forall x, x ∈ cell -> u x ∈ cell)
    {u : Perm n} (hu : u ∈ Subgroup.closure { s | s ∈ gens }) : Follows f cell u := by
  induction hu using Subgroup.closure_induction with
  | mem s hs => exact hgens s hs
  | one =>
      intro x hx
      rfl
  | mul u w hu hw ihu ihw =>
      intro x hx
      rw [ihw x hx]
      exact ihu (w x) (hcell w hw x hx)
  | inv u hu ih =>
      intro x hx
      have hback := hcell u⁻¹ ((Subgroup.closure _).inv_mem hu) x hx
      have hfollow := ih (u⁻¹ x) hback
      have hself : u (u⁻¹ x) = x := u.apply_symm_apply x
      rw [hself] at hfollow
      exact hfollow.symm

/-- The forest of the orbits. -/
def orbitForest (G : PermGroup n) (path cell : List (Fin n)) : Forest n :=
  if G.gens.isEmpty then Forest.start n
  else
    ((StabiliserChain.build path G.gens).stabiliserGenerators path.length).foldl
      (joinImages cell) (Forest.start n)

theorem orbitsFixing_eq (G : PermGroup n) (path cell : List (Fin n)) :
    G.orbitsFixing path cell = (G.orbitForest path cell).classes cell := rfl

/-- The elements of the group that fix the path. -/
def stabiliser (G : PermGroup n) (path : List (Fin n)) : Subgroup (Perm n) :=
  Subgroup.closure { s | s ∈ G.gens } ⊓ StabiliserChain.fixing path

theorem mem_stabiliser {G : PermGroup n} {path : List (Fin n)} {u : Perm n} :
    u ∈ G.stabiliser path <->
      u ∈ Subgroup.closure { s | s ∈ G.gens } ∧ forall p, p ∈ path -> u p = p := by
  unfold stabiliser
  rw [Subgroup.mem_inf, StabiliserChain.mem_fixing]

theorem closure_stabiliserGenerators (G : PermGroup n) {path : List (Fin n)}
    (hpath : path.Nodup) :
    Subgroup.closure
        { s | s ∈ (StabiliserChain.build path G.gens).stabiliserGenerators path.length } =
      G.stabiliser path := by
  obtain ⟨_, hbase, hclosed⟩ := StabiliserChain.build_complete path hpath G.gens
  rw [hclosed path.length hbase.length_le, List.prefix_iff_eq_take.mp hbase |>.symm]
  rfl

theorem orbitForest_follows {G : PermGroup n} {path : List (Fin n)} (hpath : path.Nodup)
    {cell : List (Fin n)}
    (hcell : forall u, u ∈ G.stabiliser path -> forall x, x ∈ cell -> u x ∈ cell)
    {u : Perm n} (hu : u ∈ G.stabiliser path) : Follows (G.orbitForest path cell) cell u := by
  unfold orbitForest
  split_ifs with hempty
  · have hone : u = 1 := by
      have hmem := (mem_stabiliser.mp hu).1
      rw [List.isEmpty_iff.mp hempty] at hmem
      simpa using hmem
    rw [hone]
    intro x hx
    rfl
  · have hgroup := closure_stabiliserGenerators G hpath
    apply follows_closure (foldl_joinImages_follows _ cell _)
    · intro w hw
      exact hcell w (hgroup ▸ hw)
    · rw [hgroup]
      exact hu

/-- Two vertices of the cell are in one tree exactly when the stabiliser carries one to the
other. -/
theorem orbitForest_top_iff {G : PermGroup n} {path : List (Fin n)} (hpath : path.Nodup)
    {cell : List (Fin n)}
    (hcell : forall u, u ∈ G.stabiliser path -> forall x, x ∈ cell -> u x ∈ cell)
    {x y : Fin n} (hx : x ∈ cell) (hy : y ∈ cell) :
    (G.orbitForest path cell).top x = (G.orbitForest path cell).top y <->
      Carries (G.stabiliser path) x y := by
  constructor
  · intro htop
    obtain ⟨roots, _, hmet, hclasses⟩ := UnionFind.classes_eq (G.orbitForest path cell) cell
    have hwithin : G.Within (Subgroup.closure { s | s ∈ G.gens }) :=
      fun s hs => Subgroup.subset_closure hs
    apply orbitsFixing_carries hwithin hpath
    · rw [orbitsFixing_eq, hclasses]
      exact List.mem_map_of_mem ((hmet _).mpr ⟨x, hx, rfl⟩)
    · exact mem_classOf.mpr ⟨hx, rfl⟩
    · exact mem_classOf.mpr ⟨hy, htop.symm⟩
  · intro hcarries
    obtain ⟨u, hu, huy⟩ := hcarries
    rw [← huy]
    exact orbitForest_follows hpath hcell hu x hx

/-- The lists hold every vertex of the cell, each in one list only. -/
structure Partition (cell : List (Fin n)) (orbits : List (List (Fin n))) : Prop where
  all : orbits.flatten.Perm cell
  nonempty : forall orbit, orbit ∈ orbits -> orbit ≠ []
  disjoint : orbits.Pairwise List.Disjoint

/--
For a cell that the stabiliser of a path maps to itself, the lists are its orbits: they part the
cell, and two vertices are in one list exactly when an element of the group fixes the path and
maps one to the other.
-/
theorem orbitsFixing_orbits (G : PermGroup n) {path : List (Fin n)} (hpath : path.Nodup)
    {cell : List (Fin n)}
    (hcell : forall u, u ∈ Subgroup.closure { s | s ∈ G.gens } -> (forall p, p ∈ path -> u p = p) ->
      forall x, x ∈ cell -> u x ∈ cell) :
    Partition cell (G.orbitsFixing path cell) ∧
      forall x y, x ∈ cell -> y ∈ cell ->
        ((exists orbit, orbit ∈ G.orbitsFixing path cell ∧ x ∈ orbit ∧ y ∈ orbit) <->
          exists u, u ∈ Subgroup.closure { s | s ∈ G.gens } ∧ (forall p, p ∈ path -> u p = p) ∧
            u x = y) := by
  have hstays : forall u, u ∈ G.stabiliser path -> forall x, x ∈ cell -> u x ∈ cell := by
    intro u hu
    exact hcell u (mem_stabiliser.mp hu).1 (mem_stabiliser.mp hu).2
  obtain ⟨roots, hnodup, hmet, hclasses⟩ := UnionFind.classes_eq (G.orbitForest path cell) cell
  rw [orbitsFixing_eq, hclasses]
  constructor
  · constructor
    · apply UnionFind.flatten_classOf_perm _ hnodup
      intro x hx
      exact (hmet _).mpr ⟨x, hx, rfl⟩
    · intro orbit horbit hnil
      obtain ⟨r, hr, rfl⟩ := List.mem_map.mp horbit
      obtain ⟨x, hx, hxr⟩ := (hmet r).mp hr
      have hmem : x ∈ classOf (G.orbitForest path cell) cell r := mem_classOf.mpr ⟨hx, hxr⟩
      rw [hnil] at hmem
      cases hmem
    · apply List.pairwise_map.mpr
      apply hnodup.imp
      intro r r' hne x hx hx'
      exact hne ((mem_classOf.mp hx).2.symm.trans (mem_classOf.mp hx').2)
  · intro x y hx hy
    have htop := orbitForest_top_iff hpath hstays hx hy
    constructor
    · intro horbit
      obtain ⟨orbit, horbit, hxo, hyo⟩ := horbit
      obtain ⟨r, _, rfl⟩ := List.mem_map.mp horbit
      obtain ⟨u, hu, huy⟩ :=
        htop.mp ((mem_classOf.mp hxo).2.trans (mem_classOf.mp hyo).2.symm)
      exact ⟨u, (mem_stabiliser.mp hu).1, (mem_stabiliser.mp hu).2, huy⟩
    · intro hcarries
      obtain ⟨u, hu, hfix, huy⟩ := hcarries
      have hsame := htop.mpr ⟨u, mem_stabiliser.mpr ⟨hu, hfix⟩, huy⟩
      exact ⟨_, List.mem_map_of_mem ((hmet _).mpr ⟨x, hx, rfl⟩), mem_classOf.mpr ⟨hx, rfl⟩,
        mem_classOf.mpr ⟨hy, hsame.symm⟩⟩

theorem swap_keeps_cell {u : Perm 3} (h : u 0 = 0) :
    forall x, x ∈ ([1, 2] : List (Fin 3)) -> u x ∈ ([1, 2] : List (Fin 3)) := by
  intro x hx
  have hne : u x ≠ 0 := by
    intro hzero
    have hx0 : x = 0 := u.injective (hzero.trans h.symm)
    rw [hx0] at hx
    revert hx
    decide
  generalize u x = y at hne
  revert y
  decide

theorem orbitsFixing_orbits_swap :
    ([0] : List (Fin 3)).Nodup ∧
      Partition [1, 2] ((⟨[Equiv.swap 1 2]⟩ : PermGroup 3).orbitsFixing [0] [1, 2]) ∧
      ((exists orbit, orbit ∈ (⟨[Equiv.swap 1 2]⟩ : PermGroup 3).orbitsFixing [0] [1, 2] ∧
          (1 : Fin 3) ∈ orbit ∧ 2 ∈ orbit) <->
        exists u, u ∈ Subgroup.closure { s | s ∈ [Equiv.swap (1 : Fin 3) 2] } ∧
          (forall p, p ∈ ([0] : List (Fin 3)) -> u p = p) ∧ u 1 = 2) := by
  have horbits := @orbitsFixing_orbits 3 ⟨[Equiv.swap 1 2]⟩ [0] (by decide) [1, 2]
    (fun u _ hfix => swap_keeps_cell (hfix 0 (by decide)))
  exact ⟨by decide, horbits.1, horbits.2 1 2 (by decide) (by decide)⟩

end PermGroup
end Identity
end Topology
end Ostia

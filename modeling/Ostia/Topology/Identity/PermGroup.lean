import Ostia.Foundation.UnionFind
import Ostia.Topology.Identity.StabiliserChain

/-!
# The group of the automorphisms found

The found automorphisms are kept as generators.  The orbits of a cell under the
stabiliser of a path are joined from the strong generators that fix the path.
Two vertices of one orbit are exchanged by an element of the group that fixes
the path.
-/

namespace Ostia
namespace Topology

open Foundation
open Foundation.UnionFind (Forest)

namespace Identity

variable {n : Nat}

structure PermGroup (n : Nat) where
  gens : List (Perm n)

namespace PermGroup

def generators (G : PermGroup n) : Nat := G.gens.length

def add (G : PermGroup n) (p : Perm n) : PermGroup n :=
  if !isIdentity p && !G.gens.contains p then ⟨G.gens ++ [p]⟩ else G

/-- Join every vertex of the cell with its image. -/
def joinImages (cell : List (Fin n)) (f : Forest n) (s : Perm n) : Forest n :=
  cell.foldl (fun f x => f.union x (s x)) f

/-- The orbits of a cell under the pointwise stabiliser of a path. -/
def orbitsFixing (G : PermGroup n) (path cell : List (Fin n)) :
    List (List (Fin n)) :=
  let forest :=
    if G.gens.isEmpty then Forest.start n
    else
      ((StabiliserChain.build path G.gens).stabiliserGenerators path.length).foldl
        (joinImages cell) (Forest.start n)
  forest.classes cell

/-!
## Orbits are sound
-/

/-- Every generator lies in a group. -/
def Within (G : PermGroup n) (H : Subgroup (Perm n)) : Prop :=
  forall s, s ∈ G.gens -> s ∈ H

theorem add_within {G : PermGroup n} {H : Subgroup (Perm n)} (h : G.Within H)
    {p : Perm n} (hp : p ∈ H) : (G.add p).Within H := by
  intro s hs
  unfold add at hs
  split_ifs at hs
  · rw [List.mem_append, List.mem_singleton] at hs
    rcases hs with hs | rfl
    · exact h s hs
    · exact hp
  · exact h s hs

/-- Some element of a group carries one vertex to the other. -/
def Carries (H : Subgroup (Perm n)) (x y : Fin n) : Prop :=
  exists u, u ∈ H ∧ u x = y

theorem carries_equivalence (H : Subgroup (Perm n)) : Equivalence (Carries H) where
  refl x := ⟨1, H.one_mem, rfl⟩
  symm := by
    rintro x y ⟨u, hu, rfl⟩
    exact ⟨u⁻¹, H.inv_mem hu, u.symm_apply_apply x⟩
  trans := by
    rintro x y z ⟨u, hu, rfl⟩ ⟨w, hw, rfl⟩
    exact ⟨w * u, H.mul_mem hw hu, rfl⟩

theorem joinImages_sound {K : Subgroup (Perm n)} {s : Perm n} (hs : s ∈ K)
    (cell : List (Fin n)) {f : Forest n}
    (hf : UnionFind.Sound (Carries K) f) :
    UnionFind.Sound (Carries K) (joinImages cell f s) := by
  unfold joinImages
  induction cell generalizing f with
  | nil => exact hf
  | cons x rest ih =>
      exact ih (UnionFind.union_sound (carries_equivalence K) hf ⟨s, hs, rfl⟩)

theorem foldl_joinImages_sound {K : Subgroup (Perm n)} {gens : List (Perm n)}
    (hgens : forall s, s ∈ gens -> s ∈ K) (cell : List (Fin n)) {f : Forest n}
    (hf : UnionFind.Sound (Carries K) f) :
    UnionFind.Sound (Carries K) (gens.foldl (joinImages cell) f) := by
  induction gens generalizing f with
  | nil => exact hf
  | cons s rest ih =>
      refine ih (fun s' hs' => hgens s' (List.mem_cons_of_mem s hs')) ?_
      exact joinImages_sound (hgens s List.mem_cons_self) cell hf

/-- Two vertices of one orbit are exchanged by a group element that fixes the path. -/
theorem orbitsFixing_carries {G : PermGroup n} {H : Subgroup (Perm n)}
    (hG : G.Within H) {path : List (Fin n)} (hpath : path.Nodup)
    {cell orbit : List (Fin n)} (horbit : orbit ∈ G.orbitsFixing path cell)
    {x y : Fin n} (hx : x ∈ orbit) (hy : y ∈ orbit) :
    Carries (H ⊓ StabiliserChain.fixing path) x y := by
  have hequiv := carries_equivalence (H ⊓ StabiliserChain.fixing path)
  have hstart := UnionFind.start_sound hequiv
  unfold orbitsFixing at horbit
  refine UnionFind.classes_related hequiv ?_ horbit hx hy
  split_ifs
  · exact hstart
  · apply foldl_joinImages_sound _ cell hstart
    intro s hs
    rcases StabiliserChain.build_generators hpath hG hs with ⟨hmem, hfix⟩
    exact ⟨hmem, StabiliserChain.mem_fixing.mpr hfix⟩

theorem mem_orbitsFixing (G : PermGroup n) (path : List (Fin n))
    {cell : List (Fin n)} {x : Fin n} (hx : x ∈ cell) :
    exists orbit, orbit ∈ G.orbitsFixing path cell ∧ x ∈ orbit :=
  UnionFind.mem_classes _ hx

end PermGroup

end Identity
end Topology
end Ostia

import Ostia.Topology.Identity.Certificate
import Ostia.Topology.Identity.PermGroup

/-!
# The canonical search

The search tree branches on the first cell with more than one vertex: the chosen
vertex gets colour 2c, every other vertex 2c+1 for its old colour c, and the
colouring is refined.  A leaf is a discrete colouring, and the search keeps the
leaf with the smallest certificate.

Three prunings act on the tree.  A twin of an earlier child is skipped; so is a
child in the orbit of a finished child under the found automorphisms that fix
the path; and a leaf whose certificate equals that of the first or of the best
leaf yields an automorphism and a jump back to the common prefix of the paths.
-/

namespace Ostia
namespace Topology

open Foundation
open Foundation.Multigraph (Dir Link)

namespace Identity

variable {n : Nat}

/-!
## Twins
-/

/-- The far end of an arc in a profile; a loop is marked by -1. -/
def profileEnd (x : Fin n) (far : Fin n) : Int :=
  if far = x then -1 else far.val

/-- The arcs of x that do not reach the other vertex, and those that do. -/
def profile (g : Graph n) (x other : Fin n) :
    List (Nat ×ₗ Nat ×ₗ Int) × List (Nat ×ₗ Nat) :=
  (Sorting.sorted
    (((g.adj x).filter (fun a => a.toIdx ≠ other)).map fun a =>
      toLex (a.label, toLex (dirCode a.dir, profileEnd x a.toIdx))),
   Sorting.sorted
    (((g.adj x).filter (fun a => a.toIdx = other)).map fun a =>
      toLex (a.label, dirCode a.dir)))

def twins (g : Graph n) (u v : Fin n) : Bool :=
  decide (profile g u v = profile g v u)

/-!
## Cells
-/

def cell (colour : Fin n -> Nat) (c : Nat) : List (Fin n) :=
  (List.finRange n).filter (fun v => colour v = c)

/-- The first cell with more than one vertex. -/
def openCell (colour : Fin n -> Nat) : Option (List (Fin n)) :=
  ((List.range n).map (cell colour)).find? (fun c => decide (c.length > 1))

/-- The vertices of the cell that are no twin of an earlier one. -/
def representatives (g : Graph n) (open_ : List (Fin n)) : List (Fin n) :=
  open_.foldl
    (fun reps v => if reps.any (fun r => twins g r v) then reps else reps ++ [v])
    []

/-- The colouring of the child that individualises v, before refinement. -/
def individualise (colour : Fin n -> Nat) (v x : Fin n) : Nat :=
  if x = v then 2 * colour v else 2 * colour x + 1

/-!
## Leaves
-/

structure Leaf (n : Nat) where
  cert : String
  position : Fin n -> Nat
  path : List (Fin n)

structure SearchState (n : Nat) where
  group : PermGroup n
  leaves : Nat
  /-- The first and the best leaf, once a leaf was found. -/
  stored : Option (Leaf n × Leaf n)

/-- The vertex at position x of a colouring in another one. -/
def vertexAt (position colour : Fin n -> Nat) (x : Fin n) : Fin n :=
  if h : colour x < n then inverse position ⟨colour x, h⟩ else x

/--
The permutation that sends each vertex to the one at its position in the stored
leaf.  The positions of two leaves always give one.
-/
def gamma (stored colour : Fin n -> Nat) : Perm n :=
  if h : (forall x, vertexAt colour stored (vertexAt stored colour x) = x) ∧
      forall x, vertexAt stored colour (vertexAt colour stored x) = x then
    ⟨vertexAt stored colour, vertexAt colour stored, h.1, h.2⟩
  else Equiv.refl _

/-- The length of the common prefix of two paths. -/
def commonPrefix : List (Fin n) -> List (Fin n) -> Nat
  | a :: p, b :: q => if a = b then commonPrefix p q + 1 else 0
  | _, _ => 0

/-- The smaller of two jumps; nothing stands for no jump. -/
def minJump : Option Nat -> Nat -> Nat
  | none, d => d
  | some e, d => min e d

/-- Compare a leaf with a stored one: an equal certificate adds an automorphism. -/
def meetStored (cert : String) (colour : Fin n -> Nat) (path : List (Fin n))
    (acc : PermGroup n × Option Nat) (stored : Leaf n) :
    PermGroup n × Option Nat :=
  if cert ≠ stored.cert then acc
  else
    (acc.1.add (gamma stored.position colour),
      some (minJump acc.2 (commonPrefix path stored.path)))

def leafCap : TopologyError :=
  ⟨"leaf_cap", "",
    "canonical search exceeded " ++ toString kMaxLeaves ++ " leaves"⟩

/-- Record a leaf; the depth to resume at, if any. -/
def leaf (dump : Json -> String) (g : Graph n) (path : List (Fin n))
    (colour : Fin n -> Nat) (s : SearchState n) :
    Except TopologyError (SearchState n × Option Nat) :=
  if s.leaves + 1 > kMaxLeaves then .error leafCap
  else
    let cert := certificate dump g colour
    match s.stored with
    | none =>
        .ok (⟨s.group, s.leaves + 1,
          some (⟨cert, colour, path⟩, ⟨cert, colour, path⟩)⟩, none)
    | some (first, best) =>
        let met := [first, best].foldl (meetStored cert colour path) (s.group, none)
        .ok (⟨met.1, s.leaves + 1,
          some (first, if cert < best.cert then ⟨cert, colour, path⟩ else best)⟩,
          met.2)

/-!
## The search
-/

/-- What the loop over the children of a node remembers. -/
structure Children (n : Nat) where
  done : List (Fin n)
  orbit : Fin n -> Option Nat
  orbitGenerators : Nat

namespace Children

def start : Children n := ⟨[], fun _ => none, 0⟩

/-- The number of the orbit of each vertex. -/
def number (orbits : List (List (Fin n))) (orbit : Fin n -> Option Nat) :
    Fin n -> Option Nat :=
  orbits.zipIdx.foldl
    (fun orbit p => p.1.foldl (fun orbit x => Function.update orbit x (some p.2)) orbit)
    orbit

/-- Recompute the orbits when automorphisms were found since. -/
def refresh (group : PermGroup n) (path open_ : List (Fin n)) (c : Children n) :
    Children n :=
  if !c.done.isEmpty && !group.gens.isEmpty &&
      c.orbitGenerators != group.generators then
    { c with
      orbit := number (group.orbitsFixing path open_) c.orbit
      orbitGenerators := group.generators }
  else c

/-- Whether a vertex is in the orbit of a finished child. -/
def covered (c : Children n) (v : Fin n) : Bool :=
  decide (c.orbitGenerators > 0) &&
    c.done.any (fun d => c.orbit d == c.orbit v)

def finish (c : Children n) (v : Fin n) : Children n :=
  { c with done := c.done ++ [v] }

end Children

/-- How the subtree of a path is explored: the new state and the depth to resume at. -/
abbrev Explore (n : Nat) : Type :=
  List (Fin n) -> (Fin n -> Nat) -> SearchState n ->
    Except TopologyError (SearchState n × Option Nat)

/-- The loop over the representatives of the open cell. -/
def runChildren (g : Graph n) (explore : Explore n) (path : List (Fin n))
    (colour : Fin n -> Nat) (open_ : List (Fin n)) :
    List (Fin n) -> Children n -> SearchState n ->
      Except TopologyError (SearchState n × Option Nat)
  | [], _, s => .ok (s, none)
  | v :: rest, c, s =>
      let c := c.refresh s.group path open_
      if c.covered v then runChildren g explore path colour open_ rest c s
      else
        match explore (path ++ [v]) (refine g (individualise colour v)) s with
        | .error e => .error e
        | .ok (s', some d) =>
            if d < path.length then .ok (s', some d)
            else runChildren g explore path colour open_ rest (c.finish v) s'
        | .ok (s', none) =>
            runChildren g explore path colour open_ rest (c.finish v) s'

/-- The search below a node; a path is no longer than the number of vertices. -/
def run (dump : Json -> String) (g : Graph n) : Nat -> Explore n
  | 0, _, _, s => .ok (s, none)
  | fuel + 1, path, colour, s =>
      match openCell colour with
      | none => leaf dump g path colour s
      | some open_ =>
          runChildren g (run dump g fuel) path colour open_
            (representatives g open_) Children.start s

/-- The colouring of the root: the ranks of the vertex keys, refined. -/
def rootColour (g : Graph n) : Fin n -> Nat :=
  refine g (fun v => rankValues ((List.finRange n).map g.vkey) (g.vkey v))

/-- The whole search. -/
def search (dump : Json -> String) (g : Graph n) :
    Except TopologyError (SearchState n × Option Nat) :=
  run dump g (n + 1) [] (rootColour g) ⟨⟨[]⟩, 0, none⟩

end Identity
end Topology
end Ostia

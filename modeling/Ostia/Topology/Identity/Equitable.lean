import Mathlib.Logic.Function.Basic
import Ostia.Topology.Identity.Refine

/-!
# The coarsest stable partition

A colouring is stable when vertices of one colour see the same colours through the same arcs.
Refinement ends at the coarsest stable colouring that is finer than its input: the loop stops
after a round that splits no cell, so that round's signatures tell nothing new; and no round
splits a cell of a stable colouring that is finer than the one it starts from.
-/

namespace Ostia
namespace Topology

open Foundation
open Foundation.Multigraph (Dir Link)

namespace Identity

variable {n m : Nat}

/-- What a vertex sees: the label and direction of each arc, and the colour of its far end. -/
def view {C : Type*} (g : Graph n) (colour : Fin n -> C) (v : Fin n) : List (Nat × Dir × C) :=
  (g.adj v).map fun a => (a.label, a.dir, colour a.toIdx)

/-- Vertices of one colour see the same, up to order. -/
def Stable {C : Type*} (g : Graph n) (colour : Fin n -> C) : Prop :=
  forall u v, colour u = colour v -> (view g colour u).Perm (view g colour v)

/-- The first colouring tells apart what the second does. -/
def Finer {C D : Type*} (c : Fin n -> C) (d : Fin n -> D) : Prop :=
  forall u v, c u = c v -> d u = d v

/-- A coarser colouring is read off a finer one. -/
theorem Finer.exists_comp {C : Type*} {c : Fin n -> C} {d : Fin n -> Nat} (h : Finer c d) :
    exists f : C -> Nat, forall v, d v = f (c v) := by
  have hfactors : Function.FactorsThrough d c := fun u v heq => h u v heq
  rcases (Function.factorsThrough_iff d).mp hfactors with ⟨f, hf⟩
  exact ⟨f, fun v => congrFun hf v⟩

theorem view_perm_of_finer {C : Type*} {g : Graph n} {c : Fin n -> C} {d : Fin n -> Nat}
    (h : Finer c d) {u v : Fin n} (hview : (view g c u).Perm (view g c v)) :
    (view g d u).Perm (view g d v) := by
  rcases h.exists_comp with ⟨f, hf⟩
  have hmap : forall w, view g d w = (view g c w).map fun a => (a.1, a.2.1, f a.2.2) := by
    intro w
    unfold view
    rw [List.map_map]
    apply List.map_congr_left
    intro a _
    simp only [Function.comp_apply, hf]
  rw [hmap, hmap]
  exact hview.map _

/-!
## Signatures
-/

/-- Signatures are equal when the colours are, and the views up to order. -/
theorem signature_eq_iff {g : Graph n} {colour : Fin n -> Nat} {u v : Fin n} :
    signature g colour u = signature g colour v <->
      colour u = colour v ∧ (view g colour u).Perm (view g colour v) := by
  have hcode : Function.Injective
      (fun a : Nat × Dir × Nat => (toLex (a.1, toLex (dirCode a.2.1, a.2.2)) :
        Nat ×ₗ Nat ×ₗ Nat)) := by
    rintro ⟨l, d, c⟩ ⟨l', d', c'⟩ h
    have hpair := toLex.injective h
    rw [Prod.mk.injEq] at hpair
    have hpair' := toLex.injective hpair.2
    rw [Prod.mk.injEq] at hpair'
    exact Prod.ext hpair.1 (Prod.ext (dirCode_injective hpair'.1) hpair'.2)
  have hview : forall w, (g.adj w).map (fun a => (toLex (a.label,
      toLex (dirCode a.dir, colour a.toIdx)) : Nat ×ₗ Nat ×ₗ Nat)) =
        (view g colour w).map fun a => toLex (a.1, toLex (dirCode a.2.1, a.2.2)) := by
    intro w
    unfold view
    rw [List.map_map]
    rfl
  unfold signature
  rw [toLex_inj, Prod.mk.injEq, Sorting.sorted_eq_iff_perm, hview, hview,
    List.map_perm_map_iff hcode]

/-- A stable colouring finer than the incoming one is finer than the outcome of a round. -/
theorem finer_refineRound {C : Type*} {g : Graph n} {c : Fin n -> C} {colour : Fin n -> Nat}
    (hstable : Stable g c) (h : Finer c colour) : Finer c (refineRound g colour) := by
  intro u v huv
  rw [refineRound_eq_iff, signature_eq_iff]
  exact ⟨h u v huv, view_perm_of_finer h (hstable u v huv)⟩

/-- A round that adds no cell tells nothing new. -/
theorem finer_of_countDistinct_eq {g : Graph n} {colour : Fin n -> Nat}
    (h : countDistinct (refineRound g colour) = countDistinct colour) :
    Finer colour (refineRound g colour) := by
  have hfiner : Finer (refineRound g colour) colour := fun u v => colour_eq_of_refineRound_eq
  rcases hfiner.exists_comp with ⟨f, hf⟩
  have himage : (Finset.univ.image (refineRound g colour)).image f =
      Finset.univ.image colour := by
    rw [Finset.image_image]
    congr 1
    funext v
    exact (hf v).symm
  rw [countDistinct_eq_card, countDistinct_eq_card, ← himage] at h
  have hinj := Finset.card_image_iff.mp h.symm
  intro u v huv
  rw [hf u, hf v] at huv
  exact hinj (by simp) (by simp) huv

/-- The outcome of a round that adds no cell is stable. -/
theorem stable_of_countDistinct_eq {g : Graph n} {colour : Fin n -> Nat}
    (h : countDistinct (refineRound g colour) = countDistinct colour) :
    Stable g (refineRound g colour) := by
  intro u v huv
  rw [refineRound_eq_iff, signature_eq_iff] at huv
  exact view_perm_of_finer (finer_of_countDistinct_eq h) huv.2

/-!
## The loop
-/

/-- The colouring after some rounds. -/
def rounds (g : Graph n) (colour : Fin n -> Nat) (k : Nat) : Fin n -> Nat :=
  (refineRound g)^[k] colour

/-- The loop ends after the first round that adds no cell. -/
theorem refineLoop_stops {g : Graph n} (fuel : Nat) (colour : Fin n -> Nat)
    (h : n < fuel + countDistinct colour) :
    exists k, refineLoop g fuel colour (countDistinct colour) = rounds g colour (k + 1) ∧
      countDistinct (rounds g colour (k + 1)) = countDistinct (rounds g colour k) ∧
      forall j, j < k ->
        countDistinct (rounds g colour (j + 1)) ≠ countDistinct (rounds g colour j) := by
  induction fuel generalizing colour with
  | zero => exact absurd (countDistinct_le colour) (by omega)
  | succ fuel ih =>
      rw [refineLoop]
      simp only [signatures_distinct_length]
      by_cases hsame : countDistinct (refineRound g colour) = countDistinct colour
      · rw [if_pos hsame]
        exact ⟨0, rfl, hsame, fun j hj => absurd hj (Nat.not_lt_zero j)⟩
      · rw [if_neg hsame]
        have hle := countDistinct_le_refineRound g colour
        rcases ih (refineRound g colour) (by omega) with ⟨k, hk, hstop, hgoes⟩
        refine ⟨k + 1, hk, hstop, ?_⟩
        intro j hj
        cases j with
        | zero => exact hsame
        | succ j => exact hgoes j (Nat.lt_of_succ_lt_succ hj)

theorem refine_stops (g : Graph n) (colour : Fin n -> Nat) :
    exists k, refine g colour = rounds g colour (k + 1) ∧
      countDistinct (rounds g colour (k + 1)) = countDistinct (rounds g colour k) ∧
      forall j, j < k ->
        countDistinct (rounds g colour (j + 1)) ≠ countDistinct (rounds g colour j) :=
  refineLoop_stops (n + 1) colour (by omega)

theorem rounds_succ (g : Graph n) (colour : Fin n -> Nat) (k : Nat) :
    rounds g colour (k + 1) = refineRound g (rounds g colour k) :=
  Function.iterate_succ_apply' _ _ _

theorem refine_stable (g : Graph n) (colour : Fin n -> Nat) : Stable g (refine g colour) := by
  rcases refine_stops g colour with ⟨k, hk, hstop, _⟩
  rw [rounds_succ] at hk hstop
  rw [hk]
  exact stable_of_countDistinct_eq hstop

theorem finer_refine {C : Type*} {g : Graph n} {c : Fin n -> C} {colour : Fin n -> Nat}
    (hstable : Stable g c) (h : Finer c colour) : Finer c (refine g colour) :=
  refineLoop_induction (P := fun colour => Finer c colour)
    (fun _ hc => finer_refineRound hstable hc) (n + 1) colour (countDistinct colour) h

/-!
## Relabelled graphs
-/

def StoredEdge.relabel (f : Fin n ≃ Fin m) (e : StoredEdge n) : StoredEdge m :=
  ⟨f e.fromIdx, f e.toIdx, e.label, e.directed⟩

def Arc.relabel (f : Fin n ≃ Fin m) (a : Arc n) : Arc m := ⟨a.label, a.dir, f a.toIdx⟩

/-- The graph with its vertices renamed. -/
def Graph.relabel (f : Fin n ≃ Fin m) (g : Graph n) : Graph m where
  vkey v := g.vkey (f.symm v)
  vlabel v := g.vlabel (f.symm v)
  elabel := g.elabel
  adj v := (g.adj (f.symm v)).map (Arc.relabel f)
  edges := g.edges.map (StoredEdge.relabel f)

theorem sameArcs_relabel (g : Graph n) (f : Fin n ≃ Fin m) : SameArcs g (g.relabel f) f := by
  intro v
  unfold Graph.relabel
  simp only [Equiv.symm_apply_apply, List.map_map]
  exact List.Perm.refl _

/-- Refinement ends, numbers its cells without a gap and in the order of the incoming cells,
gives the coarsest stable partition that is finer than its input, and commutes with renamings
of the vertices. -/
theorem refine_coarsest (g : Graph n) (colour : Fin n -> Nat) :
    (exists k, refine g colour = rounds g colour (k + 1) ∧
      countDistinct (rounds g colour (k + 1)) = countDistinct (rounds g colour k) ∧
      forall j, j < k ->
        countDistinct (rounds g colour (j + 1)) ≠ countDistinct (rounds g colour j)) ∧
    Dense (refine g colour) ∧
    Finer (refine g colour) colour ∧
    Stable g (refine g colour) ∧
    (forall {C : Type} (c : Fin n -> C), Stable g c -> Finer c colour ->
      Finer c (refine g colour)) ∧
    (forall u v, colour u < colour v -> refine g colour u < refine g colour v) ∧
    forall {m : Nat} (f : Fin n ≃ Fin m) (colour' : Fin m -> Nat),
      (forall v, colour' (f v) = colour v) ->
      forall v, refine (g.relabel f) colour' (f v) = refine g colour v := by
  refine ⟨refine_stops g colour, refine_dense g colour, fun u v => colour_eq_of_refine_eq,
    refine_stable g colour, fun c => finer_refine, fun u v => refine_lt, ?_⟩
  intro m f colour' hcolour v
  exact refine_of_sameArcs (sameArcs_relabel g f) hcolour v

end Identity
end Topology
end Ostia

import Mathlib.Data.Prod.Lex
import Mathlib.Data.List.Lex
import Mathlib.Data.List.FinRange
import Mathlib.Data.Fintype.Card
import Mathlib.Data.Finset.Image
import Ostia.Topology.Identity.Isomorphism

/-!
# Colour refinement

A round of refinement replaces each colour by the rank of its signature: the old
colour, then the sorted list of the label, the direction and the far end's
colour of every arc.  Rounds repeat until the number of colours no longer grows.

The old colour leads the signature, so a round never merges two cells and keeps
their order; ranks are dense, so the new colours are 0, 1, ..., k-1; and a
signature names no vertex, so refinement commutes with isomorphisms.
-/

namespace Ostia
namespace Topology

open Foundation
open Foundation.Multigraph (Dir Link)

namespace Identity

variable {n m : Nat}

/-- The numbers of the directions in a signature. -/
def dirCode : Dir -> Nat
  | Dir.undirected => 0
  | Dir.out => 1
  | Dir.into => 2

theorem dirCode_injective : Function.Injective dirCode := by
  intro d d' h
  cases d <;> cases d' <;> first | rfl | cases h

abbrev Signature : Type := Nat ×ₗ List (Nat ×ₗ Nat ×ₗ Nat)

def countDistinct (colour : Fin n -> Nat) : Nat :=
  (DenseRank.distinct ((List.finRange n).map colour)).length

def signature (g : Graph n) (colour : Fin n -> Nat) (v : Fin n) : Signature :=
  toLex (colour v,
    Sorting.sorted ((g.adj v).map fun a =>
      toLex (a.label, toLex (dirCode a.dir, colour a.toIdx))))

/-- The signatures of all vertices. -/
def signatures (g : Graph n) (colour : Fin n -> Nat) : List Signature :=
  (List.finRange n).map (signature g colour)

/-- The colours after one round. -/
def refineRound (g : Graph n) (colour : Fin n -> Nat) (v : Fin n) : Nat :=
  DenseRank.lowerBound (DenseRank.distinct (signatures g colour))
    (signature g colour v)

/-- The loop; every round but the last adds a cell, so the fuel bounds the cells to come. -/
def refineLoop (g : Graph n) : Nat -> (Fin n -> Nat) -> Nat -> (Fin n -> Nat)
  | 0, colour, _ => colour
  | fuel + 1, colour, cells =>
      let distinct := DenseRank.distinct (signatures g colour)
      if distinct.length = cells then refineRound g colour
      else refineLoop g fuel (refineRound g colour) distinct.length

def refine (g : Graph n) (colour : Fin n -> Nat) : Fin n -> Nat :=
  refineLoop g (n + 1) colour (countDistinct colour)

/-!
## One round
-/

theorem refineRound_eq_rank (g : Graph n) (colour : Fin n -> Nat) (v : Fin n) :
    refineRound g colour v =
      DenseRank.rank (signatures g colour) (signature g colour v) := rfl

theorem signature_mem (g : Graph n) (colour : Fin n -> Nat) (v : Fin n) :
    signature g colour v ∈ signatures g colour :=
  List.mem_map_of_mem (List.mem_finRange v)

theorem refineRound_eq_iff {g : Graph n} {colour : Fin n -> Nat} {u v : Fin n} :
    refineRound g colour u = refineRound g colour v <->
      signature g colour u = signature g colour v := by
  constructor
  · exact DenseRank.rank_injOn (signature_mem g colour u)
      (signature_mem g colour v)
  · intro h
    rw [refineRound_eq_rank, refineRound_eq_rank, h]

/-- A round keeps the order of the cells. -/
theorem refineRound_lt {g : Graph n} {colour : Fin n -> Nat} {u v : Fin n}
    (h : colour u < colour v) :
    refineRound g colour u < refineRound g colour v := by
  refine DenseRank.rank_lt_rank (signature_mem g colour u)
    (signature_mem g colour v) ?_
  exact Prod.Lex.toLex_lt_toLex.mpr (Or.inl h)

/-- A round never merges two cells. -/
theorem colour_eq_of_refineRound_eq {g : Graph n} {colour : Fin n -> Nat}
    {u v : Fin n} (h : refineRound g colour u = refineRound g colour v) :
    colour u = colour v := by
  rcases Nat.lt_trichotomy (colour u) (colour v) with hlt | heq | hgt
  · exact absurd h (Nat.ne_of_lt (refineRound_lt hlt))
  · exact heq
  · exact absurd h.symm (Nat.ne_of_lt (refineRound_lt hgt))

theorem countDistinct_eq_card (colour : Fin n -> Nat) :
    countDistinct colour = (Finset.univ.image colour).card := by
  unfold countDistinct
  rw [DenseRank.distinct_length]
  congr 1

theorem signatures_distinct_length (g : Graph n) (colour : Fin n -> Nat) :
    (DenseRank.distinct (signatures g colour)).length =
      countDistinct (refineRound g colour) := by
  rw [countDistinct_eq_card, DenseRank.distinct_length]
  have himage : (signatures g colour).toFinset =
      Finset.univ.image (signature g colour) := by
    ext s
    simp [signatures]
  rw [himage]
  -- Signatures and their ranks are in bijection.
  have hrank : Finset.univ.image (refineRound g colour) =
      (Finset.univ.image (signature g colour)).image
        (DenseRank.rank (signatures g colour)) := by
    rw [Finset.image_image]
    rfl
  rw [hrank]
  symm
  apply Finset.card_image_of_injOn
  intro s hs t ht h
  simp only [Finset.coe_image, Finset.coe_univ, Set.image_univ,
    Set.mem_range] at hs ht
  rcases hs with ⟨u, rfl⟩
  rcases ht with ⟨v, rfl⟩
  exact DenseRank.rank_injOn (signature_mem g colour u)
    (signature_mem g colour v) h

/-- The colours are 0, 1, ..., k-1 for some k. -/
def Dense (colour : Fin n -> Nat) : Prop :=
  forall v c, c < colour v -> exists u, colour u = c

theorem Dense.lt {colour : Fin n -> Nat} (h : Dense colour) (v : Fin n) :
    colour v < n := by
  have hsub : Finset.range (colour v + 1) ⊆ Finset.univ.image colour := by
    intro c hc
    rw [Finset.mem_range] at hc
    rw [Finset.mem_image]
    rcases Nat.lt_or_eq_of_le (Nat.le_of_lt_succ hc) with hlt | heq
    · rcases h v c hlt with ⟨u, hu⟩
      exact ⟨u, Finset.mem_univ u, hu⟩
    · exact ⟨v, Finset.mem_univ v, heq.symm⟩
  calc
    colour v + 1 = (Finset.range (colour v + 1)).card := (Finset.card_range _).symm
    _ ≤ (Finset.univ.image colour).card := Finset.card_le_card hsub
    _ ≤ (Finset.univ : Finset (Fin n)).card := Finset.card_image_le
    _ = n := Finset.card_fin n

theorem refineRound_dense (g : Graph n) (colour : Fin n -> Nat) :
    Dense (refineRound g colour) := by
  intro v c hc
  have hlt : c < (DenseRank.distinct (signatures g colour)).length :=
    Nat.lt_trans hc (DenseRank.rank_lt_length (signature_mem g colour v))
  rcases DenseRank.exists_rank_eq hlt with ⟨s, hs, hrank⟩
  rcases List.mem_map.mp hs with ⟨u, _, rfl⟩
  exact ⟨u, hrank⟩

/-- A round maps the cells of its result onto the incoming cells. -/
theorem countDistinct_le_refineRound (g : Graph n) (colour : Fin n -> Nat) :
    countDistinct colour ≤ countDistinct (refineRound g colour) := by
  classical
  rw [countDistinct_eq_card, countDistinct_eq_card]
  have hchoose : forall c, c ∈ Finset.univ.image colour ->
      exists v, colour v = c := by
    intro c hc
    rcases Finset.mem_image.mp hc with ⟨v, _, hv⟩
    exact ⟨v, hv⟩
  refine Finset.card_le_card_of_injOn
    (fun c => if h : exists v, colour v = c then
      refineRound g colour (Classical.choose h) else 0) ?_ ?_
  · intro c hc
    have hex := hchoose c hc
    simp only [dif_pos hex]
    exact Finset.mem_coe.mpr (Finset.mem_image_of_mem _ (Finset.mem_univ _))
  · intro c hc d hd heq
    have hex := hchoose c hc
    have hex' := hchoose d hd
    simp only [dif_pos hex, dif_pos hex'] at heq
    have hcol := colour_eq_of_refineRound_eq heq
    rwa [Classical.choose_spec hex, Classical.choose_spec hex'] at hcol

theorem countDistinct_le (colour : Fin n -> Nat) : countDistinct colour ≤ n := by
  rw [countDistinct_eq_card]
  calc
    (Finset.univ.image colour).card ≤ (Finset.univ : Finset (Fin n)).card :=
      Finset.card_image_le
    _ = n := Finset.card_fin n

/-!
## The loop
-/

/-- What holds of every round and is kept by composition holds of the loop. -/
theorem refineLoop_induction {g : Graph n} {P : (Fin n -> Nat) -> Prop}
    (hstep : forall c, P c -> P (refineRound g c)) :
    forall fuel colour cells, P colour -> P (refineLoop g fuel colour cells) := by
  intro fuel
  induction fuel with
  | zero =>
      intro colour cells h
      exact h
  | succ fuel ih =>
      intro colour cells h
      rw [refineLoop]
      split
      · exact hstep colour h
      · exact ih _ _ (hstep colour h)

theorem refineLoop_lt {g : Graph n} {colour : Fin n -> Nat} {u v : Fin n}
    (h : colour u < colour v) (fuel cells : Nat) :
    refineLoop g fuel colour cells u < refineLoop g fuel colour cells v :=
  refineLoop_induction (P := fun c => c u < c v)
    (fun _ hc => refineRound_lt hc) fuel colour cells h

/-- Refinement keeps the order of the cells. -/
theorem refine_lt {g : Graph n} {colour : Fin n -> Nat} {u v : Fin n}
    (h : colour u < colour v) : refine g colour u < refine g colour v :=
  refineLoop_lt h _ _

theorem colour_eq_of_refine_eq {g : Graph n} {colour : Fin n -> Nat}
    {u v : Fin n} (h : refine g colour u = refine g colour v) :
    colour u = colour v := by
  rcases Nat.lt_trichotomy (colour u) (colour v) with hlt | heq | hgt
  · exact absurd h (Nat.ne_of_lt (refine_lt hlt))
  · exact heq
  · exact absurd h.symm (Nat.ne_of_lt (refine_lt hgt))

theorem refine_dense (g : Graph n) (colour : Fin n -> Nat) :
    Dense (refine g colour) := by
  unfold refine
  rw [refineLoop]
  split
  · exact refineRound_dense g colour
  · exact refineLoop_induction (P := Dense)
      (fun c _ => refineRound_dense g c) _ _ _ (refineRound_dense g colour)

/-- The loop has stopped by itself once the fuel exceeds the cells still to come. -/
theorem refineLoop_fuel {g : Graph n} :
    forall fuel extra colour,
      n < fuel + countDistinct colour ->
      refineLoop g (fuel + extra) colour (countDistinct colour) =
        refineLoop g fuel colour (countDistinct colour) := by
  intro fuel
  induction fuel with
  | zero =>
      intro extra colour h
      exact absurd (countDistinct_le colour) (by omega)
  | succ fuel ih =>
      intro extra colour h
      rw [show fuel + 1 + extra = (fuel + extra) + 1 by omega, refineLoop,
        refineLoop]
      simp only [signatures_distinct_length]
      split
      · rfl
      · rename_i hne
        have hle := countDistinct_le_refineRound g colour
        exact ih extra (refineRound g colour) (by omega)

/-- More fuel than the model gives refinement changes nothing. -/
theorem refine_eq_refineLoop (g : Graph n) (colour : Fin n -> Nat) (extra : Nat) :
    refineLoop g (n + 1 + extra) colour (countDistinct colour) =
      refine g colour :=
  refineLoop_fuel (n + 1) extra colour (by omega)

/-!
## Equivariance
-/

section Equivariance

variable {dump : Json -> String} {g : Graph n} {g' : Graph m}
  {f : Fin n ≃ Fin m}

/-- The arcs of an image vertex are the renamed arcs, up to order. -/
def SameArcs (g : Graph n) (g' : Graph m) (f : Fin n ≃ Fin m) : Prop :=
  forall v, ((g'.adj (f v)).map Arc.toTuple).Perm
    ((g.adj v).map fun a => (a.label, a.dir, f a.toIdx))

theorem signature_map (h : SameArcs g g' f) {colour : Fin n -> Nat} {colour' : Fin m -> Nat}
    (hc : forall v, colour' (f v) = colour v) (v : Fin n) :
    signature g' colour' (f v) = signature g colour v := by
  have hperm := (h v).map
    (fun a : Nat × Dir × Fin m =>
      (toLex (a.1, toLex (dirCode a.2.1, colour' a.2.2)) : Nat ×ₗ Nat ×ₗ Nat))
  rw [List.map_map, List.map_map] at hperm
  unfold signature
  rw [hc v]
  congr 2
  rw [Sorting.sorted_eq_iff_perm]
  refine hperm.trans (List.Perm.of_eq ?_)
  apply List.map_congr_left
  intro a _
  simp only [Function.comp_apply, hc]

theorem refineRound_map (h : SameArcs g g' f) {colour : Fin n -> Nat} {colour' : Fin m -> Nat}
    (hc : forall v, colour' (f v) = colour v) (v : Fin n) :
    refineRound g' colour' (f v) = refineRound g colour v := by
  rw [refineRound_eq_rank, refineRound_eq_rank, signature_map h hc]
  apply DenseRank.rank_congr
  intro s
  simp only [signatures, List.mem_map, List.mem_finRange, true_and]
  constructor
  · rintro ⟨w, rfl⟩
    refine ⟨f.symm w, ?_⟩
    rw [← signature_map h hc, Equiv.apply_symm_apply]
  · rintro ⟨w, rfl⟩
    exact ⟨f w, signature_map h hc w⟩

theorem countDistinct_map {colour : Fin n -> Nat} {colour' : Fin m -> Nat}
    (hc : forall v, colour' (f v) = colour v) :
    countDistinct colour' = countDistinct colour := by
  rw [countDistinct_eq_card, countDistinct_eq_card]
  congr 1
  ext c
  simp only [Finset.mem_image, Finset.mem_univ, true_and]
  constructor
  · rintro ⟨w, rfl⟩
    exact ⟨f.symm w, by rw [← hc, Equiv.apply_symm_apply]⟩
  · rintro ⟨w, rfl⟩
    exact ⟨f w, hc w⟩

theorem refineLoop_map (h : SameArcs g g' f) :
    forall fuel (colour : Fin n -> Nat) (colour' : Fin m -> Nat) cells,
      (forall v, colour' (f v) = colour v) ->
      forall v, refineLoop g' fuel colour' cells (f v) =
        refineLoop g fuel colour cells v := by
  intro fuel
  induction fuel with
  | zero =>
      intro colour colour' cells hc v
      exact hc v
  | succ fuel ih =>
      intro colour colour' cells hc v
      have hround := refineRound_map h hc
      rw [refineLoop, refineLoop]
      simp only [signatures_distinct_length, countDistinct_map hround]
      split
      · exact hround v
      · exact ih _ _ _ hround v

/-- Refinement commutes with renamings that carry arcs onto arcs. -/
theorem refine_of_sameArcs (h : SameArcs g g' f) {colour : Fin n -> Nat}
    {colour' : Fin m -> Nat} (hc : forall v, colour' (f v) = colour v) (v : Fin n) :
    refine g' colour' (f v) = refine g colour v := by
  have hnm : n = m := by
    simpa using Fintype.card_congr f
  have hfuel : refine g' colour' (f v) =
      refineLoop g' (n + 1) colour' (countDistinct colour') (f v) := by
    rw [refine, show m + 1 = n + 1 by omega]
  rw [hfuel, countDistinct_map hc]
  exact refineLoop_map h _ _ _ _ hc v

/-- Refinement commutes with isomorphisms. -/
theorem refine_map (hg : g.Stripped dump) (hg' : g'.Stripped dump)
    (h : Iso g g' f) {colour : Fin n -> Nat} {colour' : Fin m -> Nat}
    (hc : forall v, colour' (f v) = colour v) (v : Fin n) :
    refine g' colour' (f v) = refine g colour v :=
  refine_of_sameArcs (Iso.adj_perm hg hg' h) hc v

end Equivariance

end Identity
end Topology
end Ostia

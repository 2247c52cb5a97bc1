import Mathlib.Data.Fintype.EquivFin
import Ostia.Topology.Identity.Refine

/-!
# Certificates

A discrete colouring gives every vertex a position.  The certificate is the graph
relabelled by these positions, as text.  Isomorphic graphs have equal
certificates at corresponding positions; equal certificates give back an
isomorphism.
-/

namespace Ostia
namespace Topology

open Foundation
open Foundation.Multigraph (Dir Link)

namespace Identity

variable {n m : Nat}

/-- The vertex written last at each index of a vector that starts with zeros. -/
def inverse (p : Fin n -> Nat) (y : Fin n) : Fin n :=
  (((List.finRange n).filter (fun x => p x = y)).getLast?).getD ⟨0, y.pos⟩

/-- The positions of an edge's ends, an undirected edge smaller end first, and its label. -/
def edgeTuple (position : Fin n -> Nat) (e : StoredEdge n) : Nat ×ₗ Nat ×ₗ Nat :=
  let a := position e.fromIdx
  let b := position e.toIdx
  if !e.directed && decide (b < a) then toLex (b, toLex (a, e.label))
  else toLex (a, toLex (b, e.label))

def certificateJson (g : Graph n) (position : Fin n -> Nat) : Json :=
  let edges := Sorting.sorted (g.edges.map (edgeTuple position))
  Json.obj
    [("edges", Json.arr (edges.map fun t =>
        Json.arr [Json.int (ofLex t).1, Json.int (ofLex (ofLex t).2).1,
          g.elabel (ofLex (ofLex t).2).2])),
     ("nodes", Json.arr ((List.finRange n).map fun p =>
        g.vlabel (inverse position p)))]

def certificate (dump : Json -> String) (g : Graph n) (position : Fin n -> Nat) :
    String :=
  dump (certificateJson g position)

/-!
## Discrete colourings
-/

/-- Every vertex has a position of its own among 0, ..., n-1. -/
structure Discrete (position : Fin n -> Nat) : Prop where
  injective : Function.Injective position
  bounded : forall v, position v < n

namespace Discrete

variable {position : Fin n -> Nat}

theorem surjective (h : Discrete position) (p : Fin n) :
    exists v, position v = p := by
  have hinj : Function.Injective (fun v => (⟨position v, h.bounded v⟩ : Fin n)) := by
    intro u v huv
    exact h.injective (Fin.mk.inj huv)
  rcases (Finite.injective_iff_surjective.mp hinj) p with ⟨v, hv⟩
  exact ⟨v, congrArg Fin.val hv⟩

theorem position_inverse (h : Discrete position) (p : Fin n) :
    position (inverse position p) = p := by
  rcases h.surjective p with ⟨v, hv⟩
  unfold inverse
  have hmem : v ∈ (List.finRange n).filter (fun x => position x = p) := by
    simp [hv]
  cases hlast : ((List.finRange n).filter (fun x => position x = p)).getLast? with
  | none =>
      rw [List.getLast?_eq_none_iff] at hlast
      rw [hlast] at hmem
      cases hmem
  | some w =>
      have hw := List.mem_of_getLast? hlast
      simpa using hw

theorem inverse_position (h : Discrete position) (v : Fin n) :
    inverse position ⟨position v, h.bounded v⟩ = v :=
  h.injective (h.position_inverse _)

/-- The positions as a bijection. -/
def equiv (h : Discrete position) : Fin n ≃ Fin n where
  toFun v := ⟨position v, h.bounded v⟩
  invFun := inverse position
  left_inv := h.inverse_position
  right_inv p := Fin.ext (h.position_inverse p)

/-- A dense colouring without a repeated colour is discrete. -/
theorem of_dense {colour : Fin n -> Nat} (hdense : Dense colour)
    (hinj : Function.Injective colour) : Discrete colour :=
  ⟨hinj, hdense.lt⟩

theorem map {position' : Fin m -> Nat} (h : Discrete position) (f : Fin n ≃ Fin m)
    (hp : forall v, position' (f v) = position v) : Discrete position' := by
  have hnm : n = m := by
    simpa using Fintype.card_congr f
  have hback : forall w, position' w = position (f.symm w) := by
    intro w
    rw [← hp, Equiv.apply_symm_apply]
  constructor
  · intro u v huv
    rw [hback, hback] at huv
    exact f.symm.injective (h.injective huv)
  · intro w
    have hbound := h.bounded (f.symm w)
    rw [hback]
    omega

end Discrete

/-!
## Isomorphic graphs have equal certificates
-/

/-- The tuple of a link under positions. -/
def linkTuple (position : Fin n -> Nat) : Link (Fin n) Nat -> Nat ×ₗ Nat ×ₗ Nat
  | Link.directed a b l => toLex (position a, toLex (position b, l))
  | Link.undirected e l =>
      e.lift
        ⟨fun a b => toLex (min (position a) (position b),
            toLex (max (position a) (position b), l)),
          fun a b => by dsimp only; rw [min_comm, max_comm]⟩

theorem edgeTuple_eq_linkTuple (position : Fin n -> Nat) (e : StoredEdge n) :
    edgeTuple position e = linkTuple position e.toLink := by
  unfold edgeTuple StoredEdge.toLink
  cases e.directed with
  | true => simp [linkTuple]
  | false =>
      simp only [Bool.not_false, Bool.true_and, decide_eq_true_eq,
        Bool.false_eq_true, if_false, linkTuple, Sym2.lift_mk]
      by_cases hlt : position e.toIdx < position e.fromIdx
      · rw [if_pos hlt, min_eq_right (le_of_lt hlt), max_eq_left (le_of_lt hlt)]
      · rw [if_neg hlt, min_eq_left (le_of_not_gt hlt),
          max_eq_right (le_of_not_gt hlt)]

theorem linkTuple_map {position : Fin n -> Nat} {position' : Fin m -> Nat}
    {f : Fin n ≃ Fin m} (hp : forall v, position' (f v) = position v)
    (l : Link (Fin n) Nat) :
    linkTuple position' (l.map f) = linkTuple position l := by
  cases l with
  | directed a b l => simp [Link.map, linkTuple, hp]
  | undirected e l =>
      induction e using Sym2.ind with
      | _ a b => simp [Link.map, linkTuple, hp]

theorem edgeTuples_eq (g : Graph n) (position : Fin n -> Nat) :
    (g.edges.map (edgeTuple position) : Multiset (Nat ×ₗ Nat ×ₗ Nat)) =
      g.links.map (linkTuple position) := by
  unfold Graph.links
  rw [Multiset.map_coe, List.map_map]
  congr 1
  apply List.map_congr_left
  intro e _
  exact edgeTuple_eq_linkTuple position e

theorem linkTuple_label (position : Fin n -> Nat) (l : Link (Fin n) Nat) :
    (ofLex (ofLex (linkTuple position l)).2).2 = l.label := by
  cases l with
  | directed a b l => rfl
  | undirected e l =>
      induction e using Sym2.ind with
      | _ a b => rfl

theorem certificateJson_map {g : Graph n} {g' : Graph m} {f : Fin n ≃ Fin m}
    (h : Iso g g' f) {position : Fin n -> Nat} {position' : Fin m -> Nat}
    (hdisc : Discrete position)
    (hp : forall v, position' (f v) = position v) :
    certificateJson g' position' = certificateJson g position := by
  have hnm : n = m := by
    simpa using Fintype.card_congr f
  subst hnm
  have hedges : Sorting.sorted (g'.edges.map (edgeTuple position')) =
      Sorting.sorted (g.edges.map (edgeTuple position)) := by
    rw [Sorting.sorted_eq_iff_perm, ← Multiset.coe_eq_coe, edgeTuples_eq,
      edgeTuples_eq, ← h.links, Multiset.map_map]
    exact Multiset.map_congr rfl (fun l _ => linkTuple_map hp l)
  have hdisc' := hdisc.map f hp
  have hentries :
      (Sorting.sorted (g.edges.map (edgeTuple position))).map (fun t =>
        Json.arr [Json.int (ofLex t).1, Json.int (ofLex (ofLex t).2).1,
          g'.elabel (ofLex (ofLex t).2).2]) =
      (Sorting.sorted (g.edges.map (edgeTuple position))).map (fun t =>
        Json.arr [Json.int (ofLex t).1, Json.int (ofLex (ofLex t).2).1,
          g.elabel (ofLex (ofLex t).2).2]) := by
    apply List.map_congr_left
    intro t ht
    -- The label of a tuple is the label of a stored edge.
    rw [(Sorting.sorted_perm _).mem_iff, List.mem_map] at ht
    rcases ht with ⟨e, he, rfl⟩
    rw [edgeTuple_eq_linkTuple, linkTuple_label, toLink_label, h.elabel e he]
  have hnodes : (List.finRange n).map (fun p => g'.vlabel (inverse position' p)) =
      (List.finRange n).map (fun p => g.vlabel (inverse position p)) := by
    apply List.map_congr_left
    intro p _
    have hvertex : inverse position' p = f (inverse position p) := by
      apply hdisc'.injective
      rw [hdisc'.position_inverse, hp, hdisc.position_inverse]
    rw [hvertex, h.vlabel]
  unfold certificateJson
  simp only [hedges, hentries, hnodes]

/-!
## Equal certificates give an isomorphism
-/

/-- The links of a graph with the JSON labels in place of their ranks. -/
def Graph.jsonLinks (g : Graph n) : Multiset (Link (Fin n) Json) :=
  g.links.map (Link.relabel g.elabel)

/-- The link between positions that an entry of the certificate stands for. -/
def tupleLink (t : Nat × Nat × Json) : Link Nat Json :=
  if labelDirected t.2.2 then Link.directed t.1 t.2.1 t.2.2
  else Link.undirected s(t.1, t.2.1) t.2.2

/-- An entry of the edge list of a certificate. -/
def certificateEntry (elabel : Nat -> Json) (t : Nat ×ₗ Nat ×ₗ Nat) :
    Nat × Nat × Json :=
  ((ofLex t).1, (ofLex (ofLex t).2).1, elabel (ofLex (ofLex t).2).2)

theorem tupleLink_edgeTuple {dump : Json -> String} {g : Graph n}
    (hg : g.Stripped dump) (position : Fin n -> Nat) {e : StoredEdge n}
    (he : e ∈ g.edges) :
    tupleLink (certificateEntry g.elabel (edgeTuple position e)) =
      (e.toLink.relabel g.elabel).map position := by
  have hdir := hg.directed e he
  unfold edgeTuple StoredEdge.toLink tupleLink certificateEntry
  cases hd : e.directed with
  | true =>
      rw [hd] at hdir
      simp [← hdir, Link.relabel, Link.map]
  | false =>
      rw [hd] at hdir
      by_cases hlt : position e.toIdx < position e.fromIdx
      · simp [hlt, ← hdir, Link.relabel, Link.map, Sym2.eq_swap]
      · simp [hlt, ← hdir, Link.relabel, Link.map]

/-- The edge entries of the certificate determine the relabelled links. -/
theorem entries_tupleLink {dump : Json -> String} {g : Graph n}
    (hg : g.Stripped dump) (position : Fin n -> Nat) :
    (((Sorting.sorted (g.edges.map (edgeTuple position))).map
      (certificateEntry g.elabel)).map tupleLink : Multiset (Link Nat Json)) =
      g.jsonLinks.map (Link.map position) := by
  have hperm := ((Sorting.sorted_perm (g.edges.map (edgeTuple position))).map
    (certificateEntry g.elabel)).map tupleLink
  rw [Multiset.coe_eq_coe.mpr hperm]
  unfold Graph.jsonLinks Graph.links
  rw [Multiset.map_coe, Multiset.map_coe, List.map_map, List.map_map,
    List.map_map, List.map_map]
  congr 1
  apply List.map_congr_left
  intro e he
  exact tupleLink_edgeTuple hg position he

theorem certificateJson_entries {g : Graph n} {g' : Graph m}
    {position : Fin n -> Nat} {position' : Fin m -> Nat}
    (h : certificateJson g position = certificateJson g' position') :
    (Sorting.sorted (g.edges.map (edgeTuple position))).map
        (certificateEntry g.elabel) =
      (Sorting.sorted (g'.edges.map (edgeTuple position'))).map
        (certificateEntry g'.elabel) ∧
    (List.finRange n).map (fun p => g.vlabel (inverse position p)) =
      (List.finRange m).map (fun p => g'.vlabel (inverse position' p)) := by
  unfold certificateJson at h
  simp only [Json.obj.injEq, List.cons.injEq, Prod.mk.injEq, Json.arr.injEq,
    true_and, and_true] at h
  refine ⟨?_, h.2⟩
  have hread : forall (elabel : Nat -> Json) (ts : List (Nat ×ₗ Nat ×ₗ Nat)),
      (ts.map fun t => Json.arr [Json.int (ofLex t).1,
        Json.int (ofLex (ofLex t).2).1, elabel (ofLex (ofLex t).2).2]) =
      (ts.map (certificateEntry elabel)).map fun t =>
        Json.arr [Json.int t.1, Json.int t.2.1, t.2.2] := by
    intro elabel ts
    rw [List.map_map]
    rfl
  have hinj : Function.Injective (fun t : Nat × Nat × Json =>
      Json.arr [Json.int t.1, Json.int t.2.1, t.2.2]) := by
    rintro ⟨a, b, l⟩ ⟨a', b', l'⟩ heq
    simp only [Json.arr.injEq, List.cons.injEq, Json.int.injEq, and_true] at heq
    rw [Int.ofNat_inj.mp heq.1, Int.ofNat_inj.mp heq.2.1, heq.2.2]
  have hedges := h.1
  rw [hread, hread] at hedges
  exact List.map_injective_iff.mpr hinj hedges

/--
Equal certificates: the vertices at equal positions have equal labels, and
moving each vertex to the one at its position carries the links over.
-/
theorem of_certificateJson_eq {dump : Json -> String} {g g' : Graph n}
    (hg : g.Stripped dump) (hg' : g'.Stripped dump)
    {position position' : Fin n -> Nat}
    (hdisc : Discrete position) (hdisc' : Discrete position')
    (h : certificateJson g position = certificateJson g' position') :
    (forall v, g'.vlabel (hdisc'.equiv.symm (hdisc.equiv v)) = g.vlabel v) ∧
      g.jsonLinks.map (Link.map (hdisc.equiv.trans hdisc'.equiv.symm)) =
        g'.jsonLinks := by
  rcases certificateJson_entries h with ⟨hentries, hnodes⟩
  constructor
  · intro v
    have hat := List.map_inj_left.mp hnodes (hdisc.equiv v)
      (List.mem_finRange _)
    have hback : inverse position (hdisc.equiv v) = v :=
      hdisc.inverse_position v
    rw [hback] at hat
    exact hat.symm
  · have hlinks : g.jsonLinks.map (Link.map position) =
        g'.jsonLinks.map (Link.map position') := by
      rw [← entries_tupleLink hg, ← entries_tupleLink hg', hentries]
    have hmove : g.jsonLinks.map
          (Link.map position' ∘ Link.map (hdisc.equiv.trans hdisc'.equiv.symm)) =
        g'.jsonLinks.map (Link.map position') := by
      rw [← hlinks]
      refine Multiset.map_congr rfl (fun l _ => ?_)
      rw [Function.comp_apply, Link.map_map]
      refine Link.map_congr (fun v => ?_) l
      exact hdisc'.position_inverse (hdisc.equiv v)
    rw [← Multiset.map_map] at hmove
    exact Multiset.map_injective (Link.map_injective hdisc'.injective) hmove

/-- Equal certificates of one graph give an automorphism. -/
theorem iso_of_certificateJson_eq {dump : Json -> String} {g : Graph n}
    (hg : g.Stripped dump) {position position' : Fin n -> Nat}
    (hdisc : Discrete position) (hdisc' : Discrete position')
    (h : certificateJson g position = certificateJson g position') :
    Iso g g (hdisc.equiv.trans hdisc'.equiv.symm) := by
  classical
  rcases of_certificateJson_eq hg hg hdisc hdisc' h with ⟨hvlabel, hjson⟩
  have hvlabel' : forall v,
      g.vlabel ((hdisc.equiv.trans hdisc'.equiv.symm) v) = g.vlabel v := hvlabel
  refine ⟨hvlabel', ?_, fun _ _ => rfl, ?_⟩
  · intro v
    rw [hg.vkey, hg.vkey, hvlabel']
  · -- A rank is recovered from its label, so equal JSON links are equal links.
    let back : Json -> Nat := fun l =>
      if hl : exists e, e ∈ g.edges ∧ g.elabel e.label = l then
        (Classical.choose hl).label else 0
    have hback : forall e, e ∈ g.edges -> back (g.elabel e.label) = e.label := by
      intro e he
      have hl : exists e', e' ∈ g.edges ∧ g.elabel e'.label = g.elabel e.label :=
        ⟨e, he, rfl⟩
      have hspec := Classical.choose_spec hl
      simp only [back, dif_pos hl]
      exact hg.elabel _ e hspec.1 he hspec.2
    have hrestore : forall l, l ∈ g.links ->
        (l.relabel g.elabel).relabel back = l := by
      intro l hl
      rcases mem_links.mp hl with ⟨e, he, rfl⟩
      rw [Link.relabel_relabel]
      apply Link.relabel_eq_self
      rw [toLink_label]
      exact hback e he
    have hmapped := congrArg (Multiset.map (Link.relabel back)) hjson
    unfold Graph.jsonLinks at hmapped
    rw [Multiset.map_map, Multiset.map_map, Multiset.map_map] at hmapped
    have hright : g.links.map (Link.relabel back ∘ Link.relabel g.elabel) =
        g.links := by
      calc
        g.links.map (Link.relabel back ∘ Link.relabel g.elabel) =
            g.links.map id := Multiset.map_congr rfl hrestore
        _ = g.links := Multiset.map_id _
    rw [hright] at hmapped
    refine Eq.trans ?_ hmapped
    refine Multiset.map_congr rfl (fun l hl => ?_)
    simp only [Function.comp_apply]
    rw [Link.relabel_map, hrestore l hl]

end Identity
end Topology
end Ostia

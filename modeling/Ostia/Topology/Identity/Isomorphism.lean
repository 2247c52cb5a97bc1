import Mathlib.Algebra.Group.Subgroup.Defs
import Mathlib.Algebra.Group.End
import Ostia.Topology.Identity.Graph

/-!
# Isomorphisms of stripped graphs

A stripped graph is a labelled multigraph: its stored edges are links between
vertices and its adjacency lists are the arcs of these links.  An isomorphism
keeps vertex labels and carries the links of one graph onto those of the other;
the automorphisms of a graph form a group.
-/

namespace Ostia
namespace Topology

open Foundation
open Foundation.Multigraph (Dir Link)

namespace Identity

variable {n m k : Nat}

def StoredEdge.toLink (e : StoredEdge n) : Link (Fin n) Nat :=
  if e.directed then Link.directed e.fromIdx e.toIdx e.label
  else Link.undirected s(e.fromIdx, e.toIdx) e.label

def Arc.toTuple (a : Arc n) : Nat × Dir × Fin n := (a.label, a.dir, a.toIdx)

/-- The stored edges as the links of a multigraph. -/
def Graph.links (g : Graph n) : Multiset (Link (Fin n) Nat) :=
  (g.edges.map StoredEdge.toLink : List (Link (Fin n) Nat))

/-- Whether the kind recorded in an edge label is a directed one. -/
def labelDirected (label : Json) : Bool :=
  match label.get? "kind" with
  | some (Json.str kind) => kind != EdgeKind.nvlink.toString
  | _ => true

/-- What stripping guarantees of the parts of the graph it builds. -/
structure Graph.Stripped (dump : Json -> String) (g : Graph n) : Prop where
  vkey : forall v, g.vkey v = dump (g.vlabel v)
  adj : forall v, g.adj v = g.edges.flatMap (StoredEdge.arcsAt v)
  elabel : forall e e', e ∈ g.edges -> e' ∈ g.edges ->
    g.elabel e.label = g.elabel e'.label -> e.label = e'.label
  directed : forall e, e ∈ g.edges ->
    e.directed = labelDirected (g.elabel e.label)

theorem arcsAt_toTuple (v : Fin n) (e : StoredEdge n) :
    ((e.arcsAt v).map Arc.toTuple : Multiset (Nat × Dir × Fin n)) =
      e.toLink.arcs v := by
  unfold StoredEdge.arcsAt StoredEdge.toLink
  cases e.directed <;>
    by_cases hf : e.fromIdx = v <;> by_cases ht : e.toIdx = v <;>
    simp [hf, ht, Arc.toTuple] <;> rfl

theorem adj_toTuple {dump : Json -> String} {g : Graph n}
    (hg : g.Stripped dump) (v : Fin n) :
    ((g.adj v).map Arc.toTuple : Multiset (Nat × Dir × Fin n)) =
      Multigraph.arcs g.links v := by
  rw [hg.adj v]
  unfold Graph.links Multigraph.arcs
  induction g.edges with
  | nil => rfl
  | cons e rest ih =>
      rw [List.flatMap_cons, List.map_append, List.map_cons,
        ← Multiset.coe_add, ← Multiset.cons_coe, Multiset.cons_bind,
        arcsAt_toTuple, ih]

/-!
## What stripping builds
-/

theorem elabel_edgeRank (dump : Json -> String) {model : Model} {e : Edge}
    (he : e ∈ model.edges) :
    exists e', e' ∈ model.edges ∧
      labelAt dump model (edgeRank dump model (edgeLabel e)) = edgeLabel e' ∧
      edgeRank dump model (edgeLabel e') = edgeRank dump model (edgeLabel e) := by
  unfold labelAt
  have hmem : edgeLabel e ∈ (model.edges.map edgeLabel).filter
      (fun l => edgeRank dump model l = edgeRank dump model (edgeLabel e)) := by
    rw [List.mem_filter]
    exact ⟨List.mem_map_of_mem he, by simp⟩
  cases hlast : ((model.edges.map edgeLabel).filter
      (fun l => edgeRank dump model l =
        edgeRank dump model (edgeLabel e))).getLast? with
  | none =>
      rw [List.getLast?_eq_none_iff] at hlast
      rw [hlast] at hmem
      cases hmem
  | some l =>
      have hl := List.mem_of_getLast? hlast
      rw [List.mem_filter, List.mem_map] at hl
      rcases hl with ⟨⟨e', he', rfl⟩, hrank⟩
      exact ⟨e', he', rfl, by simpa using hrank⟩

theorem edgeRank_inj {dump : Json -> String} (hdump : Function.Injective dump)
    {model : Model} {e e' : Edge} (he : e ∈ model.edges)
    (he' : e' ∈ model.edges)
    (h : edgeRank dump model (edgeLabel e) = edgeRank dump model (edgeLabel e')) :
    edgeLabel e = edgeLabel e' := by
  apply hdump
  refine DenseRank.rank_injOn ?_ ?_ h
  · exact List.mem_map_of_mem (f := fun e => dump (edgeLabel e)) he
  · exact List.mem_map_of_mem (f := fun e => dump (edgeLabel e)) he'

theorem labelDirected_edgeLabel (e : Edge) :
    labelDirected (edgeLabel e) = directed e.kind := by
  have hkind : (edgeLabel e).get? "kind" = some (Json.str e.kind.toString) := by
    have hfind := labelFields_find? e.kind.toString
      (fun name => (e.attrs.find? name).map Json.int)
      (kind_notMem_edgeIdentityAttrs e.kind) "kind"
    rw [if_pos rfl] at hfind
    exact hfind
  unfold labelDirected directed
  rw [hkind]
  cases e.kind <;> decide

/-- The graph of an accepted model, with its stored edges matched to the model's. -/
theorem strip_eq_ok {dump : Json -> String} {model : Model}
    {g : Graph model.nodes.length} (h : strip dump model = .ok g) :
    (model.nodes.map Node.key).Nodup ∧
    (forall v, g.vlabel v = nodeLabel (model.nodes.get v)) ∧
    (forall v, g.vkey v = dump (nodeLabel (model.nodes.get v))) ∧
    g.elabel = labelAt dump model ∧
    (forall v, g.adj v = g.edges.flatMap (StoredEdge.arcsAt v)) ∧
    List.Forall₂
      (fun e s => nodeIndex model e.fromKey = some s.fromIdx ∧
        nodeIndex model e.toKey = some s.toIdx ∧
        s.label = edgeRank dump model (edgeLabel e) ∧
        s.directed = directed e.kind)
      model.edges g.edges := by
  unfold strip at h
  split_ifs at h with hsize
  cases hrep : firstRepeated [] (model.nodes.map Node.key) with
  | some key =>
      rw [hrep] at h
      cases h
  | none =>
      rw [hrep] at h
      cases hedges : model.edges.mapM (resolveEdge model (edgeRank dump model)) with
      | error e =>
          rw [hedges] at h
          cases h
      | ok edges =>
          rw [hedges] at h
          injection h with h
          subst h
          refine ⟨(firstRepeated_eq_none.mp hrep).1, fun _ => rfl, fun _ => rfl,
            rfl, fun _ => rfl, ?_⟩
          rw [Fallible.mapM_eq_ok] at hedges
          exact hedges.imp (fun e s hs => resolveEdge_ok_iff.mp hs)

theorem strip_stripped {dump : Json -> String} (hdump : Function.Injective dump)
    {model : Model} {g : Graph model.nodes.length}
    (h : strip dump model = .ok g) : g.Stripped dump := by
  rcases strip_eq_ok h with ⟨_, hvlabel, hvkey, helabel, hadj, hedges⟩
  constructor
  · intro v
    rw [hvkey, hvlabel]
  · exact hadj
  · intro s s' hs hs' heq
    rcases Fallible.forall₂_mem_right hedges hs with ⟨e, he, hes⟩
    rcases Fallible.forall₂_mem_right hedges hs' with ⟨e', he', hes'⟩
    rw [hes.2.2.1, hes'.2.2.1, helabel] at heq
    rw [hes.2.2.1, hes'.2.2.1]
    rcases elabel_edgeRank dump he with ⟨d, hd, hlabel, hrank⟩
    rcases elabel_edgeRank dump he' with ⟨d', hd', hlabel', hrank'⟩
    rw [hlabel, hlabel'] at heq
    rw [← hrank, ← hrank', heq]
  · intro s hs
    rcases Fallible.forall₂_mem_right hedges hs with ⟨e, he, hes⟩
    rcases elabel_edgeRank dump he with ⟨d, hd, hlabel, hrank⟩
    rw [hes.2.2.1, hes.2.2.2, helabel, hlabel, edgeRank_inj hdump hd he hrank,
      labelDirected_edgeLabel]

/-!
## Isomorphisms
-/

/-- A renaming of the vertices that carries one stripped graph onto another. -/
structure Iso (g : Graph n) (g' : Graph m) (f : Fin n ≃ Fin m) : Prop where
  vlabel : forall v, g'.vlabel (f v) = g.vlabel v
  vkey : forall v, g'.vkey (f v) = g.vkey v
  elabel : forall e, e ∈ g.edges -> g'.elabel e.label = g.elabel e.label
  links : g.links.map (Link.map f) = g'.links

@[simp] theorem toLink_label (e : StoredEdge n) : e.toLink.label = e.label := by
  unfold StoredEdge.toLink
  cases e.directed <;> rfl

theorem mem_links {g : Graph n} {l : Link (Fin n) Nat} :
    l ∈ g.links <-> exists e, e ∈ g.edges ∧ e.toLink = l := by
  unfold Graph.links
  rw [Multiset.mem_coe, List.mem_map]

namespace Iso

variable {g : Graph n} {g' : Graph m} {g'' : Graph k}

theorem label_mem {f : Fin n ≃ Fin m} (h : Iso g g' f) {e' : StoredEdge m}
    (he' : e' ∈ g'.edges) : exists e, e ∈ g.edges ∧ e.label = e'.label := by
  have hlink : e'.toLink ∈ g'.links := mem_links.mpr ⟨e', he', rfl⟩
  rw [← h.links, Multiset.mem_map] at hlink
  rcases hlink with ⟨l, hl, hmap⟩
  rcases mem_links.mp hl with ⟨e, he, rfl⟩
  refine ⟨e, he, ?_⟩
  rw [← toLink_label, ← toLink_label, ← hmap, Link.label_map]

theorem refl (g : Graph n) : Iso g g (Equiv.refl _) where
  vlabel _ := rfl
  vkey _ := rfl
  elabel _ _ := rfl
  links := by
    rw [Equiv.coe_refl]
    simp only [Link.map_id, Multiset.map_id']

theorem symm {f : Fin n ≃ Fin m} (h : Iso g g' f) : Iso g' g f.symm where
  vlabel v := by
    rw [← h.vlabel, Equiv.apply_symm_apply]
  vkey v := by
    rw [← h.vkey, Equiv.apply_symm_apply]
  elabel e' he' := by
    rcases h.label_mem he' with ⟨e, he, hlabel⟩
    rw [← hlabel]
    exact (h.elabel e he).symm
  links := by
    rw [← h.links, Multiset.map_map]
    have hid : (Link.map f.symm ∘ Link.map f : Link (Fin n) Nat -> _) = id := by
      funext e
      simp [Link.map_map]
    rw [hid, Multiset.map_id]

theorem trans {f : Fin n ≃ Fin m} {f' : Fin m ≃ Fin k} (h : Iso g g' f)
    (h' : Iso g' g'' f') : Iso g g'' (f.trans f') where
  vlabel v := by
    rw [Equiv.trans_apply, h'.vlabel, h.vlabel]
  vkey v := by
    rw [Equiv.trans_apply, h'.vkey, h.vkey]
  elabel e he := by
    rcases h.symm.label_mem he with ⟨e', he', hlabel⟩
    rw [← hlabel, h'.elabel e' he', hlabel, h.elabel e he]
  links := by
    rw [← h'.links, ← h.links, Multiset.map_map]
    congr 1
    funext e
    simp [Link.map_map, Equiv.coe_trans]

/-- The adjacency of an image vertex is the renamed adjacency, up to order. -/
theorem adj_perm {dump : Json -> String} (hg : g.Stripped dump)
    (hg' : g'.Stripped dump) {f : Fin n ≃ Fin m} (h : Iso g g' f) (v : Fin n) :
    ((g'.adj (f v)).map Arc.toTuple).Perm
      ((g.adj v).map (fun a => (a.label, a.dir, f a.toIdx))) := by
  rw [← Multiset.coe_eq_coe, adj_toTuple hg', ← h.links, Multigraph.arcs_map,
    ← adj_toTuple hg, Multiset.map_coe, List.map_map]
  rfl

end Iso

/-- The automorphisms of a stripped graph. -/
def autGroup (g : Graph n) : Subgroup (Equiv.Perm (Fin n)) where
  carrier := { f | Iso g g f }
  one_mem' := Iso.refl g
  mul_mem' := by
    intro a b ha hb
    exact Iso.trans hb ha
  inv_mem' := by
    intro a ha
    exact Iso.symm ha

theorem mem_autGroup {g : Graph n} {f : Equiv.Perm (Fin n)} :
    f ∈ autGroup g <-> Iso g g f := Iff.rfl

end Identity
end Topology
end Ostia

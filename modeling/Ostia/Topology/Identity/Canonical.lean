import Mathlib.Data.Set.Function
import Ostia.Topology.Compact
import Ostia.Topology.Identity.Pruning

/-!
# The canonical identity

The identity of a model is the smallest certificate of its stripped graph.  Two
models have the same identity exactly when a bijection of their nodes keeps the
kinds, the identity attributes and the edges.
-/

namespace Ostia
namespace Topology

open Foundation
open Foundation.Multigraph (Dir Link)

namespace Identity

/-- The smallest certificate, as the search leaves it. -/
def canonicalIdentityJson (dump : Json -> String) (model : Model) :
    Except TopologyError String :=
  match strip dump model with
  | .error e => .error e
  | .ok g =>
      match search dump g with
      | .error e => .error e
      | .ok (s, _) => .ok ((s.stored.map fun leaves => leaves.2.cert).getD "")

def topo1 (dump : Json -> String) (sha256Hex : String -> String)
    (model : Model) : Except TopologyError String :=
  match canonicalIdentityJson dump model with
  | .error e => .error e
  | .ok cert => .ok ("topo1:sha256:" ++ sha256Hex cert)

/-!
## Isomorphic models
-/

/-- The ends of an edge under a renaming of keys; the order counts for directed kinds. -/
def SameEnds (f : String -> String) (e e' : Edge) : Prop :=
  if directed e.kind then f e.fromKey = e'.fromKey ∧ f e.toKey = e'.toKey
  else s(f e.fromKey, f e.toKey) = s(e'.fromKey, e'.toKey)

def SameEdge (f : String -> String) (e e' : Edge) : Prop :=
  SameEdgeIdentity e e' ∧ SameEnds f e e'

def keySet (model : Model) : Set String := { k | k ∈ model.nodes.map Node.key }

/-- A bijection of the nodes that keeps identities and carries the edges over. -/
structure IsomorphismOn (a b : Model) (f : String -> String) : Prop where
  bij : Set.BijOn f (keySet a) (keySet b)
  nodes : forall x y, x ∈ a.nodes -> y ∈ b.nodes -> f x.key = y.key ->
    SameNodeIdentity x y
  edges : Multiset.Rel (SameEdge f) a.edges b.edges

def Isomorphic (a b : Model) : Prop := exists f, IsomorphismOn a b f

/-!
## Isomorphisms of models and of their graphs
-/

/-- The edge of a model as a link between keys. -/
def keyLink (e : Edge) : Link String Json :=
  if directed e.kind then Link.directed e.fromKey e.toKey (edgeLabel e)
  else Link.undirected s(e.fromKey, e.toKey) (edgeLabel e)

theorem sameEdge_iff {f : String -> String} {e e' : Edge} :
    SameEdge f e e' <-> (keyLink e).map f = keyLink e' := by
  unfold SameEdge SameEnds keyLink
  rw [← edgeLabel_eq_iff]
  by_cases hlabel : edgeLabel e = edgeLabel e'
  · have hkind : e'.kind = e.kind := (edgeLabel_eq_iff.mp hlabel).1.symm
    rw [hkind, hlabel]
    by_cases hdir : directed e.kind = true
    · simp [hdir, Link.map]
    · simp [hdir, Link.map]
  · simp only [hlabel, false_and, false_iff]
    intro h
    have hl := congrArg Link.label h
    rw [Link.label_map] at hl
    split_ifs at hl <;> exact hlabel hl

/-- The keys of the vertices. -/
def keyAt (model : Model) (i : Fin model.nodes.length) : String :=
  (model.nodes.get i).key

section Graphs

variable {dump : Json -> String} {a b : Model}
  {g : Graph a.nodes.length} {g' : Graph b.nodes.length}

theorem keyAt_injective (h : strip dump a = .ok g) :
    Function.Injective (keyAt a) := by
  intro i j hij
  have hkeys := (strip_eq_ok h).1
  have hi := nodeIndex_key hkeys i
  have hj := nodeIndex_key hkeys j
  unfold keyAt at hij
  rw [hij, hj, Option.some_inj] at hi
  exact hi.symm

/-- The stored labels are the labels of the model's edges. -/
theorem elabel_of_strip (hdump : Function.Injective dump)
    (h : strip dump a = .ok g) {e : Edge} (he : e ∈ a.edges) :
    g.elabel (edgeRank dump a (edgeLabel e)) = edgeLabel e := by
  rcases strip_eq_ok h with ⟨_, _, _, helabel, _, _⟩
  rcases elabel_edgeRank dump he with ⟨d, hd, hlabel, hrank⟩
  rw [helabel, hlabel]
  exact edgeRank_inj hdump hd he hrank

/-- The stored edges, named by keys, are the model's. -/
theorem jsonLinks_keyAt (hdump : Function.Injective dump)
    (h : strip dump a = .ok g) :
    g.jsonLinks.map (Link.map (keyAt a)) = (a.edges.map keyLink : List _) := by
  rcases strip_eq_ok h with ⟨_, _, _, _, _, hedges⟩
  unfold Graph.jsonLinks Graph.links
  rw [Multiset.map_coe, Multiset.map_coe, List.map_map, List.map_map]
  congr 1
  symm
  have hall : forall (es : List Edge) (ss : List (StoredEdge a.nodes.length)),
      List.Forall₂ (fun e s => nodeIndex a e.fromKey = some s.fromIdx ∧
        nodeIndex a e.toKey = some s.toIdx ∧
        s.label = edgeRank dump a (edgeLabel e) ∧ s.directed = directed e.kind) es ss ->
      (forall e, e ∈ es -> e ∈ a.edges) ->
      es.map keyLink =
        ss.map (Link.map (keyAt a) ∘ Link.relabel g.elabel ∘ StoredEdge.toLink) := by
    intro es ss hes
    induction hes with
    | nil =>
        intro _
        rfl
    | @cons e s es ss hs _ ih =>
        intro hmem
        rw [List.map_cons, List.map_cons,
          ih (fun e' he' => hmem e' (List.mem_cons_of_mem e he'))]
        congr 1
        have hlabel := elabel_of_strip hdump h (hmem e List.mem_cons_self)
        rw [← hs.2.2.1] at hlabel
        have hfrom : keyAt a s.fromIdx = e.fromKey := key_of_nodeIndex hs.1
        have hto : keyAt a s.toIdx = e.toKey := key_of_nodeIndex hs.2.1
        simp only [Function.comp_apply, StoredEdge.toLink, keyLink, hs.2.2.2]
        by_cases hdir : directed e.kind = true
        · simp [hdir, Link.relabel, Link.map, hlabel, hfrom, hto]
        · simp [hdir, Link.relabel, Link.map, hlabel, hfrom, hto]
  exact hall a.edges g.edges hedges (fun _ he => he)

/-- A bijection of the vertices that keeps labels and carries the links over. -/
structure Matches {n m : Nat} (g : Graph n) (g' : Graph m) (f : Fin n ≃ Fin m) :
    Prop where
  vlabel : forall v, g'.vlabel (f v) = g.vlabel v
  links : g.jsonLinks.map (Link.map f) = g'.jsonLinks

theorem edges_rel_iff {f : String -> String} {es es' : List Edge} :
    Multiset.Rel (SameEdge f) es es' <->
      ((es.map keyLink : List _) : Multiset (Link String Json)).map (Link.map f) =
        (es'.map keyLink : List _) := by
  rw [← Multiset.rel_eq, ← Multiset.map_coe, ← Multiset.map_coe, Multiset.map_map,
    Multiset.rel_map]
  constructor
  · intro h
    exact h.mono (fun e _ e' _ hee => sameEdge_iff.mp hee)
  · intro h
    exact h.mono (fun e _ e' _ hee => sameEdge_iff.mpr hee)

/-- Moving the vertices and then naming them is naming them and then renaming the keys. -/
theorem map_keyAt (hdump : Function.Injective dump) (h : strip dump a = .ok g)
    {f : Fin a.nodes.length ≃ Fin b.nodes.length} {F : String -> String}
    (hF : forall i, F (keyAt a i) = keyAt b (f i)) :
    (g.jsonLinks.map (Link.map f)).map (Link.map (keyAt b)) =
      ((a.edges.map keyLink : List _) : Multiset (Link String Json)).map (Link.map F) := by
  rw [← jsonLinks_keyAt hdump h, Multiset.map_map, Multiset.map_map]
  refine Multiset.map_congr rfl (fun l _ => ?_)
  rw [Function.comp_apply, Function.comp_apply, Link.map_map, Link.map_map]
  exact Link.map_congr (fun i => (hF i).symm) l

theorem isomorphic_of_matches (hdump : Function.Injective dump)
    (h : strip dump a = .ok g) (h' : strip dump b = .ok g')
    {f : Fin a.nodes.length ≃ Fin b.nodes.length} (hf : Matches g g' f) :
    Isomorphic a b := by
  let F : String -> String := fun k =>
    match nodeIndex a k with
    | some i => keyAt b (f i)
    | none => k
  have hF : forall i, F (keyAt a i) = keyAt b (f i) := by
    intro i
    simp only [F, keyAt, nodeIndex_key (strip_eq_ok h).1 i]
  have hkey : forall {model : Model} {k : String}, k ∈ keySet model ->
      exists i, keyAt model i = k := by
    intro model k hk
    rcases List.mem_map.mp hk with ⟨x, hx, rfl⟩
    rcases List.mem_iff_get.mp hx with ⟨i, rfl⟩
    exact ⟨i, rfl⟩
  have hmem : forall {model : Model} (i : Fin model.nodes.length),
      keyAt model i ∈ keySet model :=
    fun i => List.mem_map_of_mem (List.get_mem _ i)
  refine ⟨F, ⟨?_, ?_, ?_⟩, ?_, ?_⟩
  · intro k hk
    rcases hkey hk with ⟨i, rfl⟩
    rw [hF]
    exact hmem (f i)
  · intro k hk k' hk' heq
    rcases hkey hk with ⟨i, rfl⟩
    rcases hkey hk' with ⟨j, rfl⟩
    rw [hF, hF] at heq
    rw [f.injective (keyAt_injective h' heq)]
  · intro k hk
    rcases hkey hk with ⟨j, rfl⟩
    refine ⟨keyAt a (f.symm j), hmem _, ?_⟩
    rw [hF, Equiv.apply_symm_apply]
  · intro x y hx hy hxy
    rcases List.mem_iff_get.mp hx with ⟨i, rfl⟩
    rcases List.mem_iff_get.mp hy with ⟨j, rfl⟩
    have hij : f i = j := keyAt_injective h' ((hF i).symm.trans hxy)
    have hlabel := hf.vlabel i
    rw [hij, (strip_eq_ok h).2.1, (strip_eq_ok h').2.1] at hlabel
    exact nodeLabel_eq_iff.mp hlabel.symm
  · rw [edges_rel_iff, ← map_keyAt hdump h hF, hf.links, jsonLinks_keyAt hdump h']

theorem matches_of_isomorphic (hdump : Function.Injective dump)
    (h : strip dump a = .ok g) (h' : strip dump b = .ok g') (hiso : Isomorphic a b) :
    exists f, Matches g g' f := by
  rcases hiso with ⟨F, hbij, hnodes, hedges⟩
  have hmem : forall {model : Model} (i : Fin model.nodes.length),
      keyAt model i ∈ keySet model :=
    fun i => List.mem_map_of_mem (List.get_mem _ i)
  have himage : forall i, exists j, keyAt b j = F (keyAt a i) := by
    intro i
    rcases List.mem_map.mp (hbij.mapsTo (hmem i)) with ⟨y, hy, hkey⟩
    rcases List.mem_iff_get.mp hy with ⟨j, rfl⟩
    exact ⟨j, hkey⟩
  choose move hmove using himage
  have hbijective : Function.Bijective move := by
    constructor
    · intro i j hij
      have heq : F (keyAt a i) = F (keyAt a j) := by rw [← hmove, ← hmove, hij]
      exact keyAt_injective h (hbij.injOn (hmem i) (hmem j) heq)
    · intro j
      rcases hbij.surjOn (hmem j) with ⟨k, hk, hFk⟩
      rcases List.mem_map.mp hk with ⟨x, hx, rfl⟩
      rcases List.mem_iff_get.mp hx with ⟨i, rfl⟩
      exact ⟨i, keyAt_injective h' ((hmove i).trans hFk)⟩
  refine ⟨Equiv.ofBijective move hbijective, ?_, ?_⟩
  · intro i
    rw [(strip_eq_ok h).2.1, (strip_eq_ok h').2.1]
    exact (nodeLabel_eq_iff.mpr (hnodes _ _ (List.get_mem _ i) (List.get_mem _ _)
      (hmove i).symm)).symm
  · -- Keys tell the vertices apart, so it is enough to compare links between keys.
    apply Multiset.map_injective (Link.map_injective (keyAt_injective h'))
    rw [map_keyAt hdump h (fun i => (hmove i).symm), edges_rel_iff.mp hedges,
      jsonLinks_keyAt hdump h']

/-- Labels that occur in both models have the same rank in both. -/
theorem edgeRank_congr (hdump : Function.Injective dump) (h : strip dump a = .ok g)
    (h' : strip dump b = .ok g') {f : Fin a.nodes.length ≃ Fin b.nodes.length}
    (hf : Matches g g' f) : edgeRank dump a = edgeRank dump b := by
  have hlabels : forall {model : Model} {G : Graph model.nodes.length},
      strip dump model = .ok G -> forall s,
      s ∈ model.edges.map (fun e => dump (edgeLabel e)) <->
        exists l, l ∈ G.jsonLinks ∧ dump l.label = s := by
    intro model G hG s
    have hkeys := jsonLinks_keyAt hdump hG
    constructor
    · intro hs
      rcases List.mem_map.mp hs with ⟨e, he, rfl⟩
      have hmem : keyLink e ∈ G.jsonLinks.map (Link.map (keyAt model)) := by
        rw [hkeys]
        exact Multiset.mem_coe.mpr (List.mem_map_of_mem he)
      rcases Multiset.mem_map.mp hmem with ⟨l, hl, heq⟩
      refine ⟨l, hl, ?_⟩
      rw [← Link.label_map (keyAt model), heq]
      unfold keyLink
      split_ifs <;> rfl
    · rintro ⟨l, hl, rfl⟩
      have hmem := Multiset.mem_map_of_mem (Link.map (keyAt model)) hl
      rw [hkeys, Multiset.mem_coe] at hmem
      rcases List.mem_map.mp hmem with ⟨e, he, heq⟩
      refine List.mem_map.mpr ⟨e, he, ?_⟩
      rw [← Link.label_map (keyAt model), ← heq]
      unfold keyLink
      split_ifs <;> rfl
  funext label
  apply DenseRank.rank_congr
  intro s
  rw [hlabels h, hlabels h', ← hf.links]
  constructor
  · rintro ⟨l, hl, rfl⟩
    exact ⟨l.map f, Multiset.mem_map_of_mem _ hl, by rw [Link.label_map]⟩
  · rintro ⟨l, hl, rfl⟩
    rcases Multiset.mem_map.mp hl with ⟨l', hl', rfl⟩
    exact ⟨l', hl', by rw [Link.label_map]⟩

/-- The stored links are the labelled links with ranks in place of labels. -/
theorem links_eq_relabel (hdump : Function.Injective dump) (h : strip dump a = .ok g) :
    g.links = g.jsonLinks.map (Link.relabel (edgeRank dump a)) := by
  rcases strip_eq_ok h with ⟨_, _, _, _, _, hedges⟩
  unfold Graph.jsonLinks
  rw [Multiset.map_map]
  symm
  calc
    g.links.map (Link.relabel (edgeRank dump a) ∘ Link.relabel g.elabel) =
        g.links.map id := by
      refine Multiset.map_congr rfl (fun l hl => ?_)
      rcases mem_links.mp hl with ⟨s, hs, rfl⟩
      rcases Fallible.forall₂_mem_right hedges hs with ⟨e, he, hes⟩
      rw [Function.comp_apply, Link.relabel_relabel]
      apply Link.relabel_eq_self
      rw [toLink_label, hes.2.2.1, Function.comp_apply, elabel_of_strip hdump h he]
    _ = g.links := Multiset.map_id _

theorem iso_of_matches (hdump : Function.Injective dump) (h : strip dump a = .ok g)
    (h' : strip dump b = .ok g') {f : Fin a.nodes.length ≃ Fin b.nodes.length}
    (hf : Matches g g' f) : Iso g g' f := by
  have hrank := edgeRank_congr hdump h h' hf
  have hlinks : g.links.map (Link.map f) = g'.links := by
    rw [links_eq_relabel hdump h, links_eq_relabel hdump h', ← hf.links, hrank,
      Multiset.map_map, Multiset.map_map]
    refine Multiset.map_congr rfl (fun l _ => ?_)
    rw [Function.comp_apply, Function.comp_apply, Link.relabel_map]
  refine ⟨hf.vlabel, ?_, ?_, hlinks⟩
  · intro v
    rw [(strip_stripped hdump h).vkey, (strip_stripped hdump h').vkey, hf.vlabel]
  · intro s hs
    -- The label of a stored edge is also the label of an edge of the other model.
    rcases Fallible.forall₂_mem_right (strip_eq_ok h).2.2.2.2.2 hs with ⟨e, he, hes⟩
    have hjson : (s.toLink.relabel g.elabel).map f ∈ g'.jsonLinks := by
      rw [← hf.links]
      exact Multiset.mem_map_of_mem _
        (Multiset.mem_map_of_mem _ (mem_links.mpr ⟨s, hs, rfl⟩))
    rcases Multiset.mem_map.mp hjson with ⟨l, hl, hmap⟩
    rcases mem_links.mp hl with ⟨s', hs', rfl⟩
    rcases Fallible.forall₂_mem_right (strip_eq_ok h').2.2.2.2.2 hs' with ⟨e', he', hes'⟩
    have hlabel : g'.elabel s'.label = g.elabel s.label := by
      have hl := congrArg Link.label hmap
      rwa [Link.label_map, Link.label_relabel, Link.label_relabel, toLink_label,
        toLink_label] at hl
    rw [hes.2.2.1, hes'.2.2.1, elabel_of_strip hdump h he,
      elabel_of_strip hdump h' he'] at hlabel
    rw [hes.2.2.1, elabel_of_strip hdump h he, hrank, ← hlabel,
      elabel_of_strip hdump h' he']

/-- Equal certificates at leaves of two graphs give a matching of their vertices. -/
theorem matches_of_leafCert_eq {n m : Nat} {g : Graph n} {g' : Graph m}
    (hdump : Function.Injective dump) (hg : g.Stripped dump) (hg' : g'.Stripped dump)
    {p : List (Fin n)} {p' : List (Fin m)} (hp : IsLeaf g p) (hp' : IsLeaf g' p')
    (h : leafCert dump g p = leafCert dump g' p') : exists f, Matches g g' f := by
  have hjson : certificateJson g (colourOf g p) = certificateJson g' (colourOf g' p') :=
    hdump h
  have hnm : n = m := by
    simpa using congrArg List.length (certificateJson_entries hjson).2
  subst hnm
  rcases of_certificateJson_eq hg hg' hp.discrete hp'.discrete hjson with
    ⟨hvlabel, hlinks⟩
  exact ⟨_, hvlabel, hlinks⟩

end Graphs

/-!
## The identity decides isomorphism
-/

theorem search_ne_leafCap {dump : Json -> String} {model : Model}
    {g : Graph model.nodes.length} (h : strip dump model = .ok g)
    (hcap : canonicalIdentityJson dump model ≠ .error leafCap) :
    search dump g ≠ .error leafCap := by
  intro herr
  apply hcap
  unfold canonicalIdentityJson
  rw [h]
  simp only [herr]

theorem canonicalIdentityJson_isLeast {dump : Json -> String}
    (hdump : Function.Injective dump) {model : Model}
    {g : Graph model.nodes.length} (h : strip dump model = .ok g)
    (hcap : canonicalIdentityJson dump model ≠ .error leafCap) :
    exists cert, canonicalIdentityJson dump model = .ok cert ∧
      IsLeast (treeCerts dump g) cert := by
  rcases search_isLeast hdump (strip_stripped hdump h) (search_ne_leafCap h hcap) with
    ⟨s, jump, first, best, hok, hstored, hleast⟩
  refine ⟨best.cert, ?_, hleast⟩
  unfold canonicalIdentityJson
  rw [h]
  simp only [hok, hstored, Option.map_some, Option.getD_some]

/-- The document of the best leaf, as the search leaves it. -/
def bestDocument (dump : Json -> String) (model : Model) : Option Json :=
  match strip dump model with
  | .error _ => none
  | .ok g =>
      match search dump g with
      | .error _ => none
      | .ok (s, _) => s.stored.map fun leaves => certificateJson g leaves.2.position

theorem canonicalIdentityJson_of_bestDocument {dump : Json -> String}
    (hdump : Function.Injective dump) {model : Model} {doc : Json}
    (h : bestDocument dump model = some doc) :
    canonicalIdentityJson dump model = .ok (dump doc) := by
  unfold bestDocument at h
  unfold canonicalIdentityJson
  cases hstrip : strip dump model with
  | error e =>
      rw [hstrip] at h
      cases h
  | ok g =>
      cases hsearch : search dump g with
      | error e =>
          simp only [hstrip, hsearch] at h
          cases h
      | ok result =>
          obtain ⟨s, jump⟩ := result
          simp only [hstrip, hsearch] at h
          obtain ⟨⟨first, best⟩, hstored, hdoc⟩ := Option.map_eq_some_iff.mp h
          have hrun := search_ok hdump (strip_stripped hdump hstrip) hsearch
          have hbest := hrun.ok.stored best (by simp [storedLeaves, hstored])
          have hcert : best.cert = dump doc := by
            rw [hbest.cert, <- hdoc, hbest.position]
            rfl
          simp only [hsearch, hstored, Option.map_some, Option.getD_some, hcert]

/-- Isomorphic models have the same smallest certificate. -/
theorem isLeast_unique_of_isomorphic {dump : Json -> String}
    (hdump : Function.Injective dump) {a b : Model} {g : Graph a.nodes.length}
    {g' : Graph b.nodes.length} (h : strip dump a = .ok g)
    (h' : strip dump b = .ok g') (hiso : Isomorphic a b) {cert cert' : String}
    (hleast : IsLeast (treeCerts dump g) cert)
    (hleast' : IsLeast (treeCerts dump g') cert') : cert = cert' := by
  rcases matches_of_isomorphic hdump h h' hiso with ⟨f, hf⟩
  rw [← treeCerts_eq (strip_stripped hdump h) (strip_stripped hdump h')
    (iso_of_matches hdump h h' hf)] at hleast
  exact hleast.unique hleast'

/-- The models agree up to keys, data attributes, orders and the ends of NVLinks. -/
structure Redrawn (a b : Model) (rename : String -> String) : Prop where
  injective : Set.InjOn rename (keySet a)
  nodes : exists nodes, nodes.Perm b.nodes ∧ List.Forall₂
    (fun x y => y.key = rename x.key ∧ SameNodeIdentity x y) a.nodes nodes
  edges : exists edges, edges.Perm b.edges ∧ List.Forall₂
    (fun e e' => SameEdgeIdentity e e' ∧
      ((e'.fromKey = rename e.fromKey ∧ e'.toKey = rename e.toKey) ∨
        (e.kind = EdgeKind.nvlink ∧ e'.fromKey = rename e.toKey ∧
          e'.toKey = rename e.fromKey))) a.edges edges

theorem rel_of_forall₂ {alpha beta : Type*} {R : alpha -> beta -> Prop}
    {xs : List alpha} {ys : List beta} (h : List.Forall₂ R xs ys) :
    Multiset.Rel R xs ys := by
  induction h with
  | nil => exact Multiset.Rel.zero
  | cons hxy _ ih => exact Multiset.Rel.cons hxy ih

theorem isomorphic_of_redrawn {a b : Model} (hb : Accepted b)
    {rename : String -> String} (h : Redrawn a b rename) : Isomorphic a b := by
  rcases h.nodes with ⟨nodes, hperm, hnodes⟩
  rcases h.edges with ⟨edges, hedges, hsame⟩
  refine ⟨rename, ⟨?_, h.injective, ?_⟩, ?_, ?_⟩
  · intro k hk
    rcases List.mem_map.mp hk with ⟨x, hx, rfl⟩
    rcases Fallible.forall₂_mem_left hnodes hx with ⟨y, hy, hxy⟩
    rw [← hxy.1]
    exact List.mem_map_of_mem (hperm.mem_iff.mp hy)
  · intro k hk
    rcases List.mem_map.mp hk with ⟨y, hy, rfl⟩
    rcases Fallible.forall₂_mem_right hnodes (hperm.mem_iff.mpr hy) with ⟨x, hx, hxy⟩
    exact ⟨x.key, List.mem_map_of_mem hx, hxy.1.symm⟩
  · intro x y hx hy hkey
    rcases Fallible.forall₂_mem_left hnodes hx with ⟨y', hy', hxy⟩
    have heq : y' = y := by
      refine List.inj_on_of_nodup_map hb.keys (hperm.mem_iff.mp hy') hy ?_
      rw [hxy.1, hkey]
    rw [← heq]
    exact hxy.2
  · have hrel := rel_of_forall₂ (hsame.imp (S := SameEdge rename) (fun e e' he => by
      refine ⟨he.1, ?_⟩
      unfold SameEnds
      rcases he.2 with ⟨hfrom, hto⟩ | ⟨hkind, hfrom, hto⟩
      · split_ifs
        · exact ⟨hfrom.symm, hto.symm⟩
        · rw [hfrom, hto]
      · rw [if_neg (by rw [hkind]; decide), hfrom, hto]
        exact Sym2.eq_swap))
    rwa [Multiset.coe_eq_coe.mpr hedges] at hrel

/--
On accepted models whose search stays below the cap on leaves, the identity is a
complete invariant; in particular it does not depend on keys, data attributes,
the order of nodes and edges or the order of the ends of an NVLink.
-/
theorem canonicalIdentityJson_eq_iff {dump : Json -> String}
    (hdump : Function.Injective dump) {a b : Model} (ha : Accepted a)
    (hb : Accepted b) (hcapa : canonicalIdentityJson dump a ≠ .error leafCap)
    (hcapb : canonicalIdentityJson dump b ≠ .error leafCap) :
    exists certa certb,
      canonicalIdentityJson dump a = .ok certa ∧
      canonicalIdentityJson dump b = .ok certb ∧
      (certa = certb <-> Isomorphic a b) ∧
      forall rename, Redrawn a b rename -> certa = certb := by
  rcases strip_ok_iff.mpr ha with ⟨g, hg⟩
  rcases strip_ok_iff.mpr hb with ⟨g', hg'⟩
  have hs := strip_stripped hdump hg
  have hs' := strip_stripped hdump hg'
  rcases canonicalIdentityJson_isLeast hdump hg hcapa with ⟨certa, hoka, hleasta⟩
  rcases canonicalIdentityJson_isLeast hdump hg' hcapb with ⟨certb, hokb, hleastb⟩
  have hequal : Isomorphic a b -> certa = certb := fun hiso =>
    isLeast_unique_of_isomorphic hdump hg hg' hiso hleasta hleastb
  refine ⟨certa, certb, hoka, hokb, ⟨?_, hequal⟩, ?_⟩
  · rintro rfl
    rcases hleasta.1 with ⟨p, hp, hcert⟩
    rcases hleastb.1 with ⟨p', hp', hcert'⟩
    rcases matches_of_leafCert_eq hdump hs hs' hp hp' (hcert.trans hcert'.symm) with
      ⟨f, hf⟩
    exact isomorphic_of_matches hdump hg hg' hf
  · intro rename hredrawn
    exact hequal (isomorphic_of_redrawn hb hredrawn)

/-- Two GPUs joined by an NVLink. -/
def gpuPair (x y : String) : Model :=
  let gpu : String -> Node := fun key =>
    ⟨NodeKind.gpu, key, OrdMap.empty.insert "model" (Value.str "B200")⟩
  ⟨[gpu x, gpu y], [⟨EdgeKind.nvlink, x, y, OrdMap.empty.insert "links" 18⟩]⟩

theorem gpuPair_accepted : Accepted (gpuPair "a" "b") ∧ Accepted (gpuPair "y" "x") :=
  ⟨⟨by decide, by decide, by simp [gpuPair]⟩, ⟨by decide, by decide, by simp [gpuPair]⟩⟩

theorem gpuPair_cap :
    canonicalIdentityJson Compact.dump (gpuPair "a" "b") ≠ .error leafCap ∧
      canonicalIdentityJson Compact.dump (gpuPair "y" "x") ≠ .error leafCap := by
  have hok : forall {r : Except TopologyError String}, r.toBool = true ->
      r ≠ .error leafCap := by
    rintro _ h rfl
    cases h
  exact ⟨hok (by decide +kernel), hok (by decide +kernel)⟩

theorem canonicalIdentityJson_gpuPair :
    exists certa certb,
      canonicalIdentityJson Compact.dump (gpuPair "a" "b") = .ok certa ∧
      canonicalIdentityJson Compact.dump (gpuPair "y" "x") = .ok certb ∧
      (certa = certb <-> Isomorphic (gpuPair "a" "b") (gpuPair "y" "x")) ∧
      forall rename, Redrawn (gpuPair "a" "b") (gpuPair "y" "x") rename ->
        certa = certb :=
  canonicalIdentityJson_eq_iff Compact.dump_injective gpuPair_accepted.1
    gpuPair_accepted.2 gpuPair_cap.1 gpuPair_cap.2

/-- On a stripped graph below the cap on leaves, the pruned search equals the unpruned one. -/
theorem search_best_isLeast {dump : Json -> String} (hdump : Function.Injective dump)
    {model : Model} {g : Graph model.nodes.length} (h : strip dump model = .ok g)
    (hcap : search dump g ≠ .error leafCap) :
    exists s jump first best, search dump g = .ok (s, jump) ∧
      s.stored = some (first, best) ∧ IsLeast (treeCerts dump g) best.cert :=
  search_isLeast hdump (strip_stripped hdump h) hcap

theorem search_gpuPair :
    exists g, strip Compact.dump (gpuPair "a" "b") = .ok g ∧
      exists s jump first best, search Compact.dump g = .ok (s, jump) ∧
        s.stored = some (first, best) ∧ IsLeast (treeCerts Compact.dump g) best.cert := by
  rcases strip_ok_iff.mpr gpuPair_accepted.1 with ⟨g, hg⟩
  exact ⟨g, hg, search_best_isLeast Compact.dump_injective hg
    (search_ne_leafCap hg gpuPair_cap.1)⟩

end Identity
end Topology
end Ostia

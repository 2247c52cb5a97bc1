import Ostia.Topology.Identity.Search

/-!
# The full search tree

A node of the tree is the path of the individualised vertices; its colouring is
a fold over the path.  Every vertex of the open cell gives a child, and a node
without an open cell is a leaf.  This is the tree without any pruning.

Isomorphisms carry nodes to nodes and leaves to leaves with the same
certificate.  The colouring of a leaf determines its path.
-/

namespace Ostia
namespace Topology

open Foundation

namespace Identity

variable {n m : Nat}

/-- The colouring of a node. -/
def colourOf (g : Graph n) (path : List (Fin n)) : Fin n -> Nat :=
  path.foldl (fun colour v => refine g (individualise colour v)) (rootColour g)

/-- The nodes of the full tree. -/
inductive IsNode (g : Graph n) : List (Fin n) -> Prop where
  | root : IsNode g []
  | child {path open_ : List (Fin n)} {v : Fin n} :
      IsNode g path -> openCell (colourOf g path) = some open_ -> v ∈ open_ ->
      IsNode g (path ++ [v])

/-- A leaf of the full tree. -/
structure IsLeaf (g : Graph n) (path : List (Fin n)) : Prop where
  node : IsNode g path
  closed : openCell (colourOf g path) = none

/-- The certificate of a leaf. -/
def leafCert (dump : Json -> String) (g : Graph n) (path : List (Fin n)) :
    String :=
  certificate dump g (colourOf g path)

/-- The certificates of all leaves of the full tree. -/
def treeCerts (dump : Json -> String) (g : Graph n) : Set String :=
  { cert | exists path, IsLeaf g path ∧ leafCert dump g path = cert }

@[simp] theorem colourOf_append_singleton (g : Graph n) (path : List (Fin n))
    (v : Fin n) :
    colourOf g (path ++ [v]) = refine g (individualise (colourOf g path) v) := by
  unfold colourOf
  rw [List.foldl_append]
  rfl

/-!
## The open cell
-/

@[simp] theorem mem_cell {colour : Fin n -> Nat} {c : Nat} {v : Fin n} :
    v ∈ cell colour c <-> colour v = c := by
  simp [cell]

theorem cell_nodup (colour : Fin n -> Nat) (c : Nat) : (cell colour c).Nodup :=
  (List.nodup_finRange n).filter _

theorem openCell_eq_some {colour : Fin n -> Nat} {open_ : List (Fin n)} :
    openCell colour = some open_ <->
      exists c, c < n ∧ open_ = cell colour c ∧ 1 < (cell colour c).length ∧
        forall c', c' < c -> (cell colour c').length ≤ 1 := by
  unfold openCell
  rw [List.find?_map, Option.map_eq_some_iff]
  constructor
  · rintro ⟨c, hfind, rfl⟩
    rw [List.find?_range_eq_some] at hfind
    simp only [Function.comp_apply, decide_eq_true_eq, List.mem_range,
      decide_eq_false_iff_not, Bool.not_eq_true'] at hfind
    exact ⟨c, hfind.2.1, rfl, hfind.1, fun c' hc' => by
      have := hfind.2.2 c' hc'
      omega⟩
  · rintro ⟨c, hc, rfl, hlen, hfirst⟩
    refine ⟨c, ?_, rfl⟩
    rw [List.find?_range_eq_some]
    simp only [Function.comp_apply, decide_eq_true_eq, List.mem_range,
      decide_eq_false_iff_not, Bool.not_eq_true']
    exact ⟨hlen, hc, fun c' hc' => by
      have := hfirst c' hc'
      omega⟩

theorem openCell_eq_none {colour : Fin n -> Nat} :
    openCell colour = none <-> forall c, c < n -> (cell colour c).length ≤ 1 := by
  unfold openCell
  rw [List.find?_eq_none]
  simp only [List.mem_map, List.mem_range, decide_eq_true_eq]
  constructor
  · intro h c hc
    have := h _ ⟨c, hc, rfl⟩
    omega
  · rintro h _ ⟨c, hc, rfl⟩
    have := h c hc
    omega

/-- A cell with two vertices has more than one. -/
theorem one_lt_cell_length {colour : Fin n -> Nat} {u v : Fin n} (huv : u ≠ v)
    (h : colour u = colour v) : 1 < (cell colour (colour v)).length := by
  have hsub : [u, v] ⊆ cell colour (colour v) := by
    intro x hx
    rw [mem_cell]
    simp only [List.mem_cons, List.not_mem_nil, or_false] at hx
    rcases hx with rfl | rfl
    · exact h
    · rfl
  have hnodup : [u, v].Nodup := by simp [huv]
  exact (hnodup.subperm hsub).length_le

theorem eq_of_cell_length_le {colour : Fin n -> Nat} {u v : Fin n}
    (hlen : (cell colour (colour v)).length ≤ 1) (h : colour u = colour v) :
    u = v := by
  by_contra huv
  have := one_lt_cell_length huv h
  omega

/-- The vertices of the open cell share a colour with another vertex. -/
theorem exists_ne_of_mem_openCell {colour : Fin n -> Nat} {open_ : List (Fin n)}
    (h : openCell colour = some open_) {v : Fin n} (hv : v ∈ open_) :
    exists u, u ≠ v ∧ u ∈ open_ := by
  rcases openCell_eq_some.mp h with ⟨c, _, rfl, hlen, _⟩
  by_contra hno
  have hsub : cell colour c ⊆ [v] := by
    intro u hu
    rw [List.mem_singleton]
    by_contra huv
    exact hno ⟨u, huv, hu⟩
  have := ((cell_nodup colour c).subperm hsub).length_le
  rw [List.length_singleton] at this
  omega

theorem colour_eq_of_mem_openCell {colour : Fin n -> Nat} {open_ : List (Fin n)}
    (h : openCell colour = some open_) {u v : Fin n} (hu : u ∈ open_)
    (hv : v ∈ open_) : colour u = colour v := by
  rcases openCell_eq_some.mp h with ⟨c, _, rfl, _⟩
  rw [mem_cell] at hu hv
  rw [hu, hv]

/-!
## Paths
-/

theorem individualise_eq {colour : Fin n -> Nat} {v x y : Fin n}
    (h : individualise colour v x = individualise colour v y) :
    (x = v <-> y = v) ∧ colour x = colour y := by
  unfold individualise at h
  split_ifs at h with hx hy hy
  · exact ⟨by rw [hx, hy], by rw [hx, hy]⟩
  · omega
  · omega
  · exact ⟨by simp [hx, hy], by omega⟩

theorem individualise_lt {colour : Fin n -> Nat} (v : Fin n) {x y : Fin n}
    (h : colour x < colour y) : individualise colour v x < individualise colour v y := by
  unfold individualise
  split_ifs with hx hy
  · subst hx hy
    omega
  · subst hx
    omega
  · rename_i hy
    subst hy
    omega
  · omega

/-- The individualised vertex comes before the rest of its cell. -/
theorem individualise_self_lt {colour : Fin n -> Nat} {v x : Fin n} (hx : x ≠ v)
    (h : colour x = colour v) :
    individualise colour v v < individualise colour v x := by
  unfold individualise
  rw [if_pos rfl, if_neg hx, h]
  omega

theorem colourOf_dense (g : Graph n) (path : List (Fin n)) :
    Dense (colourOf g path) := by
  induction path using List.reverseRecOn with
  | nil => exact refine_dense g _
  | append_singleton path v _ =>
      rw [colourOf_append_singleton]
      exact refine_dense g _

/-- Vertices of one cell have the same key. -/
theorem vkey_eq_of_colourOf_eq {g : Graph n} {path : List (Fin n)} {x y : Fin n}
    (h : colourOf g path x = colourOf g path y) : g.vkey x = g.vkey y := by
  induction path using List.reverseRecOn with
  | nil =>
      have hroot := colour_eq_of_refine_eq h
      exact DenseRank.rank_injOn (List.mem_map_of_mem (List.mem_finRange x))
        (List.mem_map_of_mem (List.mem_finRange y)) hroot
  | append_singleton path v ih =>
      rw [colourOf_append_singleton] at h
      exact ih (individualise_eq (colour_eq_of_refine_eq h)).2

/-- The vertices of a path are alone in their cells. -/
theorem eq_of_mem_path {g : Graph n} {path : List (Fin n)} {x y : Fin n}
    (hx : x ∈ path) (h : colourOf g path y = colourOf g path x) : y = x := by
  induction path using List.reverseRecOn with
  | nil =>
      cases hx
  | append_singleton path v ih =>
      rw [colourOf_append_singleton] at h
      have hind := individualise_eq (colour_eq_of_refine_eq h)
      rw [List.mem_append, List.mem_singleton] at hx
      rcases hx with hx | rfl
      · exact ih hx hind.2
      · exact hind.1.mpr rfl

theorem notMem_path_of_mem_openCell {g : Graph n} {path open_ : List (Fin n)}
    (h : openCell (colourOf g path) = some open_) {v : Fin n} (hv : v ∈ open_) :
    v ∉ path := by
  intro hmem
  rcases exists_ne_of_mem_openCell h hv with ⟨u, hne, hu⟩
  exact hne (eq_of_mem_path hmem (colour_eq_of_mem_openCell h hu hv))

theorem IsNode.nodup {g : Graph n} {path : List (Fin n)} (h : IsNode g path) :
    path.Nodup := by
  induction h with
  | root => exact List.nodup_nil
  | @child path open_ v _ hopen hv ih =>
      rw [List.nodup_append]
      refine ⟨ih, List.nodup_singleton v, ?_⟩
      intro a ha b hb
      rw [List.mem_singleton] at hb
      rintro rfl
      exact notMem_path_of_mem_openCell hopen hv (hb ▸ ha)

theorem IsNode.length_le {g : Graph n} {path : List (Fin n)} (h : IsNode g path) :
    path.length ≤ n := by
  simpa using h.nodup.length_le_card

/-- Taking apart a node that extends another one. -/
theorem IsNode.of_append_cons {g : Graph n} {path rest : List (Fin n)}
    {v : Fin n} (h : IsNode g (path ++ v :: rest)) :
    IsNode g path ∧ exists open_, openCell (colourOf g path) = some open_ ∧
      v ∈ open_ := by
  induction rest using List.reverseRecOn with
  | nil =>
      generalize hp : path ++ [v] = p at h
      cases h with
      | root => simp at hp
      | @child path' open_ v' hnode hopen hv =>
          rw [List.append_inj' hp rfl |>.1] at *
          have hvv : v = v' := by
            have := (List.append_inj' hp rfl).2
            simpa using this
          subst hvv
          exact ⟨hnode, open_, hopen, hv⟩
  | append_singleton rest w ih =>
      apply ih
      generalize hp : path ++ v :: (rest ++ [w]) = p at h
      cases h with
      | root => simp at hp
      | @child path' open_ v' hnode hopen hv =>
          have hsplit : (path ++ v :: rest) ++ [w] = path' ++ [v'] := by
            rw [← hp]
            simp
          rw [(List.append_inj' hsplit rfl).1]
          exact hnode

/-!
## Leaves
-/

theorem colourOf_lt_of_append {g : Graph n} {path : List (Fin n)} {x y : Fin n}
    (h : colourOf g path x < colourOf g path y) (rest : List (Fin n)) :
    colourOf g (path ++ rest) x < colourOf g (path ++ rest) y := by
  induction rest using List.reverseRecOn with
  | nil =>
      rw [List.append_nil]
      exact h
  | append_singleton rest v ih =>
      rw [← List.append_assoc, colourOf_append_singleton]
      exact refine_lt (individualise_lt v ih)

theorem IsLeaf.discrete {g : Graph n} {path : List (Fin n)} (h : IsLeaf g path) :
    Discrete (colourOf g path) := by
  refine Discrete.of_dense (colourOf_dense g path) ?_
  intro u v huv
  -- The colours of a dense colouring are below n, so every cell was looked at.
  have hlen := openCell_eq_none.mp h.closed _ ((colourOf_dense g path).lt v)
  exact eq_of_cell_length_le hlen huv

/-- The individualised vertex precedes the rest of its cell in every leaf below. -/
theorem child_first {g : Graph n} {path : List (Fin n)} {v x : Fin n} (hx : x ≠ v)
    (h : colourOf g path x = colourOf g path v) (rest : List (Fin n)) :
    colourOf g (path ++ v :: rest) v < colourOf g (path ++ v :: rest) x := by
  have hchild : colourOf g (path ++ [v]) v < colourOf g (path ++ [v]) x := by
    rw [colourOf_append_singleton]
    exact refine_lt (individualise_self_lt hx h)
  have hrest := colourOf_lt_of_append hchild rest
  rwa [List.append_assoc] at hrest

/-- A leaf has no descendants. -/
theorem IsLeaf.not_extends {g : Graph n} {path rest : List (Fin n)} {v : Fin n}
    (h : IsLeaf g path) (hnode : IsNode g (path ++ v :: rest)) : False := by
  rcases hnode.of_append_cons with ⟨_, open_, hopen, _⟩
  rw [h.closed] at hopen
  cases hopen

/-- Two paths are equal, or one extends the other, or they part at two vertices. -/
theorem paths_cases (p q : List (Fin n)) :
    p = q ∨ (exists v r, q = p ++ v :: r) ∨ (exists v r, p = q ++ v :: r) ∨
      exists common v r w t, v ≠ w ∧ p = common ++ v :: r ∧ q = common ++ w :: t := by
  induction p generalizing q with
  | nil =>
      cases q with
      | nil => exact Or.inl rfl
      | cons w t => exact Or.inr (Or.inl ⟨w, t, rfl⟩)
  | cons v r ih =>
      cases q with
      | nil => exact Or.inr (Or.inr (Or.inl ⟨v, r, rfl⟩))
      | cons w t =>
          by_cases hvw : v = w
          · subst hvw
            rcases ih t with rfl | ⟨x, s, rfl⟩ | ⟨x, s, rfl⟩ |
              ⟨common, x, s, y, z, hne, rfl, rfl⟩
            · exact Or.inl rfl
            · exact Or.inr (Or.inl ⟨x, s, rfl⟩)
            · exact Or.inr (Or.inr (Or.inl ⟨x, s, rfl⟩))
            · exact Or.inr (Or.inr (Or.inr ⟨v :: common, x, s, y, z, hne, rfl, rfl⟩))
          · exact Or.inr (Or.inr (Or.inr ⟨[], v, r, w, t, hvw, rfl, rfl⟩))

/-- The colouring of a leaf determines its path. -/
theorem IsLeaf.path_eq {g : Graph n} {p q : List (Fin n)} (hp : IsLeaf g p)
    (hq : IsLeaf g q) (h : colourOf g p = colourOf g q) : p = q := by
  rcases paths_cases p q with heq | ⟨v, r, hext⟩ | ⟨v, r, hext⟩ |
    ⟨common, v, r, w, t, hne, hpv, hqw⟩
  · exact heq
  · exact (hp.not_extends (hext ▸ hq.node)).elim
  · exact (hq.not_extends (hext ▸ hp.node)).elim
  · rcases (hpv ▸ hp.node).of_append_cons with ⟨_, open_, hopen, hv⟩
    rcases (hqw ▸ hq.node).of_append_cons with ⟨_, open', hopen', hw⟩
    have hsame : open' = open_ := by
      rw [hopen, Option.some_inj] at hopen'
      exact hopen'.symm
    subst hsame
    have hcolour := colour_eq_of_mem_openCell hopen hw hv
    -- Each leaf puts its own choice before the other's.
    have h1 := child_first (Ne.symm hne) hcolour r
    have h2 := child_first hne hcolour.symm t
    rw [← hpv, h, hqw] at h1
    omega

theorem exists_leaf {g : Graph n} :
    forall (k : Nat) (path : List (Fin n)), IsNode g path -> n < path.length + k ->
      exists rest, IsLeaf g (path ++ rest) := by
  intro k
  induction k with
  | zero =>
      intro path hnode hk
      have := hnode.length_le
      omega
  | succ k ih =>
      intro path hnode hk
      cases hopen : openCell (colourOf g path) with
      | none => exact ⟨[], by rw [List.append_nil]; exact ⟨hnode, hopen⟩⟩
      | some open_ =>
          rcases openCell_eq_some.mp hopen with ⟨c, _, rfl, hlen, _⟩
          have hpos : 0 < (cell (colourOf g path) c).length := by omega
          have hchild := IsNode.child hnode hopen (List.getElem_mem hpos)
          rcases ih _ hchild (by rw [List.length_append, List.length_singleton]; omega)
            with ⟨rest, hleaf⟩
          refine ⟨(cell (colourOf g path) c)[0] :: rest, ?_⟩
          rwa [List.append_assoc] at hleaf

/-!
## Isomorphisms act on the tree
-/

section Equivariance

variable {dump : Json -> String} {g : Graph n} {g' : Graph m}
  {f : Fin n ≃ Fin m}

theorem rootColour_map (hg : g.Stripped dump) (hg' : g'.Stripped dump)
    (h : Iso g g' f) (v : Fin n) : rootColour g' (f v) = rootColour g v := by
  unfold rootColour
  refine refine_map hg hg' h ?_ v
  intro x
  rw [h.vkey]
  apply DenseRank.rank_congr
  intro key
  simp only [List.mem_map, List.mem_finRange, true_and]
  constructor
  · rintro ⟨w, rfl⟩
    exact ⟨f.symm w, by rw [← h.vkey, Equiv.apply_symm_apply]⟩
  · rintro ⟨w, rfl⟩
    exact ⟨f w, h.vkey w⟩

theorem individualise_map {colour : Fin n -> Nat} {colour' : Fin m -> Nat}
    (hc : forall v, colour' (f v) = colour v) (v x : Fin n) :
    individualise colour' (f v) (f x) = individualise colour v x := by
  unfold individualise
  simp only [f.injective.eq_iff, hc]

theorem colourOf_map (hg : g.Stripped dump) (hg' : g'.Stripped dump)
    (h : Iso g g' f) (path : List (Fin n)) (v : Fin n) :
    colourOf g' (path.map f) (f v) = colourOf g path v := by
  induction path using List.reverseRecOn generalizing v with
  | nil => exact rootColour_map hg hg' h v
  | append_singleton path w ih =>
      rw [List.map_append, List.map_singleton, colourOf_append_singleton,
        colourOf_append_singleton]
      exact refine_map hg hg' h (individualise_map ih w) v

theorem cell_map_perm {colour : Fin n -> Nat} {colour' : Fin m -> Nat}
    (hc : forall v, colour' (f v) = colour v) (c : Nat) :
    ((cell colour c).map f).Perm (cell colour' c) := by
  rw [List.perm_ext_iff_of_nodup ((cell_nodup colour c).map f.injective)
    (cell_nodup colour' c)]
  intro w
  rw [List.mem_map, mem_cell]
  constructor
  · rintro ⟨v, hv, rfl⟩
    rw [hc]
    exact mem_cell.mp hv
  · intro hw
    refine ⟨f.symm w, ?_, Equiv.apply_symm_apply f w⟩
    rw [mem_cell, ← hc, Equiv.apply_symm_apply]
    exact hw

theorem cell_length_map {colour : Fin n -> Nat} {colour' : Fin m -> Nat}
    (hc : forall v, colour' (f v) = colour v) (c : Nat) :
    (cell colour' c).length = (cell colour c).length := by
  rw [← (cell_map_perm hc c).length_eq, List.length_map]

theorem openCell_map {colour : Fin n -> Nat} {colour' : Fin m -> Nat}
    (hc : forall v, colour' (f v) = colour v) {open_ : List (Fin n)}
    (h : openCell colour = some open_) :
    exists open', openCell colour' = some open' ∧
      forall v, v ∈ open_ -> f v ∈ open' := by
  have hnm : n = m := by
    simpa using Fintype.card_congr f
  rcases openCell_eq_some.mp h with ⟨c, hlt, rfl, hlen, hfirst⟩
  refine ⟨cell colour' c, openCell_eq_some.mpr ⟨c, by omega, rfl, ?_, ?_⟩, ?_⟩
  · rw [cell_length_map hc]
    exact hlen
  · intro c' hc'
    rw [cell_length_map hc]
    exact hfirst c' hc'
  · intro v hv
    rw [mem_cell] at hv ⊢
    rw [hc, hv]

theorem openCell_map_none {colour : Fin n -> Nat} {colour' : Fin m -> Nat}
    (hc : forall v, colour' (f v) = colour v) (h : openCell colour = none) :
    openCell colour' = none := by
  have hnm : n = m := by
    simpa using Fintype.card_congr f
  rw [openCell_eq_none] at h ⊢
  intro c hlt
  rw [cell_length_map hc]
  exact h c (by omega)

theorem IsNode.map (hg : g.Stripped dump) (hg' : g'.Stripped dump)
    (h : Iso g g' f) {path : List (Fin n)} (hnode : IsNode g path) :
    IsNode g' (path.map f) := by
  induction hnode with
  | root => exact IsNode.root
  | child _ hopen hv ih =>
      rw [List.map_append, List.map_singleton]
      rcases openCell_map (colourOf_map hg hg' h _) hopen with ⟨open', hopen', hmem⟩
      exact IsNode.child ih hopen' (hmem _ hv)

theorem IsLeaf.map (hg : g.Stripped dump) (hg' : g'.Stripped dump)
    (h : Iso g g' f) {path : List (Fin n)} (hleaf : IsLeaf g path) :
    IsLeaf g' (path.map f) :=
  ⟨hleaf.node.map hg hg' h,
    openCell_map_none (colourOf_map hg hg' h path) hleaf.closed⟩

theorem leafCert_map (hg : g.Stripped dump) (hg' : g'.Stripped dump)
    (h : Iso g g' f) {path : List (Fin n)} (hleaf : IsLeaf g path) :
    leafCert dump g' (path.map f) = leafCert dump g path := by
  unfold leafCert certificate
  rw [certificateJson_map h hleaf.discrete (colourOf_map hg hg' h path)]

/-- Isomorphic graphs have the same certificates at the leaves of their trees. -/
theorem treeCerts_eq (hg : g.Stripped dump) (hg' : g'.Stripped dump)
    (h : Iso g g' f) : treeCerts dump g' = treeCerts dump g := by
  ext cert
  constructor
  · rintro ⟨path, hleaf, rfl⟩
    exact ⟨path.map f.symm, hleaf.map hg' hg h.symm,
      leafCert_map hg' hg h.symm hleaf⟩
  · rintro ⟨path, hleaf, rfl⟩
    exact ⟨path.map f, hleaf.map hg hg' h, leafCert_map hg hg' h hleaf⟩

end Equivariance

end Identity
end Topology
end Ostia

import Ostia.Topology.Identity.Twins

/-!
# Pruning keeps the smallest certificate

A subtree is covered when the best leaf found so far is no larger than any of
its leaves.  Automorphisms carry covered subtrees to covered subtrees, which is
what all three prunings use: twins are exchanged by a transposition, orbits come
from found automorphisms that fix the path, and a leaf that meets a stored leaf
with an equal certificate gives an automorphism that carries its path onto the
stored one.
-/

namespace Ostia
namespace Topology

open Foundation
open Foundation.Multigraph (Dir Link)

namespace Identity

variable {n : Nat} {dump : Json -> String} {g : Graph n}

/-!
## Covered subtrees
-/

/-- The best leaf is no larger than any leaf below a node. -/
def CoveredBy (dump : Json -> String) (g : Graph n) (s : SearchState n)
    (path : List (Fin n)) : Prop :=
  forall p, IsLeaf g p -> path <+: p ->
    exists first best, s.stored = some (first, best) ∧
      best.cert ≤ leafCert dump g p

/-- The first and the best leaf of a state. -/
def storedLeaves (s : SearchState n) : List (Leaf n) :=
  match s.stored with
  | none => []
  | some (first, best) => [first, best]

/-- The best leaf only gets better. -/
def Improves (s s' : SearchState n) : Prop :=
  forall first best, s.stored = some (first, best) ->
    exists best', s'.stored = some (first, best') ∧ best'.cert ≤ best.cert

theorem Improves.refl (s : SearchState n) : Improves s s :=
  fun _ best h => ⟨best, h, le_refl _⟩

theorem Improves.trans {s s' s'' : SearchState n} (h : Improves s s')
    (h' : Improves s' s'') : Improves s s'' := by
  intro first best hs
  rcases h first best hs with ⟨best', hs', hle⟩
  rcases h' first best' hs' with ⟨best'', hs'', hle'⟩
  exact ⟨best'', hs'', le_trans hle' hle⟩

theorem CoveredBy.improves {s s' : SearchState n} {path : List (Fin n)}
    (h : CoveredBy dump g s path) (himp : Improves s s') :
    CoveredBy dump g s' path := by
  intro p hp hpath
  rcases h p hp hpath with ⟨first, best, hs, hle⟩
  rcases himp first best hs with ⟨best', hs', hle'⟩
  exact ⟨first, best', hs', le_trans hle' hle⟩

/-- A subtree whose image under an automorphism is covered is covered. -/
theorem CoveredBy.of_map (hg : g.Stripped dump) {s : SearchState n}
    {path : List (Fin n)} {u : Perm n} (hu : u ∈ autGroup g)
    (h : CoveredBy dump g s (path.map u)) : CoveredBy dump g s path := by
  intro p hp hpath
  rcases h (p.map u) (hp.map hg hg hu) (hpath.map u) with ⟨first, best, hs, hle⟩
  rw [leafCert_map hg hg hu hp] at hle
  exact ⟨first, best, hs, hle⟩

theorem map_append_singleton_of_fixing {path : List (Fin n)} {u : Perm n}
    (hfix : forall b, b ∈ path -> u b = b) (x : Fin n) :
    (path ++ [x]).map u = path ++ [u x] := by
  rw [List.map_append, List.map_singleton]
  congr 1
  calc
    path.map u = path.map id := List.map_congr_left hfix
    _ = path := List.map_id path

/-- A child is covered with another one that the stabiliser of the path carries it to. -/
theorem CoveredBy.of_carries (hg : g.Stripped dump) {s : SearchState n}
    {path : List (Fin n)} {x y : Fin n}
    (hcarries : PermGroup.Carries (autGroup g ⊓ StabiliserChain.fixing path) x y)
    (h : CoveredBy dump g s (path ++ [y])) : CoveredBy dump g s (path ++ [x]) := by
  rcases hcarries with ⟨u, hu, rfl⟩
  apply CoveredBy.of_map hg hu.1
  rw [map_append_singleton_of_fixing (StabiliserChain.mem_fixing.mp hu.2)]
  exact h

/-- A node is covered once all its children are. -/
theorem CoveredBy.of_children {s : SearchState n} {path open_ : List (Fin n)}
    (hopen : openCell (colourOf g path) = some open_)
    (h : forall v, v ∈ open_ -> CoveredBy dump g s (path ++ [v])) :
    CoveredBy dump g s path := by
  rintro p hp ⟨rest, rfl⟩
  cases rest with
  | nil =>
      rw [List.append_nil] at hp
      rw [hp.closed] at hopen
      cases hopen
  | cons v rest =>
      rcases hp.node.of_append_cons with ⟨_, open', hopen', hv⟩
      rw [hopen, Option.some_inj] at hopen'
      subst hopen'
      exact h v hv _ hp ⟨rest, by simp⟩

/-!
## Meeting a stored leaf
-/

/-- A stored leaf is a leaf of the full tree. -/
structure StoredOk (dump : Json -> String) (g : Graph n) (l : Leaf n) : Prop where
  leaf : IsLeaf g l.path
  position : l.position = colourOf g l.path
  cert : l.cert = leafCert dump g l.path

/-- The found automorphisms are automorphisms and the stored leaves are leaves. -/
structure StateOk (dump : Json -> String) (g : Graph n) (s : SearchState n) :
    Prop where
  group : s.group.Within (autGroup g)
  stored : forall l, l ∈ storedLeaves s -> StoredOk dump g l

/-- The path of a stored leaf parts from a path at a covered child. -/
def Apart (dump : Json -> String) (g : Graph n) (s : SearchState n)
    (path : List (Fin n)) (l : Leaf n) : Prop :=
  exists common v rest w t, v ≠ w ∧ path = common ++ v :: rest ∧
    l.path = common ++ w :: t ∧ CoveredBy dump g s (common ++ [w])

theorem gamma_eq {stored colour : Fin n -> Nat} (hs : Discrete stored)
    (hc : Discrete colour) : gamma stored colour = hc.equiv.trans hs.equiv.symm := by
  have hto : forall x, vertexAt stored colour x = hs.equiv.symm (hc.equiv x) := by
    intro x
    unfold vertexAt
    rw [dif_pos (hc.bounded x)]
    rfl
  have hback : forall x, vertexAt colour stored x = hc.equiv.symm (hs.equiv x) := by
    intro x
    unfold vertexAt
    rw [dif_pos (hs.bounded x)]
    rfl
  unfold gamma
  rw [dif_pos]
  · exact Equiv.ext hto
  · constructor
    · intro x
      rw [hto, hback, Equiv.apply_symm_apply, Equiv.symm_apply_apply]
    · intro x
      rw [hback, hto, Equiv.apply_symm_apply, Equiv.symm_apply_apply]

/-- Equal certificates give an automorphism that carries one path onto the other. -/
theorem gamma_spec (hdump : Function.Injective dump) (hg : g.Stripped dump)
    {path : List (Fin n)} (hleaf : IsLeaf g path) {l : Leaf n}
    (hl : StoredOk dump g l) (hcert : leafCert dump g path = l.cert) :
    gamma l.position (colourOf g path) ∈ autGroup g ∧
      path.map (gamma l.position (colourOf g path)) = l.path := by
  have hjson : certificateJson g (colourOf g path) =
      certificateJson g (colourOf g l.path) := by
    rw [hl.cert] at hcert
    exact hdump hcert
  rw [hl.position, gamma_eq hl.leaf.discrete hleaf.discrete]
  have hiso := iso_of_certificateJson_eq hg hleaf.discrete hl.leaf.discrete hjson
  refine ⟨hiso, ?_⟩
  apply (hleaf.map hg hg hiso).path_eq hl.leaf
  funext y
  obtain ⟨x, rfl⟩ :=
    (hleaf.discrete.equiv.trans hl.leaf.discrete.equiv.symm).surjective y
  rw [colourOf_map hg hg hiso]
  exact (hl.leaf.discrete.position_inverse (hleaf.discrete.equiv x)).symm

theorem commonPrefix_append {common rest t : List (Fin n)} {v w : Fin n}
    (hne : v ≠ w) :
    commonPrefix (common ++ v :: rest) (common ++ w :: t) = common.length := by
  induction common with
  | nil => simp [commonPrefix, hne]
  | cons x common ih => simp [commonPrefix, ih]

theorem take_length_succ (common rest : List (Fin n)) (v : Fin n) :
    (common ++ v :: rest).take (common.length + 1) = common ++ [v] := by
  rw [List.take_append, List.take_of_length_le (Nat.le_succ _)]
  simp

/-- The jump to a stored leaf with an equal certificate skips a covered subtree. -/
theorem covered_of_meet (hdump : Function.Injective dump) (hg : g.Stripped dump)
    {s : SearchState n} {path : List (Fin n)} (hleaf : IsLeaf g path) {l : Leaf n}
    (hl : StoredOk dump g l) (hcert : leafCert dump g path = l.cert)
    (hapart : Apart dump g s path l) :
    commonPrefix path l.path < path.length ∧
      CoveredBy dump g s (path.take (commonPrefix path l.path + 1)) := by
  rcases gamma_spec hdump hg hleaf hl hcert with ⟨hmem, hmap⟩
  rcases hapart with ⟨common, v, rest, w, t, hne, hpath, hlpath, hcovered⟩
  rw [hpath, hlpath, commonPrefix_append hne]
  refine ⟨by simp, ?_⟩
  rw [take_length_succ]
  apply CoveredBy.of_map hg hmem
  -- The automorphism carries the child that is left onto the stored leaf's.
  have htake := congrArg (List.take (common.length + 1)) hmap
  rw [← List.map_take, hpath, hlpath, take_length_succ, take_length_succ] at htake
  rw [hpath, htake]
  exact hcovered

/-!
## What a run guarantees
-/

/-- What exploring the subtree of a path guarantees. -/
structure RunOk (dump : Json -> String) (g : Graph n) (s : SearchState n)
    (path : List (Fin n)) (s' : SearchState n) (jump : Option Nat) : Prop where
  ok : StateOk dump g s'
  improves : Improves s s'
  stored : forall l, l ∈ storedLeaves s' -> l ∈ storedLeaves s ∨ path <+: l.path
  covered : jump = none -> CoveredBy dump g s' path
  jumps : forall d, jump = some d -> d < path.length ∧
    CoveredBy dump g s' (path.take (d + 1))

/-- An accumulated comparison with stored leaves. -/
structure MeetOk (dump : Json -> String) (g : Graph n) (s : SearchState n)
    (path : List (Fin n)) (acc : PermGroup n × Option Nat) : Prop where
  group : acc.1.Within (autGroup g)
  jumps : forall d, acc.2 = some d -> d < path.length ∧
    CoveredBy dump g s (path.take (d + 1))

theorem meetStored_ok (hdump : Function.Injective dump) (hg : g.Stripped dump)
    {s : SearchState n} {path : List (Fin n)} (hleaf : IsLeaf g path)
    {acc : PermGroup n × Option Nat} (hacc : MeetOk dump g s path acc) {l : Leaf n}
    (hl : StoredOk dump g l) (hapart : Apart dump g s path l) :
    MeetOk dump g s path
      (meetStored (leafCert dump g path) (colourOf g path) path acc l) := by
  unfold meetStored
  by_cases hcert : leafCert dump g path = l.cert
  · rw [if_neg (not_not.mpr hcert)]
    have hmeet := covered_of_meet hdump hg hleaf hl hcert hapart
    refine ⟨PermGroup.add_within hacc.group (gamma_spec hdump hg hleaf hl hcert).1, ?_⟩
    intro d hd
    simp only [Option.some.injEq] at hd
    rw [← hd]
    unfold minJump
    cases hprev : acc.2 with
    | none => exact hmeet
    | some e =>
        simp only
        rcases le_total e (commonPrefix path l.path) with hle | hle
        · rw [min_eq_left hle]
          exact hacc.jumps e hprev
        · rw [min_eq_right hle]
          exact hmeet
  · rw [if_pos hcert]
    exact hacc

/-- Recording a leaf. -/
theorem leaf_ok (hdump : Function.Injective dump) (hg : g.Stripped dump)
    {s : SearchState n} (hs : StateOk dump g s) {path : List (Fin n)}
    (hleaf : IsLeaf g path)
    (hapart : forall l, l ∈ storedLeaves s -> Apart dump g s path l)
    {s' : SearchState n} {jump : Option Nat}
    (h : leaf dump g path (colourOf g path) s = .ok (s', jump)) :
    RunOk dump g s path s' jump := by
  have hself : StoredOk dump g ⟨certificate dump g (colourOf g path),
      colourOf g path, path⟩ := ⟨hleaf, rfl, rfl⟩
  unfold leaf at h
  split_ifs at h
  cases hstored : s.stored with
  | none =>
      rw [hstored] at h
      simp only [Except.ok.injEq, Prod.mk.injEq] at h
      rcases h with ⟨rfl, rfl⟩
      refine ⟨⟨hs.group, ?_⟩, ?_, ?_, ?_, ?_⟩
      · intro l hl
        simp only [storedLeaves, List.mem_cons, List.not_mem_nil, or_false,
          or_self] at hl
        rw [hl]
        exact hself
      · intro first best hsome
        rw [hstored] at hsome
        cases hsome
      · intro l hl
        simp only [storedLeaves, List.mem_cons, List.not_mem_nil, or_false,
          or_self] at hl
        rw [hl]
        exact Or.inr (List.prefix_refl path)
      · rintro _ p hp ⟨rest, rfl⟩
        cases rest with
        | nil => exact ⟨_, _, rfl, by rw [List.append_nil]; exact le_refl _⟩
        | cons v rest => exact (hleaf.not_extends hp.node).elim
      · intro d hd
        cases hd
  | some pair =>
      rcases pair with ⟨first, best⟩
      rw [hstored] at h
      simp only [Except.ok.injEq, Prod.mk.injEq] at h
      have hmem : forall l, l = first ∨ l = best -> l ∈ storedLeaves s := by
        intro l hl
        simp only [storedLeaves, hstored, List.mem_cons, List.not_mem_nil, or_false]
        exact hl
      have hmeet : MeetOk dump g s path
          ([first, best].foldl
            (meetStored (certificate dump g (colourOf g path)) (colourOf g path) path)
            (s.group, none)) := by
        have hfirst := hmem first (Or.inl rfl)
        have hbest := hmem best (Or.inr rfl)
        apply meetStored_ok hdump hg hleaf _ (hs.stored best hbest)
          (hapart best hbest)
        apply meetStored_ok hdump hg hleaf _ (hs.stored first hfirst)
          (hapart first hfirst)
        exact ⟨hs.group, fun d hd => by cases hd⟩
      rcases h with ⟨hs', hjump⟩
      -- The new best leaf is the old one or this one, whichever is smaller.
      have hbetter : Improves s s' := by
        intro a b hab
        rw [hstored, Option.some_inj, Prod.mk.injEq] at hab
        rcases hab with ⟨rfl, rfl⟩
        rw [← hs']
        refine ⟨_, rfl, ?_⟩
        split_ifs with hlt
        · exact le_of_lt hlt
        · exact le_refl _
      have hnew : forall l, l ∈ storedLeaves s' -> l ∈ storedLeaves s ∨
          l = ⟨certificate dump g (colourOf g path), colourOf g path, path⟩ := by
        intro l hl
        rw [← hs'] at hl
        simp only [storedLeaves, List.mem_cons, List.not_mem_nil, or_false] at hl
        split_ifs at hl
        · rcases hl with hl | hl
          · exact Or.inl (hmem l (Or.inl hl))
          · exact Or.inr hl
        · exact Or.inl (hmem l hl)
      refine ⟨⟨?_, ?_⟩, hbetter, ?_, ?_, ?_⟩
      · rw [← hs']
        exact hmeet.group
      · intro l hl
        rcases hnew l hl with hl | rfl
        · exact hs.stored l hl
        · exact hself
      · intro l hl
        rcases hnew l hl with hl | rfl
        · exact Or.inl hl
        · exact Or.inr (List.prefix_refl path)
      · rintro _ p hp ⟨rest, rfl⟩
        cases rest with
        | nil =>
            rw [← hs', List.append_nil]
            refine ⟨_, _, rfl, ?_⟩
            split_ifs with hlt
            · exact le_refl _
            · exact le_of_not_gt hlt
        | cons v rest => exact (hleaf.not_extends hp.node).elim
      · intro d hd
        rcases hmeet.jumps d (hjump.trans hd) with ⟨hlt, hcov⟩
        exact ⟨hlt, hcov.improves hbetter⟩

/-!
## The loop over the children
-/

theorem number_member (k : Nat) (orbit : List (Fin n)) (before : Fin n -> Option Nat)
    (x : Fin n) :
    orbit.foldl (fun o y => Function.update o y (some k)) before x =
      if x ∈ orbit then some k else before x := by
  induction orbit generalizing before with
  | nil => simp
  | cons y rest ih =>
      rw [List.foldl_cons, ih, Function.update_apply]
      by_cases hx : x ∈ rest
      · simp [hx]
      · by_cases hxy : x = y
        · simp [hxy]
        · simp [hx, hxy]

/-- A vertex of some orbit gets the number of an orbit that holds it. -/
theorem number_spec {orbits : List (List (Fin n))} (before : Fin n -> Option Nat)
    {x : Fin n} (hx : exists o, o ∈ orbits ∧ x ∈ o) :
    exists k o, Children.number orbits before x = some k ∧ orbits[k]? = some o ∧
      x ∈ o := by
  have hfold : forall (ps : List (List (Fin n) × Nat)) (before : Fin n -> Option Nat),
      (ps.foldl (fun orbit p =>
        p.1.foldl (fun orbit x => Function.update orbit x (some p.2)) orbit) before x =
          before x ∧ forall p, p ∈ ps -> x ∉ p.1) ∨
      exists p, p ∈ ps ∧ x ∈ p.1 ∧
        ps.foldl (fun orbit p =>
          p.1.foldl (fun orbit x => Function.update orbit x (some p.2)) orbit) before x =
            some p.2 := by
    intro ps
    induction ps with
    | nil =>
        intro before
        exact Or.inl ⟨rfl, fun p hp => by cases hp⟩
    | cons q rest ih =>
        intro before
        rw [List.foldl_cons]
        rcases ih (q.1.foldl (fun orbit x => Function.update orbit x (some q.2)) before)
          with ⟨heq, hnot⟩ | ⟨p, hp, hxp, heq⟩
        · rw [heq, number_member]
          by_cases hxq : x ∈ q.1
          · exact Or.inr ⟨q, List.mem_cons_self, hxq, if_pos hxq⟩
          · refine Or.inl ⟨if_neg hxq, ?_⟩
            intro p hp
            rcases List.mem_cons.mp hp with rfl | hp
            · exact hxq
            · exact hnot p hp
        · exact Or.inr ⟨p, List.mem_cons_of_mem q hp, hxp, heq⟩
  rcases hx with ⟨o, ho, hxo⟩
  rcases List.mem_iff_getElem?.mp ho with ⟨i, hi⟩
  rcases hfold orbits.zipIdx before with ⟨_, hnot⟩ | ⟨p, hp, hxp, heq⟩
  · exact absurd hxo (hnot (o, i) (List.mem_zipIdx_iff_getElem?.mpr hi))
  · exact ⟨p.2, p.1, heq, List.mem_zipIdx_iff_getElem?.mp hp, hxp⟩

/-- Vertices of the cell with equal orbit numbers are carried to each other. -/
def OrbitsOk (g : Graph n) (path open_ : List (Fin n)) (c : Children n) : Prop :=
  0 < c.orbitGenerators -> forall x y, x ∈ open_ -> y ∈ open_ ->
    c.orbit x = c.orbit y ->
    PermGroup.Carries (autGroup g ⊓ StabiliserChain.fixing path) x y

theorem refresh_ok {group : PermGroup n} (hgroup : group.Within (autGroup g))
    {path open_ : List (Fin n)} (hpath : path.Nodup) {c : Children n}
    (hc : OrbitsOk g path open_ c) :
    OrbitsOk g path open_ (c.refresh group path open_) := by
  unfold Children.refresh
  split_ifs
  · intro _ x y hx hy hxy
    rcases number_spec c.orbit (group.mem_orbitsFixing path hx) with
      ⟨k, o, hnum, ho, hxo⟩
    rcases number_spec c.orbit (group.mem_orbitsFixing path hy) with
      ⟨k', o', hnum', ho', hyo⟩
    simp only [hnum, hnum', Option.some.injEq] at hxy
    subst hxy
    rw [ho, Option.some_inj] at ho'
    subst ho'
    exact PermGroup.orbitsFixing_carries hgroup hpath (List.mem_of_getElem? ho) hxo hyo
  · exact hc

theorem refresh_done (group : PermGroup n) (path open_ : List (Fin n))
    (c : Children n) : (c.refresh group path open_).done = c.done := by
  unfold Children.refresh
  split_ifs <;> rfl

/-- The invariant of the loop; the children processed so far are covered. -/
structure LoopOk (dump : Json -> String) (g : Graph n) (start : SearchState n)
    (path open_ processed : List (Fin n)) (c : Children n) (s : SearchState n) :
    Prop where
  ok : StateOk dump g s
  improves : Improves start s
  stored : forall l, l ∈ storedLeaves s -> l ∈ storedLeaves start ∨
    exists w t, l.path = path ++ w :: t ∧ w ∈ processed
  children : forall v, v ∈ processed -> CoveredBy dump g s (path ++ [v])
  done : forall d, d ∈ c.done -> d ∈ processed
  orbits : OrbitsOk g path open_ c

/-- Before the loop no child is processed. -/
theorem LoopOk.begin {s : SearchState n} (hs : StateOk dump g s) (path open_ : List (Fin n)) :
    LoopOk dump g s path open_ [] Children.start s := by
  refine ⟨hs, Improves.refl s, fun l hl => Or.inl hl, ?_, ?_, ?_⟩
  · intro v hv
    cases hv
  · intro d hd
    cases hd
  · intro hpos
    exact absurd hpos (Nat.lt_irrefl 0)

section Loop

variable {start : SearchState n} {path open_ processed : List (Fin n)}
  {c : Children n} {s : SearchState n} {v : Fin n}

/-- A child in the orbit of a finished child is covered with it. -/
theorem LoopOk.skip (hg : g.Stripped dump)
    (h : LoopOk dump g start path open_ processed c s)
    (hprocessed : forall w, w ∈ processed -> w ∈ open_) (hv : v ∈ open_)
    (hcovered : c.covered v = true) :
    LoopOk dump g start path open_ (processed ++ [v]) c s := by
  unfold Children.covered at hcovered
  rw [Bool.and_eq_true, decide_eq_true_eq, List.any_eq_true] at hcovered
  rcases hcovered with ⟨hpos, d, hd, horbit⟩
  have hdopen := hprocessed d (h.done d hd)
  have hcarries := h.orbits hpos v d hv hdopen (eq_of_beq horbit).symm
  refine ⟨h.ok, h.improves, ?_, ?_, ?_, h.orbits⟩
  · intro l hl
    rcases h.stored l hl with hl | ⟨w, t, hpath, hw⟩
    · exact Or.inl hl
    · exact Or.inr ⟨w, t, hpath, List.mem_append_left _ hw⟩
  · intro w hw
    rw [List.mem_append, List.mem_singleton] at hw
    rcases hw with hw | rfl
    · exact h.children w hw
    · exact CoveredBy.of_carries hg hcarries (h.children d (h.done d hd))
  · intro d hd
    exact List.mem_append_left _ (h.done d hd)

/-- Before a child is entered, the stored leaves part from its path at covered children. -/
theorem LoopOk.apart (h : LoopOk dump g start path open_ processed c s)
    (hstart : forall l, l ∈ storedLeaves start -> Apart dump g start path l)
    (hv : v ∉ processed) {l : Leaf n} (hl : l ∈ storedLeaves s) :
    Apart dump g s (path ++ [v]) l := by
  rcases h.stored l hl with hl | ⟨w, t, hpath, hw⟩
  · rcases hstart l hl with ⟨common, x, rest, w, t, hne, hp, hlp, hcov⟩
    refine ⟨common, x, rest ++ [v], w, t, hne, ?_, hlp, hcov.improves h.improves⟩
    rw [hp, List.append_assoc]
    rfl
  · refine ⟨path, v, [], w, t, ?_, rfl, hpath, h.children w hw⟩
    rintro rfl
    exact hv hw

/-- A child that was explored to its end is covered. -/
theorem LoopOk.explored (h : LoopOk dump g start path open_ processed c s)
    {s' : SearchState n} {jump : Option Nat}
    (hrun : RunOk dump g s (path ++ [v]) s' jump)
    (hjump : forall d, jump = some d -> ¬ d < path.length) :
    LoopOk dump g start path open_ (processed ++ [v]) (c.finish v) s' := by
  have hcovered : CoveredBy dump g s' (path ++ [v]) := by
    cases hj : jump with
    | none => exact hrun.covered hj
    | some d =>
        rcases hrun.jumps d hj with ⟨hlt, hcov⟩
        rw [List.length_append, List.length_singleton] at hlt
        have hd : d = path.length := by
          have := hjump d hj
          omega
        rw [hd, take_length_succ] at hcov
        exact hcov
  refine ⟨hrun.ok, h.improves.trans hrun.improves, ?_, ?_, ?_, h.orbits⟩
  · intro l hl
    rcases hrun.stored l hl with hl | ⟨t, ht⟩
    · rcases h.stored l hl with hl | ⟨w, t, hpath, hw⟩
      · exact Or.inl hl
      · exact Or.inr ⟨w, t, hpath, List.mem_append_left _ hw⟩
    · exact Or.inr ⟨v, t, by rw [← ht]; simp, by simp⟩
  · intro w hw
    rw [List.mem_append, List.mem_singleton] at hw
    rcases hw with hw | rfl
    · exact (h.children w hw).improves hrun.improves
    · exact hcovered
  · intro d hd
    unfold Children.finish at hd
    rw [List.mem_append] at hd ⊢
    exact hd.imp_left (h.done d)

/-- A jump past the node leaves the loop with what the child guaranteed. -/
theorem LoopOk.jumped (h : LoopOk dump g start path open_ processed c s)
    {s' : SearchState n} {d : Nat} (hrun : RunOk dump g s (path ++ [v]) s' (some d))
    (hd : d < path.length) : RunOk dump g start path s' (some d) := by
  refine ⟨hrun.ok, h.improves.trans hrun.improves, ?_, (fun hj => by cases hj), ?_⟩
  · intro l hl
    rcases hrun.stored l hl with hl | hl
    · rcases h.stored l hl with hl | ⟨w, t, hpath, _⟩
      · exact Or.inl hl
      · exact Or.inr ⟨w :: t, hpath.symm⟩
    · exact Or.inr ((List.prefix_append path [v]).trans hl)
  · intro e he
    rw [Option.some_inj] at he
    subst he
    refine ⟨hd, ?_⟩
    have hcov := (hrun.jumps d rfl).2
    rwa [List.take_append_of_le_length (by omega)] at hcov

end Loop

/-- What the exploration of the children of a node must guarantee. -/
def ExploreOk (dump : Json -> String) (g : Graph n) (explore : Explore n)
    (path : List (Fin n)) : Prop :=
  forall s s' jump, StateOk dump g s ->
    (forall l, l ∈ storedLeaves s -> Apart dump g s path l) ->
    explore path (colourOf g path) s = .ok (s', jump) ->
    RunOk dump g s path s' jump

theorem runChildren_ok (hg : g.Stripped dump) {explore : Explore n}
    {path open_ : List (Fin n)} (hnode : IsNode g path)
    (hexplore : forall v, v ∈ open_ -> ExploreOk dump g explore (path ++ [v]))
    {start : SearchState n}
    (hstart : forall l, l ∈ storedLeaves start -> Apart dump g start path l) :
    forall (rest processed : List (Fin n)) (c : Children n)
      (s s' : SearchState n) (jump : Option Nat),
      (processed ++ rest).Nodup ->
      (forall v, v ∈ processed ++ rest -> v ∈ open_) ->
      LoopOk dump g start path open_ processed c s ->
      runChildren g explore path (colourOf g path) open_ rest c s = .ok (s', jump) ->
      (RunOk dump g start path s' jump ∧ jump ≠ none) ∨
        (jump = none ∧ exists c', LoopOk dump g start path open_ (processed ++ rest) c' s') := by
  intro rest
  induction rest with
  | nil =>
      intro processed c s s' jump _ _ hloop h
      rw [runChildren, Except.ok.injEq, Prod.mk.injEq] at h
      rcases h with ⟨rfl, rfl⟩
      rw [List.append_nil]
      exact Or.inr ⟨rfl, c, hloop⟩
  | cons v rest ih =>
      intro processed c s s' jump hnodup hmem hloop h
      have hv : v ∈ open_ := hmem v (by simp)
      have hnew : v ∉ processed := by
        rw [List.nodup_append] at hnodup
        intro hv'
        exact hnodup.2.2 v hv' v List.mem_cons_self rfl
      have hshift : processed ++ v :: rest = (processed ++ [v]) ++ rest := by simp
      have hrefresh : LoopOk dump g start path open_ processed
          (c.refresh s.group path open_) s :=
        { hloop with
          done := by rw [refresh_done]; exact hloop.done
          orbits := refresh_ok hloop.ok.group hnode.nodup hloop.orbits }
      rw [hshift] at hnodup hmem ⊢
      rw [runChildren] at h
      split_ifs at h with hcov
      · refine ih _ _ s s' jump hnodup hmem ?_ h
        exact hrefresh.skip hg (fun w hw => hmem w (by simp [hw])) hv hcov
      · rw [← colourOf_append_singleton] at h
        cases hrun : explore (path ++ [v]) (colourOf g (path ++ [v])) s with
        | error e =>
            rw [hrun] at h
            cases h
        | ok result =>
            rcases result with ⟨s1, j⟩
            have hok : RunOk dump g s (path ++ [v]) s1 j :=
              hexplore v hv s s1 j hloop.ok
                (fun l hl => hrefresh.apart hstart hnew hl) hrun
            rw [hrun] at h
            cases j with
            | none =>
                refine ih _ _ s1 s' jump hnodup hmem ?_ h
                exact hrefresh.explored hok (fun d hd => by cases hd)
            | some d =>
                simp only at h
                split_ifs at h with hd
                · rw [Except.ok.injEq, Prod.mk.injEq] at h
                  rcases h with ⟨rfl, rfl⟩
                  exact Or.inl ⟨hrefresh.jumped hok hd, by simp⟩
                · refine ih _ _ s1 s' jump hnodup hmem ?_ h
                  refine hrefresh.explored hok ?_
                  intro e he
                  rw [Option.some_inj] at he
                  rw [← he]
                  exact hd

/-!
## The whole search
-/

/-- A transposition of two vertices of the open cell fixes the path. -/
theorem swap_carries (hdump : Function.Injective dump) (hg : g.Stripped dump)
    {path open_ : List (Fin n)} (hopen : openCell (colourOf g path) = some open_)
    {u v : Fin n} (hu : u ∈ open_) (hv : v ∈ open_) (htwins : twins g u v = true) :
    PermGroup.Carries (autGroup g ⊓ StabiliserChain.fixing path) v u := by
  have hkey := vkey_eq_of_colourOf_eq (colour_eq_of_mem_openCell hopen hu hv)
  have hfix : Equiv.swap u v ∈ StabiliserChain.fixing path := by
    rw [StabiliserChain.mem_fixing]
    intro x hx
    apply Equiv.swap_apply_of_ne_of_ne
    · rintro rfl
      exact notMem_path_of_mem_openCell hopen hu hx
    · rintro rfl
      exact notMem_path_of_mem_openCell hopen hv hx
  exact ⟨Equiv.swap u v, ⟨swap_mem_autGroup hdump hg htwins hkey, hfix⟩,
    Equiv.swap_apply_right u v⟩

theorem LoopOk.finished (hdump : Function.Injective dump) (hg : g.Stripped dump)
    {start s : SearchState n} {path open_ : List (Fin n)} {c : Children n}
    (hopen : openCell (colourOf g path) = some open_)
    (h : LoopOk dump g start path open_ (representatives g open_) c s) :
    RunOk dump g start path s none := by
  rcases representatives_spec g open_ with ⟨_, hsub, htwins⟩
  refine ⟨h.ok, h.improves, ?_, ?_, fun d hd => by cases hd⟩
  · intro l hl
    rcases h.stored l hl with hl | ⟨w, t, hpath, _⟩
    · exact Or.inl hl
    · exact Or.inr ⟨w :: t, hpath.symm⟩
  · intro _
    apply CoveredBy.of_children hopen
    intro v hv
    rcases htwins v hv with ⟨r, hr, htwin⟩
    exact CoveredBy.of_carries hg
      (swap_carries hdump hg hopen (hsub r hr) hv htwin) (h.children r hr)

/-- Every subtree is explored soundly; the fuel exceeds the vertices not yet on the path. -/
theorem run_ok (hdump : Function.Injective dump) (hg : g.Stripped dump) :
    forall fuel (path : List (Fin n)), IsNode g path -> n < path.length + fuel ->
      ExploreOk dump g (run dump g fuel) path := by
  intro fuel
  induction fuel with
  | zero =>
      intro path hnode hfuel
      have := hnode.length_le
      omega
  | succ fuel ih =>
      intro path hnode hfuel s s' jump hs hapart h
      rw [run] at h
      cases hopen : openCell (colourOf g path) with
      | none =>
          rw [hopen] at h
          exact leaf_ok hdump hg hs ⟨hnode, hopen⟩ hapart h
      | some open_ =>
          rw [hopen] at h
          rcases representatives_spec g open_ with ⟨hnodup, hsub, _⟩
          have hexplore : forall v, v ∈ open_ ->
              ExploreOk dump g (run dump g fuel) (path ++ [v]) := by
            intro v hv
            apply ih _ (IsNode.child hnode hopen hv)
            rw [List.length_append, List.length_singleton]
            omega
          have hloop : LoopOk dump g s path open_ [] Children.start s :=
            LoopOk.begin hs path open_
          rcases runChildren_ok hg hnode hexplore hapart _ [] _ s s' jump
            hnodup hsub hloop h with ⟨hrun, _⟩ | ⟨rfl, c, hend⟩
          · exact hrun
          · exact hend.finished hdump hg hopen

theorem runChildren_error {explore : Explore n} {e : TopologyError}
    (hexplore : forall path colour s, explore path colour s = .error e -> e = leafCap)
    {path open_ : List (Fin n)} {colour : Fin n -> Nat} :
    forall (rest : List (Fin n)) (c : Children n) (s : SearchState n),
      runChildren g explore path colour open_ rest c s = .error e -> e = leafCap := by
  intro rest
  induction rest with
  | nil =>
      intro c s h
      rw [runChildren] at h
      cases h
  | cons v rest ih =>
      intro c s h
      rw [runChildren] at h
      split_ifs at h
      · exact ih _ _ h
      · split at h
        · rename_i herr
          rw [Except.error.injEq] at h
          rw [h] at herr
          exact hexplore _ _ _ herr
        · split_ifs at h
          exact ih _ _ h
        · exact ih _ _ h

/-- The search fails only at the cap on leaves. -/
theorem run_error {e : TopologyError} :
    forall fuel (path : List (Fin n)) (colour : Fin n -> Nat) (s : SearchState n),
      run dump g fuel path colour s = .error e -> e = leafCap := by
  intro fuel
  induction fuel with
  | zero =>
      intro path colour s h
      cases h
  | succ fuel ih =>
      intro path colour s h
      rw [run] at h
      split at h
      · unfold leaf at h
        split_ifs at h
        · rw [Except.error.injEq] at h
          exact h.symm
        · dsimp only at h
          split at h <;> cases h
      · exact runChildren_error ih _ _ _ h

theorem search_ok (hdump : Function.Injective dump) (hg : g.Stripped dump) {s : SearchState n}
    {jump : Option Nat} (h : search dump g = .ok (s, jump)) :
    RunOk dump g ⟨⟨[]⟩, 0, none⟩ [] s jump := by
  have hstart : StateOk dump g (⟨⟨[]⟩, 0, none⟩ : SearchState n) :=
    ⟨fun u hu => absurd hu List.not_mem_nil,
      fun l hl => absurd hl List.not_mem_nil⟩
  exact run_ok hdump hg (n + 1) [] IsNode.root (by simp) _ s jump hstart
    (fun l hl => by cases hl) h

/-- A search that stays below the cap on leaves finds the smallest certificate of the tree. -/
theorem search_isLeast (hdump : Function.Injective dump) (hg : g.Stripped dump)
    (hcap : search dump g ≠ .error leafCap) :
    exists s jump first best, search dump g = .ok (s, jump) ∧
      s.stored = some (first, best) ∧ IsLeast (treeCerts dump g) best.cert := by
  cases hsearch : search dump g with
  | error e =>
      rw [run_error _ _ _ _ hsearch] at hsearch
      exact absurd hsearch hcap
  | ok result =>
      rcases result with ⟨s, jump⟩
      have hrun := search_ok hdump hg hsearch
      have hjump : jump = none := by
        cases hj : jump with
        | none => rfl
        | some d => exact absurd (hrun.jumps d hj).1 (Nat.not_lt_zero d)
      have hcovered := hrun.covered hjump
      rcases exists_leaf (g := g) (n + 1) [] IsNode.root (by simp) with ⟨p, hp⟩
      rcases hcovered p hp List.nil_prefix with ⟨first, best, hstored, _⟩
      refine ⟨s, jump, first, best, rfl, hstored, ?_, ?_⟩
      · have hbest := hrun.ok.stored best (by simp [storedLeaves, hstored])
        exact ⟨best.path, hbest.leaf, hbest.cert.symm⟩
      · rintro cert ⟨q, hq, rfl⟩
        rcases hcovered q hq List.nil_prefix with ⟨first', best', hstored', hle⟩
        rw [hstored, Option.some_inj, Prod.mk.injEq] at hstored'
        rw [hstored'.2]
        exact hle

end Identity
end Topology
end Ostia

import Ostia.Foundation.Transversal
import Ostia.Topology.Identity.StabiliserChain

/-!
# Strong generators

A level is closed when the generators of the next level generate the stabiliser
of its base point.  A pass over a level that leaves no residue closes it: its
Schreier generators sift to the identity, so they are products of deeper
representatives.  A residue moves the base point it stopped at, so the levels
deeper than that stay closed.

Once every level is closed, the strong generators that fix the first k base
points generate their pointwise stabiliser.
-/

namespace Ostia
namespace Topology

open Foundation

namespace Identity

variable {n : Nat}

/-!
## Representatives are a transversal
-/

theorem growLevel_reps {b : Fin n} {gens : List (Perm n)} {j : Nat} {v : Perm n} :
    forall fuel k (level : Level n), level.reps[j]? = some v ->
      (growLevel b gens fuel k level).reps[j]? = some v := by
  intro fuel
  induction fuel with
  | zero =>
      intro k level hv
      exact hv
  | succ fuel ih =>
      intro k level hv
      rw [growLevel]
      cases level.reps[k]? with
      | none => exact hv
      | some u => exact ih (k + 1) _ (foldl_extend_reps b u gens hv)

theorem one_mem_reps (b : Fin n) (gens : List (Perm n)) :
    1 ∈ (buildLevel b gens).reps :=
  List.mem_of_getElem? (i := 0) (growLevel_reps n 0 _ rfl)

theorem reps_transversal (b : Fin n) (gens : List (Perm n)) :
    Transversal { s | s ∈ gens } b { u | u ∈ (buildLevel b gens).reps } := by
  have hgens : forall s, s ∈ gens -> s ∈ Subgroup.closure { s | s ∈ gens } :=
    fun s hs => Subgroup.subset_closure hs
  rcases buildLevel_spec (b := b) hgens with ⟨hok, _, _, _⟩
  constructor
  · exact one_mem_reps b gens
  · exact hok.mem
  · intro g hg
    have hsome : ((buildLevel b gens).index (g b)).isSome :=
      index_isSome_iff.mpr ⟨g, hg, rfl⟩
    rcases Option.isSome_iff_exists.mp hsome with ⟨k, hk⟩
    rcases hok.point _ k hk with ⟨u, hu, hub⟩
    exact ⟨u, List.mem_of_getElem? hu, hub⟩
  · intro u u' hu hu' heq
    rcases List.mem_iff_getElem?.mp hu with ⟨k, hk⟩
    rcases List.mem_iff_getElem?.mp hu' with ⟨k', hk'⟩
    have hindex := hok.index k u hk
    have hindex' := hok.index k' u' hk'
    have hpoint : u b = u' b := heq
    rw [hpoint, hindex', Option.some_inj] at hindex
    rw [hindex, hk, Option.some_inj] at hk'
    exact hk'

theorem inv_getD_eq {b : Fin n} {gens : List (Perm n)} {u : Perm n}
    (hu : u ∈ (buildLevel b gens).reps) {k : Nat}
    (hk : (buildLevel b gens).index (u b) = some k) :
    (buildLevel b gens).inv.getD k (Equiv.refl _) = u⁻¹ := by
  rcases buildLevel_spec (b := b) (H := ⊤) (fun s (_ : s ∈ gens) => Subgroup.mem_top s)
    with ⟨hok, hinv, _, _⟩
  rcases List.mem_iff_getElem?.mp hu with ⟨j, hj⟩
  rw [hok.index j u hj, Option.some_inj] at hk
  rw [hinv, List.getD_eq_getElem?_getD, List.getElem?_map, ← hk, hj]
  rfl

namespace StabiliserChain

/-!
## Closed levels
-/

/-- The group of the strong generators that fix the first k base points. -/
def groupAt (c : StabiliserChain n) (k : Nat) : Subgroup (Perm n) :=
  Subgroup.closure { s | s ∈ c.stabiliserGenerators k }

/-- From level i on, the next level generates the stabiliser of the base point. -/
def Closed (c : StabiliserChain n) (i : Nat) : Prop :=
  forall l b g, i ≤ l -> c.base[l]? = some b -> g ∈ c.groupAt l -> g b = b ->
    g ∈ c.groupAt (l + 1)

theorem groupAt_succ_le (c : StabiliserChain n) (l : Nat) :
    c.groupAt (l + 1) ≤ c.groupAt l := by
  apply Subgroup.closure_mono
  intro s hs
  rw [Set.mem_ofPred_eq, mem_stabiliserGenerators] at hs ⊢
  exact ⟨hs.1, fun b hb => hs.2 b (List.take_subset_take_left _ (Nat.le_succ l) hb)⟩

/-- What sifts to the identity is generated by the level it started from. -/
theorem mem_groupAt_of_sift {c : StabiliserChain n} {i : Nat} (hok : c.Ok i) :
    forall (rest : List (Fin n × Level n)) l (h : Perm n),
      rest = (c.base.zip c.levels).drop l -> i ≤ l ->
      (sift rest l h).2 = 1 -> (sift rest l h).1 = c.base.length -> h ∈ c.groupAt l := by
  intro rest
  induction rest with
  | nil =>
      intro l h _ _ hone _
      have hh : h = 1 := hone
      rw [hh]
      exact Subgroup.one_mem _
  | cons p rest ih =>
      intro l h hrest hil hone hend
      obtain ⟨b, level⟩ := p
      rcases hok.drop_cons hil hrest with ⟨hb, hlevel, hrest'⟩
      subst hlevel
      rw [sift] at hone hend
      cases hindex : (buildLevel b (c.stabiliserGenerators l)).index (h b) with
      | none =>
          rw [hindex] at hone
          have hh : h = 1 := hone
          rw [hh]
          exact Subgroup.one_mem _
      | some k =>
          rw [hindex] at hone hend
          have hgens : forall s, s ∈ c.stabiliserGenerators l -> s ∈ c.groupAt l :=
            fun s hs => Subgroup.subset_closure hs
          rcases inv_getD_mem hgens hindex with ⟨hinv, _⟩
          have hnext := c.groupAt_succ_le l
            (ih (l + 1) _ hrest' (Nat.le_succ_of_le hil) hone hend)
          exact (Subgroup.mul_mem_cancel_left _ hinv).mp hnext

/-- A Schreier generator, by the representative of the image. -/
theorem schreier_eq {b : Fin n} {gens : List (Perm n)} {u s v : Perm n}
    (hv : v ∈ (buildLevel b gens).reps) (hpoint : s (u b) = v b) :
    schreier (buildLevel b gens) b u s = v⁻¹ * s * u := by
  rcases buildLevel_spec (b := b) (H := ⊤) (fun s (_ : s ∈ gens) => Subgroup.mem_top s)
    with ⟨hok, _, _, _⟩
  rcases List.mem_iff_getElem?.mp hv with ⟨k, hk⟩
  have hindex := hok.index k v hk
  unfold schreier
  simp only [hpoint, hindex, Option.getD_some, inv_getD_eq hv hindex]
  rfl

/-- A level whose Schreier generators all sift to the identity is closed. -/
theorem closed_of_no_residue {c : StabiliserChain n} {i : Nat} {b : Fin n}
    (hok : c.Ok i) (hb : c.base[i]? = some b) (hclosed : c.Closed (i + 1))
    (hnone : forall u s, u ∈ (buildLevel b (c.stabiliserGenerators i)).reps ->
      s ∈ c.stabiliserGenerators i ->
      c.residue i (buildLevel b (c.stabiliserGenerators i)) b u s = none) :
    c.Closed i := by
  intro l b' g hil hb' hg hfix
  rcases Nat.lt_or_eq_of_le hil with hlt | heq
  · exact hclosed l b' g hlt hb' hg hfix
  · subst heq
    rw [hb, Option.some_inj] at hb'
    subst hb'
    refine (reps_transversal b (c.stabiliserGenerators i)).stabilizer_le ?_ hg hfix
    intro u s v hu hs hv hpoint
    have hres := hnone u s hu hs
    unfold residue at hres
    rw [schreier_eq hv hpoint] at hres
    simp only [ite_eq_left_iff, reduceCtorEq, imp_false, not_not] at hres
    exact mem_groupAt_of_sift hok _ (i + 1) _ rfl (Nat.le_succ i)
      (isIdentity_iff.mp hres.2) hres.1

/-- A residue leaves the deeper levels closed. -/
theorem addResidue_closed {c : StabiliserChain n} {i j : Nat} {h : Perm n}
    (hclosed : c.Closed i) (hij : i ≤ j) (hres : c.Residue j h) :
    (c.addResidue j h).Closed (j + 1) := by
  intro l b g hl hb hg hfix
  have hlt := (List.getElem?_eq_some_iff.mp hb).1
  rcases addResidue_base hres with ⟨hj, hbase, _⟩ | ⟨hj, x, _, hbase, _⟩
  · rw [hbase] at hb hlt
    unfold groupAt at hg ⊢
    rw [stabiliserGenerators_addResidue hres hl (Nat.le_of_lt hlt)] at hg
    rw [stabiliserGenerators_addResidue hres (Nat.lt_succ_of_lt hl) hlt]
    exact hclosed l b g (Nat.le_trans hij (Nat.le_of_lt hl)) hb hg hfix
  · -- The new base point is the last one.
    rw [hbase, List.length_append, List.length_singleton, ← hj] at hlt
    exact absurd hl (Nat.not_le.mpr hlt)

/-- What a pass over a level does to the closed levels and the strong generators. -/
theorem closeLevel_closed {gens : List (Perm n)} (c : StabiliserChain n) (i : Nat)
    (hok : c.Ok (i + 1))
    (h : c.Closed (i + 1) ∧ forall s, s ∈ gens -> s ∈ c.strong) :
    match c.closeLevel i with
    | (c', none) => c'.Closed i ∧ forall s, s ∈ gens -> s ∈ c'.strong
    | (c', some j) => c'.Closed (j + 1) ∧ forall s, s ∈ gens -> s ∈ c'.strong := by
  have hlt : i < c.base.length := hok.bound
  have hb : c.base[i]? = some c.base[i] := List.getElem?_eq_getElem hlt
  rcases closeLevel_inv (H := ⊤) hok hb (fun _ _ => Subgroup.mem_top _) with
    ⟨heq, hnone⟩ | ⟨j, r, heq, hij, _, hres⟩
  · rw [heq]
    exact ⟨closed_of_no_residue (setLevel_ok hok hb) hb h.1 hnone, h.2⟩
  · rw [heq]
    refine ⟨addResidue_closed (i := i + 1) h.1 hij hres, ?_⟩
    intro s hs
    rw [addResidue_strong]
    exact List.mem_append_left _ (h.2 s hs)

theorem init_closed (base : List (Fin n)) (gens : List (Perm n)) :
    (init base gens).Closed (init base gens).base.length := by
  intro l b g hl hb
  exact absurd (List.getElem?_eq_some_iff.mp hb).1 (Nat.not_lt.mpr hl)

/-!
## The chain is complete
-/

/-- Closed levels, down to the first: each is the stabiliser of the points before it. -/
theorem Closed.groupAt_eq {c : StabiliserChain n} (hclosed : c.Closed 0) :
    forall k, k ≤ c.base.length ->
      c.groupAt k = Subgroup.closure { s | s ∈ c.strong } ⊓ fixing (c.base.take k) := by
  intro k
  induction k with
  | zero =>
      intro _
      have hall : c.stabiliserGenerators 0 = c.strong := by
        simp [stabiliserGenerators, fixesPrefix]
      rw [groupAt, hall, List.take_zero]
      ext g
      simp [mem_fixing]
  | succ k ih =>
      intro hk
      have hb : c.base[k]? = some c.base[k] := List.getElem?_eq_getElem hk
      have hlevel := ih (Nat.le_of_succ_le hk)
      apply le_antisymm
      · apply (Subgroup.closure_le _).mpr
        intro s hs
        rw [Set.mem_ofPred_eq, mem_stabiliserGenerators] at hs
        exact ⟨Subgroup.subset_closure hs.1, mem_fixing.mpr hs.2⟩
      · intro g hg
        rcases hg with ⟨hmem, hfix⟩
        have hpoints := mem_fixing.mp hfix
        refine hclosed k _ g (Nat.zero_le k) hb ?_
          (hpoints _ ((mem_take_succ hb).mpr (Or.inr rfl)))
        rw [hlevel]
        refine ⟨hmem, mem_fixing.mpr ?_⟩
        intro x hx
        exact hpoints x ((mem_take_succ hb).mpr (Or.inl hx))

/-- The construction ends by itself, and then for each k the strong generators that fix
the first k base points generate exactly the stabiliser of these points in the group of
the given permutations. -/
theorem build_complete (base : List (Fin n)) (hnodup : base.Nodup)
    (gens : List (Perm n)) :
    (forall extra, closeLoop (closeFuel n + extra) (init base gens).base.length
      (init base gens) = build base gens) ∧
    base <+: (build base gens).base ∧
    forall k, k ≤ (build base gens).base.length ->
      Subgroup.closure { s | s ∈ (build base gens).stabiliserGenerators k } =
        Subgroup.closure { s | s ∈ gens } ⊓
          fixing ((build base gens).base.take k) := by
  rcases build_rule (P := fun c i => c.Closed i ∧ forall s, s ∈ gens -> s ∈ c.strong)
      hnodup closeLevel_closed ⟨init_closed base gens, fun s hs => hs⟩ with
    ⟨⟨hclosed, hgrown⟩, hextra⟩
  have hgens : forall s, s ∈ gens -> s ∈ Subgroup.closure { s | s ∈ gens } :=
    fun s hs => Subgroup.subset_closure hs
  rcases build_keeps hnodup hgens with ⟨hbase, hstrong⟩
  have hgroup : Subgroup.closure { s | s ∈ (build base gens).strong } =
      Subgroup.closure { s | s ∈ gens } :=
    le_antisymm ((Subgroup.closure_le _).mpr hstrong) (Subgroup.closure_mono hgrown)
  refine ⟨hextra, hbase, ?_⟩
  intro k hk
  have heq := hclosed.groupAt_eq k hk
  rw [hgroup] at heq
  exact heq

theorem build_complete_swap :
    ([0] : List (Fin 3)).Nodup ∧ Equiv.swap (1 : Fin 3) 2 ≠ 1 ∧
    forall k, k ≤ (build [0] [Equiv.swap (1 : Fin 3) 2]).base.length ->
      Subgroup.closure
          { s | s ∈ (build [0] [Equiv.swap (1 : Fin 3) 2]).stabiliserGenerators k } =
        Subgroup.closure { s | s ∈ [Equiv.swap (1 : Fin 3) 2] } ⊓
          fixing ((build [0] [Equiv.swap (1 : Fin 3) 2]).base.take k) :=
  ⟨by decide, by decide, (build_complete [0] (by decide) [Equiv.swap 1 2]).2.2⟩

end StabiliserChain

end Identity
end Topology
end Ostia

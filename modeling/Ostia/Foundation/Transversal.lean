import Mathlib.GroupTheory.Schreier

/-!
# Generators of a point stabiliser

A group acts on points.  A transversal of the orbit of a point holds, for each
point of the orbit, one group element that carries the base point there.  When
every product of a transversal element with a generator, taken back to the base
point, lies in a subgroup, the whole stabiliser of the base point does.
-/

namespace Ostia
namespace Foundation

variable {G α : Type} [Group G] [MulAction G α]

/-- One element of the group of S for each point of the orbit of b. -/
structure Transversal (S : Set G) (b : α) (R : Set G) : Prop where
  one : 1 ∈ R
  mem : forall r, r ∈ R -> r ∈ Subgroup.closure S
  exists_point : forall g, g ∈ Subgroup.closure S -> exists r, r ∈ R ∧ r • b = g • b
  unique : forall r r', r ∈ R -> r' ∈ R -> r • b = r' • b -> r = r'

namespace Transversal

variable {S R : Set G} {b : α}

/-- Membership in the stabiliser, by the action of the whole group. -/
theorem mem_stabilizer_closure {g : Subgroup.closure S} :
    g ∈ MulAction.stabilizer (Subgroup.closure S) b <-> (g : G) • b = b :=
  Iff.rfl

/-- The inverses of a transversal complement the stabiliser within the group of S. -/
theorem isComplement (h : Transversal S b R) :
    Subgroup.IsComplement
      (MulAction.stabilizer (Subgroup.closure S) b : Set (Subgroup.closure S))
      { r | (r : G)⁻¹ ∈ R } := by
  rw [Subgroup.isComplement_iff_existsUnique_mul_inv_mem]
  intro g
  rcases h.exists_point _ (Subgroup.inv_mem _ g.2) with ⟨r, hr, hpoint⟩
  have hback : forall t : { r : Subgroup.closure S | (r : G)⁻¹ ∈ R },
      g * (t : Subgroup.closure S)⁻¹ ∈ MulAction.stabilizer (Subgroup.closure S) b <->
        ((t : Subgroup.closure S) : G)⁻¹ • b = r • b := by
    intro t
    rw [mem_stabilizer_closure, Subgroup.coe_mul, Subgroup.coe_inv, mul_smul, hpoint,
      eq_inv_smul_iff]
  refine ⟨⟨⟨r⁻¹, Subgroup.inv_mem _ (h.mem r hr)⟩, by simpa using hr⟩, ?_, ?_⟩
  · exact (hback _).mpr (by simp)
  · intro t ht
    have hsame := h.unique _ _ t.2 hr ((hback t).mp ht)
    apply Subtype.ext
    apply Subtype.ext
    exact inv_eq_iff_eq_inv.mp hsame

/-- The inverses of the generators generate their group. -/
theorem closure_inverses (S : Set G) :
    Subgroup.closure { s : Subgroup.closure S | (s : G)⁻¹ ∈ S } = ⊤ := by
  have hset : { s : Subgroup.closure S | (s : G)⁻¹ ∈ S } =
      (Set.preimage (Subtype.val : Subgroup.closure S -> G) S)⁻¹ := by
    ext s
    rfl
  rw [hset, Subgroup.closure_inv]
  exact Subgroup.closure_closure_coe_preimage

/-- Schreier's lemma: the products that return to the base point generate its stabiliser. -/
theorem stabilizer_le (h : Transversal S b R) {K : Subgroup G}
    (hK : forall u s v, u ∈ R -> s ∈ S -> v ∈ R -> s • u • b = v • b ->
      v⁻¹ * s * u ∈ K) {g : G} (hg : g ∈ Subgroup.closure S) (hfix : g • b = b) :
    g ∈ K := by
  -- The library's transversal multiplies from the other side, so all is inverted.
  have hone : (1 : Subgroup.closure S) ∈ { r : Subgroup.closure S | (r : G)⁻¹ ∈ R } := by
    simpa using h.one
  have hmem : (⟨g, hg⟩ : Subgroup.closure S) ∈
      MulAction.stabilizer (Subgroup.closure S) b := hfix
  rw [← Subgroup.closure_mul_image_eq h.isComplement hone (closure_inverses S)] at hmem
  refine (Subgroup.closure_le (K.comap (Subgroup.closure S).subtype)).mpr ?_ hmem
  intro _ hmem
  rcases hmem with ⟨_, ⟨r, hr, s, hs, rfl⟩, rfl⟩
  have hback := h.isComplement.mul_inv_toRightFun_mem (r * s)
  simp only
  generalize h.isComplement.toRightFun (r * s) = t at hback ⊢
  rw [mem_stabilizer_closure, Subgroup.coe_mul, Subgroup.coe_inv, mul_smul,
    Subgroup.coe_mul, mul_smul, ← eq_inv_smul_iff, ← eq_inv_smul_iff] at hback
  have hprod := hK _ _ _ hr hs t.2 hback.symm
  rw [SetLike.mem_coe, Subgroup.mem_comap]
  simpa [mul_assoc] using K.inv_mem hprod

end Transversal

end Foundation
end Ostia

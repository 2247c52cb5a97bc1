import Ostia.Topology.Compact
import Ostia.Topology.Identity.Tree

/-!
# Twins

Two vertices are twins when exchanging them is a symmetry of the stripped graph.  The test
compares their arcs.  It is exact on vertices with equal labels, hence an equivalence on each
cell, and the representatives of a cell are one vertex of each class.
-/

namespace Ostia
namespace Topology

open Foundation
open Foundation.Multigraph (Dir Link)

namespace Identity

variable {n : Nat} {dump : Json -> String} {g : Graph n}

/-!
## The profile of a vertex
-/

theorem profile_mutual (hg : g.Stripped dump) (x other : Fin n) :
    ((((g.adj x).filter (fun a => a.toIdx = other)).map fun a =>
        (toLex (a.label, dirCode a.dir) : Nat ×ₗ Nat)) :
      Multiset (Nat ×ₗ Nat)) =
      (Multigraph.mutualArcs g.links x other).map
        (fun a => toLex (a.1, dirCode a.2)) := by
  unfold Multigraph.mutualArcs
  rw [← adj_toTuple hg, Multiset.filter_coe, Multiset.map_coe, Multiset.map_coe,
    List.filter_map, List.map_map, List.map_map]
  rfl

theorem profile_rest (hg : g.Stripped dump) (x other : Fin n) :
    ((((g.adj x).filter (fun a => a.toIdx ≠ other)).map fun a =>
        (toLex (a.label, toLex (dirCode a.dir, profileEnd x a.toIdx)) :
          Nat ×ₗ Nat ×ₗ Int)) : Multiset (Nat ×ₗ Nat ×ₗ Int)) =
      (Multigraph.otherArcs g.links x other).map
        (fun a => toLex (a.1, toLex (dirCode a.2.1,
          a.2.2.elim (-1) (fun y => (y.val : Int))))) := by
  unfold Multigraph.otherArcs
  rw [← adj_toTuple hg, Multiset.filter_coe, Multiset.map_coe, Multiset.map_coe,
    List.filter_map, List.map_map, List.map_map]
  congr 1
  apply List.map_congr_left
  intro a _
  simp only [Function.comp_apply, Arc.toTuple, profileEnd]
  split_ifs <;> rfl

/-- The test compares the arcs to each other and the arcs to other vertices. -/
theorem twins_iff (hg : g.Stripped dump) {u v : Fin n} :
    twins g u v = true <->
      Multigraph.mutualArcs g.links u v = Multigraph.mutualArcs g.links v u ∧
        Multigraph.otherArcs g.links u v = Multigraph.otherArcs g.links v u := by
  have hother : Function.Injective fun a : Nat × Dir × Option (Fin n) =>
      (toLex (a.1, toLex (dirCode a.2.1, a.2.2.elim (-1) (fun y => (y.val : Int)))) :
        Nat ×ₗ Nat ×ₗ Int) := by
    rintro ⟨l, d, y⟩ ⟨l', d', y'⟩ h
    have h1 := congrArg ofLex h
    simp only [ofLex_toLex, Prod.mk.injEq] at h1
    have h2 := congrArg ofLex h1.2
    simp only [ofLex_toLex, Prod.mk.injEq] at h2
    rw [h1.1, dirCode_injective h2.1]
    cases y with
    | none =>
        cases y' with
        | none => rfl
        | some b =>
            simp only [Option.elim_none, Option.elim_some] at h2
            omega
    | some a =>
        cases y' with
        | none =>
            simp only [Option.elim_none, Option.elim_some] at h2
            omega
        | some b =>
            simp only [Option.elim_some] at h2
            rw [Fin.ext (Int.ofNat_inj.mp h2.2)]
  have hmutual : Function.Injective fun a : Nat × Dir =>
      (toLex (a.1, dirCode a.2) : Nat ×ₗ Nat) := by
    rintro ⟨l, d⟩ ⟨l', d'⟩ h
    have h1 := congrArg ofLex h
    simp only [ofLex_toLex, Prod.mk.injEq] at h1
    rw [h1.1, dirCode_injective h1.2]
  unfold twins profile
  rw [decide_eq_true_iff, Prod.mk.injEq, Sorting.sorted_eq_iff_perm, Sorting.sorted_eq_iff_perm,
    ← Multiset.coe_eq_coe, ← Multiset.coe_eq_coe, profile_rest hg, profile_rest hg,
    profile_mutual hg, profile_mutual hg, (Multiset.map_injective hother).eq_iff,
    (Multiset.map_injective hmutual).eq_iff, and_comm]

/-!
## Exchanging twins
-/

theorem vlabel_swap {u v : Fin n} (hlabel : g.vlabel u = g.vlabel v) (x : Fin n) :
    g.vlabel (Equiv.swap u v x) = g.vlabel x := by
  rw [Equiv.swap_apply_def]
  split_ifs with hx hx'
  · rw [hx, hlabel]
  · rw [hx', hlabel]
  · rfl

theorem twins_iff_swap (hg : g.Stripped dump) {u v : Fin n} (hlabel : g.vlabel u = g.vlabel v) :
    twins g u v = true <-> Iso g g (Equiv.swap u v) := by
  by_cases huv : u = v
  · subst huv
    rw [Equiv.swap_self]
    exact ⟨fun _ => Iso.refl g, fun _ => decide_eq_true rfl⟩
  rw [twins_iff hg]
  constructor
  · intro h
    refine ⟨vlabel_swap hlabel, ?_, fun _ _ => rfl, Multigraph.map_swap_eq huv h.1 h.2⟩
    intro x
    rw [hg.vkey, hg.vkey, vlabel_swap hlabel]
  · intro h
    exact Multigraph.arcs_eq_of_map_swap huv h.links

theorem vlabel_eq_of_vkey_eq (hdump : Function.Injective dump) (hg : g.Stripped dump)
    {u v : Fin n} (hkey : g.vkey u = g.vkey v) : g.vlabel u = g.vlabel v := by
  apply hdump
  rw [← hg.vkey, ← hg.vkey, hkey]

/-- Twins of one cell are exchanged by an automorphism. -/
theorem swap_mem_autGroup (hdump : Function.Injective dump) (hg : g.Stripped dump)
    {u v : Fin n} (htwins : twins g u v = true) (hkey : g.vkey u = g.vkey v) :
    Equiv.swap u v ∈ autGroup g :=
  mem_autGroup.mpr ((twins_iff_swap hg (vlabel_eq_of_vkey_eq hdump hg hkey)).mp htwins)

theorem twins_symm {u v : Fin n} (h : twins g u v = true) : twins g v u = true := by
  unfold twins at h ⊢
  rw [decide_eq_true_iff] at h ⊢
  exact h.symm

/-- Exchanging the outer two of three vertices is exchanging neighbours three times. -/
theorem twins_trans (hg : g.Stripped dump) {u v w : Fin n} (huv : g.vlabel u = g.vlabel v)
    (hvw : g.vlabel v = g.vlabel w) (h : twins g u v = true) (h' : twins g v w = true) :
    twins g u w = true := by
  by_cases huw : u = w
  · rw [huw]
    exact decide_eq_true rfl
  by_cases hwv : w = v
  · rwa [hwv]
  rw [twins_iff_swap hg (huv.trans hvw)]
  have hfirst := mem_autGroup.mpr ((twins_iff_swap hg huv).mp h)
  have hsecond := mem_autGroup.mpr ((twins_iff_swap hg hvw).mp h')
  have hconj : Equiv.swap u v * Equiv.swap v w * Equiv.swap u v = Equiv.swap u w := by
    rw [Equiv.swap_comm u v, Equiv.swap_comm v w]
    exact Equiv.swap_mul_swap_mul_swap hwv (Ne.symm huw)
  rw [← mem_autGroup, ← hconj]
  exact (autGroup g).mul_mem ((autGroup g).mul_mem hfirst hsecond) hfirst

/-!
## Representatives
-/

/-- One step of the choice of representatives. -/
def chooseRep (g : Graph n) (reps : List (Fin n)) (v : Fin n) : List (Fin n) :=
  if reps.any (fun r => twins g r v) then reps else reps ++ [v]

theorem chooseRep_spec {g : Graph n} {reps : List (Fin n)} (v : Fin n)
    (hnodup : reps.Nodup) :
    (chooseRep g reps v).Nodup ∧ reps ⊆ chooseRep g reps v ∧
      (forall r, r ∈ chooseRep g reps v -> r ∈ reps ∨ r = v) ∧
      exists r, r ∈ chooseRep g reps v ∧ twins g r v = true := by
  have hself : twins g v v = true := decide_eq_true rfl
  unfold chooseRep
  split_ifs with hany
  · refine ⟨hnodup, fun _ h => h, fun r hr => Or.inl hr, ?_⟩
    simpa using hany
  · refine ⟨?_, List.subset_append_left reps [v], ?_, v, by simp, hself⟩
    · rw [List.nodup_append]
      refine ⟨hnodup, List.nodup_singleton v, ?_⟩
      intro a ha b hb
      rw [List.mem_singleton] at hb
      rintro rfl
      apply hany
      rw [List.any_eq_true]
      exact ⟨a, ha, by rw [hb]; exact hself⟩
    · intro r hr
      rw [List.mem_append, List.mem_singleton] at hr
      exact hr

/-- Every vertex of a cell is a twin of a representative; each is one of itself. -/
theorem representatives_spec (g : Graph n) (open_ : List (Fin n)) :
    (representatives g open_).Nodup ∧
      (forall r, r ∈ representatives g open_ -> r ∈ open_) ∧
      forall v, v ∈ open_ ->
        exists r, r ∈ representatives g open_ ∧ twins g r v = true := by
  have hfold : forall (vs reps : List (Fin n)), reps.Nodup ->
      (vs.foldl (chooseRep g) reps).Nodup ∧
        reps ⊆ vs.foldl (chooseRep g) reps ∧
        (forall r, r ∈ vs.foldl (chooseRep g) reps -> r ∈ reps ∨ r ∈ vs) ∧
        forall v, v ∈ vs -> exists r, r ∈ vs.foldl (chooseRep g) reps ∧
          twins g r v = true := by
    intro vs
    induction vs with
    | nil =>
        intro reps hnodup
        exact ⟨hnodup, fun _ h => h, fun r hr => Or.inl hr, fun v hv => by cases hv⟩
    | cons v rest ih =>
        intro reps hnodup
        rcases chooseRep_spec v hnodup with ⟨hn, hsub, horigin, r, hr, htwin⟩
        rcases ih (chooseRep g reps v) hn with ⟨hn', hsub', horigin', htwins⟩
        refine ⟨hn', fun x hx => hsub' (hsub hx), ?_, ?_⟩
        · intro x hx
          rcases horigin' x hx with hx | hx
          · rcases horigin x hx with hx | rfl
            · exact Or.inl hx
            · exact Or.inr List.mem_cons_self
          · exact Or.inr (List.mem_cons_of_mem v hx)
        · intro x hx
          rcases List.mem_cons.mp hx with rfl | hx
          · exact ⟨r, hsub' hr, htwin⟩
          · exact htwins x hx
  rcases hfold open_ [] List.nodup_nil with ⟨hnodup, _, horigin, htwins⟩
  refine ⟨hnodup, ?_, htwins⟩
  intro r hr
  rcases horigin r hr with hr | hr
  · cases hr
  · exact hr

/-- No representative is a twin of an earlier one. -/
theorem representatives_pairwise (g : Graph n) (open_ : List (Fin n)) :
    (representatives g open_).Pairwise fun r s => twins g r s = false := by
  have hfold : forall (vs reps : List (Fin n)),
      (reps.Pairwise fun r s => twins g r s = false) ->
      (vs.foldl (chooseRep g) reps).Pairwise fun r s => twins g r s = false := by
    intro vs
    induction vs with
    | nil => exact fun reps h => h
    | cons v rest ih =>
        intro reps h
        apply ih
        unfold chooseRep
        split_ifs with hany
        · exact h
        · rw [List.pairwise_append]
          refine ⟨h, List.pairwise_singleton _ _, ?_⟩
          intro r hr s hs
          rw [List.mem_singleton] at hs
          subst hs
          simp only [List.any_eq_true, not_exists, not_and, Bool.not_eq_true] at hany
          exact hany r hr
  exact hfold open_ [] List.Pairwise.nil

/-- Where the test is transitive, each vertex is a twin of exactly one representative. -/
theorem representative_unique (g : Graph n) {open_ : List (Fin n)}
    (htrans : forall u v w, u ∈ open_ -> v ∈ open_ -> w ∈ open_ -> twins g u v = true ->
      twins g v w = true -> twins g u w = true) {v : Fin n} (hv : v ∈ open_) :
    exists r, (r ∈ representatives g open_ ∧ twins g r v = true) ∧
      forall s, s ∈ representatives g open_ -> twins g s v = true -> s = r := by
  obtain ⟨_, hsub, hcovers⟩ := representatives_spec g open_
  obtain ⟨r, hr, htwin⟩ := hcovers v hv
  refine ⟨r, ⟨hr, htwin⟩, ?_⟩
  intro s hs htwin'
  by_contra hne
  have hpair : forall a b, a ∈ representatives g open_ -> b ∈ representatives g open_ ->
      twins g a v = true -> twins g b v = true -> twins g a b = true := by
    intro a b ha hb hav hbv
    exact htrans a v b (hsub a ha) hv (hsub b hb) hav (twins_symm hbv)
  have hsymm : Std.Symm fun a b => twins g a b = false := by
    constructor
    intro a b hab
    rw [← Bool.not_eq_true] at hab ⊢
    exact fun hba => hab (twins_symm hba)
  have hapart : twins g r s = false :=
    (representatives_pairwise g open_).forall hr hs (Ne.symm hne)
  rw [hpair r s hr hs htwin htwin'] at hapart
  cases hapart

/-!
## The test on stripped graphs
-/

/-- The test holds exactly when exchanging the two vertices is an automorphism.  On the vertices
of one cell it is transitive, and each vertex of the open cell is a twin of exactly one
representative. -/
theorem twins_exact {dump : Json -> String} (hdump : Function.Injective dump) {model : Model}
    {g : Graph model.nodes.length} (h : strip dump model = .ok g) :
    (forall u v, g.vlabel u = g.vlabel v ->
      (twins g u v = true <-> Iso g g (Equiv.swap u v))) ∧
    forall path,
      (forall u v w, colourOf g path u = colourOf g path v ->
        colourOf g path v = colourOf g path w -> twins g u v = true -> twins g v w = true ->
        twins g u w = true) ∧
      forall open_, openCell (colourOf g path) = some open_ -> forall v, v ∈ open_ ->
        exists r, (r ∈ representatives g open_ ∧ twins g r v = true) ∧
          forall s, s ∈ representatives g open_ -> twins g s v = true -> s = r := by
  have hg : g.Stripped dump := strip_stripped hdump h
  refine ⟨fun u v hlabel => twins_iff_swap hg hlabel, ?_⟩
  intro path
  have hlabel : forall u v, colourOf g path u = colourOf g path v -> g.vlabel u = g.vlabel v :=
    fun u v huv => vlabel_eq_of_vkey_eq hdump hg (vkey_eq_of_colourOf_eq huv)
  refine ⟨fun u v w huv hvw => twins_trans hg (hlabel u v huv) (hlabel v w hvw), ?_⟩
  intro open_ hopen v hv
  apply representative_unique g _ hv
  intro u v w hu hv hw
  exact twins_trans hg (hlabel u v (colour_eq_of_mem_openCell hopen hu hv))
    (hlabel v w (colour_eq_of_mem_openCell hopen hv hw))

/-- Two GPUs that an NVLink joins and that reach themselves by another. -/
def loopedPair : Model :=
  let link : String -> String -> Edge := fun x y =>
    ⟨EdgeKind.nvlink, x, y, OrdMap.empty.insert "links" 18⟩
  ⟨[⟨NodeKind.gpu, "a", OrdMap.empty⟩, ⟨NodeKind.gpu, "b", OrdMap.empty⟩],
    [link "a" "b", link "a" "a", link "b" "b"]⟩

theorem twins_exact_loopedPair :
    exists g, strip Compact.dump loopedPair = .ok g ∧
      forall u v, g.vlabel u = g.vlabel v ->
        (twins g u v = true <-> Iso g g (Equiv.swap u v)) := by
  have haccepted : Accepted loopedPair := ⟨by decide, by decide, by simp [loopedPair]⟩
  have hstrip : exists g, strip Compact.dump loopedPair = .ok g := strip_ok_iff.mpr haccepted
  obtain ⟨g, hg⟩ := hstrip
  exact ⟨g, hg, (twins_exact Compact.dump_injective hg).1⟩

end Identity
end Topology
end Ostia

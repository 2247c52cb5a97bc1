import Mathlib.Algebra.BigOperators.Fin
import Mathlib.Algebra.Order.BigOperators.Group.Finset
import Mathlib.Data.Set.Card
import Mathlib.Order.CompletePartialOrder
import Mathlib.GroupTheory.GroupAction.FixingSubgroup
import Ostia.Topology.Identity.Level

/-!
# Stabiliser chains

A base and strong generating set, built by deterministic Schreier-Sims.  Level i
holds the orbit of base point i under the strong generators that fix the earlier
base points.  A Schreier generator that does not sift to the identity leaves a
residue, which becomes a strong generator.

Every strong generator lies in the group of the given permutations, and each
residue enlarges an orbit or the base, so the construction ends.
-/

namespace Ostia
namespace Topology
namespace Identity

variable {n : Nat}

/-!
## The chain
-/

structure StabiliserChain (n : Nat) where
  base : List (Fin n)
  strong : List (Perm n)
  levels : List (Level n)

namespace StabiliserChain

def fixesPrefix (base : List (Fin n)) (s : Perm n) (k : Nat) : Bool :=
  (base.take k).all (fun b => s b = b)

/-- The strong generators that fix the first k base points. -/
def stabiliserGenerators (c : StabiliserChain n) (k : Nat) : List (Perm n) :=
  c.strong.filter (fun s => fixesPrefix c.base s k)

/-- Strip a permutation through levels; the level where it stopped and the residue. -/
def sift : List (Fin n × Level n) -> Nat -> Perm n -> Nat × Perm n
  | [], l, h => (l, h)
  | (b, level) :: rest, l, h =>
      match level.index (h b) with
      | none => (l, h)
      | some k => sift rest (l + 1) (compose h (level.inv.getD k (Equiv.refl _)))

/-- The Schreier generator of a representative and a generator. -/
def schreier (level : Level n) (b : Fin n) (u s : Perm n) : Perm n :=
  let k := (level.index (s (u b))).getD 0
  compose u (compose s (level.inv.getD k (Equiv.refl _)))

/-- The level at which a Schreier generator stops and its residue; nothing for the identity. -/
def residue (c : StabiliserChain n) (i : Nat) (level : Level n) (b : Fin n)
    (u s : Perm n) : Option (Nat × Perm n) :=
  let r := sift ((c.base.zip c.levels).drop (i + 1)) (i + 1)
    (schreier level b u s)
  if r.1 = c.base.length ∧ isIdentity r.2 then none else some r

/-- Add a residue as a strong generator; one that passed every level brings a base point. -/
def addResidue (c : StabiliserChain n) (j : Nat) (h : Perm n) :
    StabiliserChain n :=
  if j = c.base.length then
    { base := c.base ++ (firstMoved h).toList
      strong := c.strong ++ [h]
      levels := c.levels ++ [Level.empty] }
  else { c with strong := c.strong ++ [h] }

/-- Rebuild level i and check its Schreier generators, up to the first residue. -/
def closeLevel (c : StabiliserChain n) (i : Nat) :
    StabiliserChain n × Option Nat :=
  match c.base[i]? with
  | none => (c, none)
  | some b =>
      let gens := c.stabiliserGenerators i
      let level := buildLevel b gens
      let built := { c with levels := c.levels.set i level }
      match (level.reps.flatMap fun u => gens.map fun s => (u, s)).findSome?
          (fun p => built.residue i level b p.1 p.2) with
      | none => (built, none)
      | some (j, h) => (built.addResidue j h, some j)

/-- Close the levels below i; a level that grew is closed again. -/
def closeLoop : Nat -> Nat -> StabiliserChain n -> StabiliserChain n
  | 0, _, c => c
  | _ + 1, 0, c => c
  | fuel + 1, i + 1, c =>
      match c.closeLevel i with
      | (c', none) => closeLoop fuel i c'
      | (c', some j) => closeLoop fuel (j + 1) c'

/-- The base with a moved point added for each generator that fixes all of it. -/
def extendBase (base : List (Fin n)) (gens : List (Perm n)) : List (Fin n) :=
  gens.foldl
    (fun base s =>
      if fixesPrefix base s base.length then base ++ (firstMoved s).toList
      else base)
    base

/-- The chain before any level is closed. -/
def init (base : List (Fin n)) (gens : List (Perm n)) : StabiliserChain n :=
  let base := extendBase base gens
  { base := base, strong := gens, levels := base.map fun _ => Level.empty }

/-- An orbit or the base grows with every residue, which bounds the steps of the loop. -/
def closeFuel (n : Nat) : Nat := (n * n + 1) * (n + 1)

def build (base : List (Fin n)) (gens : List (Perm n)) : StabiliserChain n :=
  let c := init base gens
  closeLoop (closeFuel n) c.base.length c

/-!
## Invariant of the construction
-/

theorem fixesPrefix_iff {base : List (Fin n)} {s : Perm n} {k : Nat} :
    fixesPrefix base s k = true <-> forall b, b ∈ base.take k -> s b = b := by
  simp [fixesPrefix]

theorem mem_stabiliserGenerators {c : StabiliserChain n} {k : Nat} {s : Perm n} :
    s ∈ c.stabiliserGenerators k <->
      s ∈ c.strong ∧ forall b, b ∈ c.base.take k -> s b = b := by
  rw [stabiliserGenerators, List.mem_filter, fixesPrefix_iff]

/-- The pointwise stabiliser of some points. -/
def fixing (points : List (Fin n)) : Subgroup (Perm n) :=
  fixingSubgroup (Perm n) { x | x ∈ points }

theorem mem_fixing {points : List (Fin n)} {u : Perm n} :
    u ∈ fixing points <-> forall x, x ∈ points -> u x = x :=
  mem_fixingSubgroup_iff (Perm n)

/-- The loop invariant: the levels from i on are those of the current generators. -/
structure Ok (c : StabiliserChain n) (i : Nat) : Prop where
  nodup : c.base.Nodup
  length : c.levels.length = c.base.length
  bound : i ≤ c.base.length
  current : forall l b, i ≤ l -> c.base[l]? = some b ->
    c.levels[l]? = some (buildLevel b (c.stabiliserGenerators l))

theorem mem_take_succ {base : List (Fin n)} {l : Nat} {b x : Fin n}
    (hb : base[l]? = some b) :
    x ∈ base.take (l + 1) <-> x ∈ base.take l ∨ x = b := by
  rw [List.take_add_one, hb]
  simp

/-- The next level to sift through is that of the current generators. -/
theorem Ok.drop_cons {c : StabiliserChain n} {i l : Nat} (hok : c.Ok i) (hil : i ≤ l)
    {b : Fin n} {level : Level n} {rest : List (Fin n × Level n)}
    (hrest : (b, level) :: rest = (c.base.zip c.levels).drop l) :
    c.base[l]? = some b ∧ level = buildLevel b (c.stabiliserGenerators l) ∧
      rest = (c.base.zip c.levels).drop (l + 1) := by
  have hzip : (c.base.zip c.levels)[l]? = some (b, level) := by
    rw [← List.head?_drop, ← hrest]
    rfl
  rw [List.getElem?_zip_eq_some] at hzip
  refine ⟨hzip.1, ?_, ?_⟩
  · have hcurrent := hok.current l b hil hzip.1
    rw [hzip.2, Option.some_inj] at hcurrent
    exact hcurrent
  · rw [← List.tail_drop, ← hrest]
    rfl

/-- What sifting through the levels from l on leaves. -/
theorem sift_spec {c : StabiliserChain n} {i : Nat} (hok : c.Ok i)
    {H : Subgroup (Perm n)} (hstrong : forall s, s ∈ c.strong -> s ∈ H) :
    forall (rest : List (Fin n × Level n)) l (h : Perm n),
      rest = (c.base.zip c.levels).drop l -> i ≤ l -> l ≤ c.base.length ->
      h ∈ H -> (forall b, b ∈ c.base.take l -> h b = b) ->
      (sift rest l h).2 ∈ H ∧
        l ≤ (sift rest l h).1 ∧ (sift rest l h).1 ≤ c.base.length ∧
        (forall b, b ∈ c.base.take (sift rest l h).1 -> (sift rest l h).2 b = b) ∧
        forall b, c.base[(sift rest l h).1]? = some b ->
          (sift rest l h).2 b ∉
            reach b (c.stabiliserGenerators (sift rest l h).1) := by
  intro rest
  induction rest with
  | nil =>
      intro l h hrest hil hlen hmem hfix
      refine ⟨hmem, Nat.le_refl l, hlen, hfix, ?_⟩
      intro b hb
      have hlt := (List.getElem?_eq_some_iff.mp hb).1
      have hdrop := List.drop_eq_nil_iff.mp hrest.symm
      rw [List.length_zip, hok.length, Nat.min_self] at hdrop
      exact absurd hlt (Nat.not_lt.mpr hdrop)
  | cons p rest ih =>
      intro l h hrest hil hlen hmem hfix
      obtain ⟨b, level⟩ := p
      rcases hok.drop_cons hil hrest with ⟨hb, hlevel, hrest'⟩
      subst hlevel
      have hlt : l < c.base.length := (List.getElem?_eq_some_iff.mp hb).1
      rw [sift]
      cases hindex : (buildLevel b (c.stabiliserGenerators l)).index (h b) with
      | none =>
          refine ⟨hmem, Nat.le_refl l, hlen, hfix, ?_⟩
          intro b' hb' hreach
          have hbb : b' = b := by
            rw [hb, Option.some_inj] at hb'
            exact hb'.symm
          subst hbb
          rw [← index_isSome_iff] at hreach
          simp only [hindex] at hreach
          cases hreach
      | some k =>
          have hgens : forall s, s ∈ c.stabiliserGenerators l ->
              s ∈ H ⊓ fixing (c.base.take l) := by
            intro s hs
            rw [mem_stabiliserGenerators] at hs
            exact ⟨hstrong s hs.1, mem_fixing.mpr hs.2⟩
          rcases inv_getD_mem hgens hindex with ⟨hinv, hback⟩
          have hstep := ih (l + 1)
            (compose h ((buildLevel b (c.stabiliserGenerators l)).inv.getD k
              (Equiv.refl _)))
            hrest' (by omega) hlt (compose_mem hmem hinv.1) (by
              intro x hx
              rw [mem_take_succ hb] at hx
              rw [compose_apply]
              rcases hx with hx | rfl
              · rw [hfix x hx, mem_fixing.mp hinv.2 x hx]
              · exact hback)
          exact ⟨hstep.1, Nat.le_of_succ_le hstep.2.1, hstep.2.2⟩

/-- The Schreier generators of level i lie in the group and fix one base point more. -/
theorem schreier_spec {c : StabiliserChain n} {i : Nat} {b : Fin n}
    (hb : c.base[i]? = some b) {H : Subgroup (Perm n)}
    (hstrong : forall s, s ∈ c.strong -> s ∈ H) {u s : Perm n}
    (hu : u ∈ (buildLevel b (c.stabiliserGenerators i)).reps)
    (hs : s ∈ c.stabiliserGenerators i) :
    schreier (buildLevel b (c.stabiliserGenerators i)) b u s ∈ H ∧
      forall x, x ∈ c.base.take (i + 1) ->
        schreier (buildLevel b (c.stabiliserGenerators i)) b u s x = x := by
  have hgens : forall s, s ∈ c.stabiliserGenerators i ->
      s ∈ H ⊓ fixing (c.base.take i) := by
    intro s hs
    rw [mem_stabiliserGenerators] at hs
    exact ⟨hstrong s hs.1, mem_fixing.mpr hs.2⟩
  rcases buildLevel_spec (b := b) hgens with ⟨hok, _, _, hclosed⟩
  rcases List.mem_iff_getElem?.mp hu with ⟨j, hj⟩
  have himage := hclosed (u b) (by rw [hok.index j u hj]; rfl) s hs
  rcases Option.isSome_iff_exists.mp himage with ⟨k, hk⟩
  rcases inv_getD_mem hgens hk with ⟨hinv, hback⟩
  have huH := hok.mem u hu
  have hsH := hgens s hs
  unfold schreier
  rw [hk, Option.getD_some]
  refine ⟨compose_mem huH.1 (compose_mem hsH.1 hinv.1), ?_⟩
  intro x hx
  rw [compose_apply, compose_apply]
  rw [mem_take_succ hb] at hx
  rcases hx with hx | rfl
  · rw [mem_fixing.mp huH.2 x hx, mem_fixing.mp hsH.2 x hx,
      mem_fixing.mp hinv.2 x hx]
  · exact hback

/-!
## Every residue enlarges the chain
-/

/-- The size of the orbit at a level. -/
noncomputable def orbitSize (c : StabiliserChain n) (l : Nat) : Nat :=
  match c.base[l]? with
  | some b => (reach b (c.stabiliserGenerators l)).ncard
  | none => 0

/-- The sizes of all orbits together. -/
noncomputable def size (c : StabiliserChain n) : Nat :=
  ∑ l ∈ Finset.range c.base.length, c.orbitSize l

theorem orbitSize_le (c : StabiliserChain n) (l : Nat) : c.orbitSize l ≤ n := by
  unfold orbitSize
  split
  · calc
      (reach _ (c.stabiliserGenerators l)).ncard ≤ (Set.univ : Set (Fin n)).ncard :=
        Set.ncard_le_ncard (Set.subset_univ _)
      _ = n := by rw [Set.ncard_univ, Nat.card_eq_fintype_card, Fintype.card_fin]
  · exact Nat.zero_le n

theorem base_length_le {c : StabiliserChain n} (h : c.base.Nodup) :
    c.base.length ≤ n := by
  simpa using h.length_le_card

theorem size_le {c : StabiliserChain n} (h : c.base.Nodup) : c.size ≤ n * n := by
  calc
    c.size ≤ (Finset.range c.base.length).card * n := by
      unfold size
      rw [← smul_eq_mul]
      exact Finset.sum_le_card_nsmul _ _ _ (fun l _ => c.orbitSize_le l)
    _ = c.base.length * n := by rw [Finset.card_range]
    _ ≤ n * n := Nat.mul_le_mul_right n (base_length_le h)

/-- A residue: it fixes the first j base points and leaves the orbit of the next. -/
structure Residue (c : StabiliserChain n) (j : Nat) (h : Perm n) : Prop where
  bound : j ≤ c.base.length
  fixes : forall b, b ∈ c.base.take j -> h b = b
  leaves : forall b, c.base[j]? = some b -> h b ∉ reach b (c.stabiliserGenerators j)
  moves : h ≠ 1

theorem addResidue_strong (c : StabiliserChain n) (j : Nat) (h : Perm n) :
    (c.addResidue j h).strong = c.strong ++ [h] := by
  unfold addResidue
  split <;> rfl

theorem addResidue_base {c : StabiliserChain n} {j : Nat} {h : Perm n}
    (hres : c.Residue j h) :
    (j < c.base.length ∧ (c.addResidue j h).base = c.base ∧
      (c.addResidue j h).levels = c.levels) ∨
    (j = c.base.length ∧ exists x, h x ≠ x ∧
      (c.addResidue j h).base = c.base ++ [x] ∧
      (c.addResidue j h).levels = c.levels ++ [Level.empty]) := by
  unfold addResidue
  split
  · rename_i hj
    rcases exists_firstMoved hres.moves with ⟨x, hx⟩
    exact Or.inr ⟨hj, x, firstMoved_spec hx, by simp [hx], rfl⟩
  · rename_i hj
    exact Or.inl ⟨Nat.lt_of_le_of_ne hres.bound hj, rfl, rfl⟩

theorem addResidue_take {c : StabiliserChain n} {j : Nat} {h : Perm n}
    (hres : c.Residue j h) {l : Nat} (hl : l ≤ c.base.length) :
    (c.addResidue j h).base.take l = c.base.take l := by
  rcases addResidue_base hres with ⟨_, hbase, _⟩ | ⟨_, x, _, hbase, _⟩
  · rw [hbase]
  · rw [hbase, List.take_append_of_le_length hl]

theorem addResidue_getElem? {c : StabiliserChain n} {j : Nat} {h : Perm n}
    (hres : c.Residue j h) {l : Nat} (hl : l < c.base.length) :
    (c.addResidue j h).base[l]? = c.base[l]? := by
  rcases addResidue_base hres with ⟨_, hbase, _⟩ | ⟨_, x, _, hbase, _⟩
  · rw [hbase]
  · rw [hbase, List.getElem?_append_left hl]

theorem mem_stabiliserGenerators_addResidue {c : StabiliserChain n} {j : Nat}
    {h : Perm n} (hres : c.Residue j h) {l : Nat} (hl : l ≤ c.base.length)
    {s : Perm n} (hs : s ∈ c.stabiliserGenerators l) :
    s ∈ (c.addResidue j h).stabiliserGenerators l := by
  rw [mem_stabiliserGenerators] at hs ⊢
  rw [addResidue_strong, addResidue_take hres hl]
  exact ⟨List.mem_append_left _ hs.1, hs.2⟩

/-- A residue fixes no base point it stopped at, so deeper levels keep their generators. -/
theorem stabiliserGenerators_addResidue {c : StabiliserChain n} {j : Nat}
    {h : Perm n} (hres : c.Residue j h) {l : Nat} (hjl : j < l)
    (hl : l ≤ c.base.length) :
    (c.addResidue j h).stabiliserGenerators l = c.stabiliserGenerators l := by
  unfold stabiliserGenerators
  have hfix : forall s, fixesPrefix (c.addResidue j h).base s l =
      fixesPrefix c.base s l := by
    intro s
    unfold fixesPrefix
    rw [addResidue_take hres hl]
  have hj : j < c.base.length := Nat.lt_of_lt_of_le hjl hl
  have hnot : fixesPrefix c.base h l = false := by
    rw [Bool.eq_false_iff]
    intro htrue
    rw [fixesPrefix_iff] at htrue
    have hmem : c.base[j] ∈ c.base.take l := by
      rw [List.mem_take_iff_getElem]
      exact ⟨j, by omega, rfl⟩
    have hleaves := hres.leaves c.base[j] (List.getElem?_eq_getElem hj)
    rw [htrue _ hmem] at hleaves
    exact hleaves (self_mem_reach _ _)
  rw [addResidue_strong, List.filter_append]
  simp only [hfix]
  simp [hnot]

theorem orbitSize_le_addResidue {c : StabiliserChain n} {j : Nat} {h : Perm n}
    (hres : c.Residue j h) {l : Nat} (hl : l < c.base.length) :
    c.orbitSize l ≤ (c.addResidue j h).orbitSize l := by
  unfold orbitSize
  rw [addResidue_getElem? hres hl]
  split
  · exact Set.ncard_le_ncard (reach_mono (fun s hs =>
      mem_stabiliserGenerators_addResidue hres (Nat.le_of_lt hl) hs))
  · exact Nat.le_refl 0

theorem mem_residue_generators {c : StabiliserChain n} {j : Nat} {h : Perm n}
    (hres : c.Residue j h) : h ∈ (c.addResidue j h).stabiliserGenerators j := by
  rw [mem_stabiliserGenerators, addResidue_strong, addResidue_take hres hres.bound]
  exact ⟨List.mem_append_right _ List.mem_cons_self, hres.fixes⟩

/-- The orbit at the level of a residue gains the image of its base point. -/
theorem reach_ssubset_addResidue {c : StabiliserChain n} {j : Nat} {h : Perm n}
    (hres : c.Residue j h) {b : Fin n} (hb : c.base[j]? = some b) :
    reach b (c.stabiliserGenerators j) ⊂
      reach b ((c.addResidue j h).stabiliserGenerators j) := by
  rw [Set.ssubset_iff_of_subset (reach_mono (fun s hs =>
    mem_stabiliserGenerators_addResidue hres hres.bound hs))]
  exact ⟨h b, image_mem_reach (mem_residue_generators hres), hres.leaves b hb⟩

theorem size_lt_addResidue {c : StabiliserChain n} {j : Nat} {h : Perm n}
    (hres : c.Residue j h) : c.size < (c.addResidue j h).size := by
  unfold size
  rcases addResidue_base hres with ⟨hj, hbase, _⟩ | ⟨hj, x, hx, hbase, _⟩
  · rw [hbase]
    apply Finset.sum_lt_sum
    · intro l hl
      exact orbitSize_le_addResidue hres (Finset.mem_range.mp hl)
    · refine ⟨j, Finset.mem_range.mpr hj, ?_⟩
      unfold orbitSize
      rw [hbase, List.getElem?_eq_getElem hj]
      exact Set.ncard_lt_ncard
        (reach_ssubset_addResidue hres (List.getElem?_eq_getElem hj)) (Set.toFinite _)
  · rw [hbase, List.length_append, List.length_singleton, Finset.sum_range_succ]
    have hsum : ∑ l ∈ Finset.range c.base.length, c.orbitSize l ≤
        ∑ l ∈ Finset.range c.base.length, (c.addResidue j h).orbitSize l :=
      Finset.sum_le_sum (fun l hl =>
        orbitSize_le_addResidue hres (Finset.mem_range.mp hl))
    have hnew : 0 < (c.addResidue j h).orbitSize c.base.length := by
      unfold orbitSize
      rw [hbase, List.getElem?_concat_length]
      exact (Set.ncard_pos).mpr ⟨x, self_mem_reach x _⟩
    omega

theorem addResidue_ok {c : StabiliserChain n} {i j : Nat} {h : Perm n}
    (hok : c.Ok i) (hij : i ≤ j) (hres : c.Residue j h) :
    (c.addResidue j h).Ok (j + 1) := by
  rcases addResidue_base hres with ⟨hj, hbase, hlevels⟩ | ⟨hj, x, hx, hbase, hlevels⟩
  · refine ⟨by rw [hbase]; exact hok.nodup, by rw [hbase, hlevels]; exact hok.length,
      by rw [hbase]; exact hj, ?_⟩
    intro l b hl hb
    rw [hbase] at hb
    have hlt := (List.getElem?_eq_some_iff.mp hb).1
    rw [hlevels, stabiliserGenerators_addResidue hres (by omega) (Nat.le_of_lt hlt)]
    exact hok.current l b (by omega) hb
  · have hnew : x ∉ c.base := by
      intro hmem
      refine hx (hres.fixes x ?_)
      rw [hj, List.take_length]
      exact hmem
    refine ⟨?_, by rw [hbase, hlevels]; simp [hok.length], by rw [hbase, hj]; simp, ?_⟩
    · rw [hbase, List.nodup_append]
      refine ⟨hok.nodup, List.nodup_singleton x, ?_⟩
      intro a ha b hb
      rw [List.mem_singleton] at hb
      rintro rfl
      exact hnew (hb ▸ ha)
    · intro l b hl hb
      have hlt := (List.getElem?_eq_some_iff.mp hb).1
      rw [hbase, List.length_append, List.length_singleton] at hlt
      omega

/-- Level i as built by closeLevel. -/
theorem setLevel_ok {c : StabiliserChain n} {i : Nat} {b : Fin n}
    (hok : c.Ok (i + 1)) (hb : c.base[i]? = some b) :
    Ok { c with
      levels := c.levels.set i (buildLevel b (c.stabiliserGenerators i)) } i := by
  have hlt := (List.getElem?_eq_some_iff.mp hb).1
  refine ⟨hok.nodup, by simp [hok.length], Nat.le_of_lt hlt, ?_⟩
  intro l b' hl hb'
  rcases Nat.lt_or_eq_of_le hl with hlt' | heq
  · simp only
    rw [List.getElem?_set_ne (by omega)]
    exact hok.current l b' hlt' hb'
  · subst heq
    have hbb : b' = b := by
      have hb2 : c.base[i]? = some b' := hb'
      rw [hb, Option.some_inj] at hb2
      exact hb2.symm
    subst hbb
    simp only
    rw [List.getElem?_set_self (by rw [hok.length]; exact hlt)]
    rfl

theorem residue_spec {c : StabiliserChain n} {i : Nat} {b : Fin n} (hok : c.Ok i)
    (hb : c.base[i]? = some b) {H : Subgroup (Perm n)}
    (hstrong : forall s, s ∈ c.strong -> s ∈ H) {u s : Perm n}
    (hu : u ∈ (buildLevel b (c.stabiliserGenerators i)).reps)
    (hs : s ∈ c.stabiliserGenerators i) {j : Nat} {h : Perm n}
    (hres : c.residue i (buildLevel b (c.stabiliserGenerators i)) b u s =
      some (j, h)) :
    h ∈ H ∧ i < j ∧ c.Residue j h := by
  have hlt := (List.getElem?_eq_some_iff.mp hb).1
  rcases schreier_spec hb hstrong hu hs with ⟨hmem, hfix⟩
  have hsift := sift_spec hok hstrong _ (i + 1) _ rfl (Nat.le_succ i) hlt hmem hfix
  unfold residue at hres
  simp only at hres
  split_ifs at hres with hid
  rw [Option.some_inj] at hres
  rw [hres] at hsift hid
  refine ⟨hsift.1, hsift.2.1, hsift.2.2.1, hsift.2.2.2.1, hsift.2.2.2.2, ?_⟩
  -- The identity that passes every level is no residue; before that it leaves no orbit.
  intro hone
  have hjlen : j ≠ c.base.length := by
    intro hj
    exact hid ⟨hj, isIdentity_iff.mpr hone⟩
  have hjlt : j < c.base.length := Nat.lt_of_le_of_ne hsift.2.2.1 hjlen
  have hleaves := hsift.2.2.2.2 c.base[j] (List.getElem?_eq_getElem hjlt)
  simp only [hone] at hleaves
  exact hleaves (self_mem_reach _ _)

/-- The chain with level i rebuilt from the current generators. -/
def rebuilt (c : StabiliserChain n) (i : Nat) (b : Fin n) : StabiliserChain n :=
  { c with levels := c.levels.set i (buildLevel b (c.stabiliserGenerators i)) }

/-- A pass over a level finds no residue, or adds the first one. -/
theorem closeLevel_inv {c : StabiliserChain n} {i : Nat} {b : Fin n}
    (hok : c.Ok (i + 1)) (hb : c.base[i]? = some b)
    {H : Subgroup (Perm n)} (hstrong : forall s, s ∈ c.strong -> s ∈ H) :
    (c.closeLevel i = (c.rebuilt i b, none) ∧
      forall u s, u ∈ (buildLevel b (c.stabiliserGenerators i)).reps ->
        s ∈ c.stabiliserGenerators i ->
        (c.rebuilt i b).residue i (buildLevel b (c.stabiliserGenerators i)) b u s =
          none) ∨
    (exists j h, c.closeLevel i = ((c.rebuilt i b).addResidue j h, some j) ∧
      i < j ∧ h ∈ H ∧ (c.rebuilt i b).Residue j h) := by
  unfold closeLevel
  rw [hb]
  simp only
  split
  · rename_i hnone
    refine Or.inl ⟨rfl, ?_⟩
    intro u s hu hs
    exact List.findSome?_eq_none_iff.mp hnone (u, s)
      (List.mem_flatMap.mpr ⟨u, hu, List.mem_map.mpr ⟨s, hs, rfl⟩⟩)
  · rename_i j h hfind
    rcases List.exists_of_findSome?_eq_some hfind with ⟨p, hp, hres⟩
    rcases List.mem_flatMap.mp hp with ⟨u, hu, hp⟩
    rcases List.mem_map.mp hp with ⟨s, hs, rfl⟩
    rcases residue_spec (setLevel_ok hok hb) hb hstrong hu hs hres with
      ⟨hmem, hij, hresidue⟩
    exact Or.inr ⟨j, h, rfl, hij, hmem, hresidue⟩

/-- What one pass over a level does to the base, the group and the sizes. -/
theorem closeLevel_cases {c : StabiliserChain n} {i : Nat} (hok : c.Ok (i + 1))
    {H : Subgroup (Perm n)} (hstrong : forall s, s ∈ c.strong -> s ∈ H) :
    (exists c', c.closeLevel i = (c', none) ∧ c'.Ok i ∧ c'.base = c.base ∧
      c'.strong = c.strong) ∨
    (exists c' j, c.closeLevel i = (c', some j) ∧ c'.Ok (j + 1) ∧
      c.base <+: c'.base ∧ (forall s, s ∈ c'.strong -> s ∈ H) ∧
      c.size < c'.size) := by
  have hlt : i < c.base.length := hok.bound
  have hb : c.base[i]? = some c.base[i] := List.getElem?_eq_getElem hlt
  have hset := setLevel_ok hok hb
  rcases closeLevel_inv hok hb hstrong with ⟨heq, _⟩ | ⟨j, h, heq, hij, hmem, hres⟩
  · exact Or.inl ⟨_, heq, hset, rfl, rfl⟩
  · refine Or.inr ⟨_, j, heq, addResidue_ok hset (Nat.le_of_lt hij) hres, ?_, ?_,
      size_lt_addResidue hres⟩
    · rcases addResidue_base hres with ⟨_, hbase, _⟩ | ⟨_, x, _, hbase, _⟩
      · rw [hbase]
        exact List.prefix_refl _
      · rw [hbase]
        exact List.prefix_append _ _
    · intro s hs
      rw [addResidue_strong, List.mem_append, List.mem_singleton] at hs
      rcases hs with hs | rfl
      · exact hstrong s hs
      · exact hmem

/-!
## The loop
-/

/-- What bounds the steps that the loop still makes. -/
noncomputable def steps (c : StabiliserChain n) (i : Nat) : Nat :=
  (n * n - c.size) * (n + 1) + i

theorem steps_lt {c c' : StabiliserChain n} {i j : Nat} (h : c'.Ok (j + 1))
    (hsize : c.size < c'.size) : c'.steps (j + 1) < c.steps (i + 1) := by
  have hj : j + 1 ≤ n := Nat.le_trans h.bound (base_length_le h.nodup)
  have hle := size_le h.nodup
  unfold steps
  obtain ⟨d, hd⟩ : exists d, n * n - c.size = (n * n - c'.size) + (d + 1) :=
    ⟨c'.size - c.size - 1, by omega⟩
  rw [hd, Nat.add_mul, Nat.add_mul d]
  omega

theorem size_eq {c c' : StabiliserChain n} (hbase : c'.base = c.base)
    (hstrong : c'.strong = c.strong) : c'.size = c.size := by
  have hgens : c'.stabiliserGenerators = c.stabiliserGenerators := by
    funext l
    unfold stabiliserGenerators
    rw [hstrong, hbase]
  have horbit : c'.orbitSize = c.orbitSize := by
    funext l
    unfold orbitSize
    rw [hgens, hbase]
  unfold size
  rw [horbit, hbase]

/-- The loop ends before its fuel does, and keeps what every pass keeps. -/
theorem closeLoop_rule {P : StabiliserChain n -> Nat -> Prop}
    (hpass : forall c i, c.Ok (i + 1) -> P c (i + 1) ->
      match c.closeLevel i with
      | (c', none) => P c' i
      | (c', some j) => P c' (j + 1)) :
    forall fuel i (c : StabiliserChain n), c.Ok i -> P c i -> c.steps i < fuel ->
      P (closeLoop fuel i c) 0 ∧
        forall extra, closeLoop (fuel + extra) i c = closeLoop fuel i c := by
  intro fuel
  induction fuel with
  | zero =>
      intro i c _ _ hfuel
      exact absurd hfuel (Nat.not_lt_zero _)
  | succ fuel ih =>
      intro i c hok hP hfuel
      cases i with
      | zero =>
          refine ⟨hP, ?_⟩
          intro extra
          rw [Nat.add_right_comm]
          rfl
      | succ i =>
          have hstep : forall extra, closeLoop (fuel + 1 + extra) (i + 1) c =
              match c.closeLevel i with
              | (c', none) => closeLoop (fuel + extra) i c'
              | (c', some j) => closeLoop (fuel + extra) (j + 1) c' := by
            intro extra
            rw [Nat.add_right_comm, closeLoop]
          have hkeep := hpass c i hok hP
          -- The pass leaves i or j + 1 to close; either way fewer steps remain.
          rcases closeLevel_cases (H := ⊤) hok (fun _ _ => Subgroup.mem_top _) with
            ⟨c', heq, hok', hbase, hsame⟩ | ⟨c', j, heq, hok', _, _, hsize⟩
          · simp only [heq] at hstep hkeep
            have hsteps : c'.steps i < fuel := by
              unfold steps at hfuel ⊢
              rw [size_eq hbase hsame]
              omega
            rcases ih i c' hok' hkeep hsteps with ⟨hend, hextra⟩
            have hnow := hstep 0
            rw [Nat.add_zero, Nat.add_zero] at hnow
            rw [hnow]
            exact ⟨hend, fun extra => (hstep extra).trans (hextra extra)⟩
          · simp only [heq] at hstep hkeep
            have hsteps : c'.steps (j + 1) < fuel :=
              Nat.lt_of_lt_of_le (steps_lt (i := i) hok' hsize) (Nat.le_of_lt_succ hfuel)
            rcases ih (j + 1) c' hok' hkeep hsteps with ⟨hend, hextra⟩
            have hnow := hstep 0
            rw [Nat.add_zero, Nat.add_zero] at hnow
            rw [hnow]
            exact ⟨hend, fun extra => (hstep extra).trans (hextra extra)⟩

/-- A pass keeps the group, and the base as a prefix. -/
theorem closeLevel_keeps {base : List (Fin n)} {H : Subgroup (Perm n)}
    (c : StabiliserChain n) (i : Nat) (hok : c.Ok (i + 1))
    (h : base <+: c.base ∧ forall s, s ∈ c.strong -> s ∈ H) :
    match c.closeLevel i with
    | (c', none) => base <+: c'.base ∧ forall s, s ∈ c'.strong -> s ∈ H
    | (c', some _) => base <+: c'.base ∧ forall s, s ∈ c'.strong -> s ∈ H := by
  rcases closeLevel_cases hok h.2 with
    ⟨c', heq, _, hbase, hsame⟩ | ⟨c', j, heq, _, hbase, hmem, _⟩
  · rw [heq]
    simp only [hbase, hsame]
    exact h
  · rw [heq]
    exact ⟨h.1.trans hbase, hmem⟩

theorem extendBase_spec {base : List (Fin n)} (hnodup : base.Nodup)
    (gens : List (Perm n)) :
    (extendBase base gens).Nodup ∧ base <+: extendBase base gens := by
  unfold extendBase
  induction gens generalizing base with
  | nil => exact ⟨hnodup, List.prefix_refl base⟩
  | cons s rest ih =>
      rw [List.foldl_cons]
      by_cases hfix : fixesPrefix base s base.length = true
      · rw [if_pos hfix]
        have hnext : (base ++ (firstMoved s).toList).Nodup := by
          cases hmoved : firstMoved s with
          | none => simpa using hnodup
          | some x =>
              have hx : x ∉ base := by
                intro hmem
                rw [fixesPrefix_iff, List.take_length] at hfix
                exact firstMoved_spec hmoved (hfix x hmem)
              rw [Option.toList_some, List.nodup_append]
              refine ⟨hnodup, List.nodup_singleton x, ?_⟩
              intro a ha b hb
              rw [List.mem_singleton] at hb
              rintro rfl
              exact hx (hb ▸ ha)
        rcases ih hnext with ⟨hend, hstart⟩
        exact ⟨hend, (List.prefix_append base _).trans hstart⟩
      · rw [if_neg hfix]
        exact ih hnodup

theorem init_ok {base : List (Fin n)} (hnodup : base.Nodup)
    (gens : List (Perm n)) : (init base gens).Ok (init base gens).base.length := by
  refine ⟨(extendBase_spec hnodup gens).1, by simp [init], Nat.le_refl _, ?_⟩
  intro l b hl hb
  exact absurd (List.getElem?_eq_some_iff.mp hb).1 (Nat.not_lt.mpr hl)

theorem init_steps_lt {base : List (Fin n)} (hnodup : base.Nodup)
    (gens : List (Perm n)) :
    (init base gens).steps (init base gens).base.length < closeFuel n := by
  have hlen := base_length_le (init_ok hnodup gens).nodup
  have hmul : (n * n - (init base gens).size) * (n + 1) ≤ n * n * (n + 1) :=
    Nat.mul_le_mul_right _ (Nat.sub_le _ _)
  unfold steps closeFuel
  rw [Nat.add_mul (n * n)]
  omega

/-- The construction ends by itself, with what every pass keeps. -/
theorem build_rule {base : List (Fin n)} (hnodup : base.Nodup) {gens : List (Perm n)}
    {P : StabiliserChain n -> Nat -> Prop}
    (hpass : forall c i, c.Ok (i + 1) -> P c (i + 1) ->
      match c.closeLevel i with
      | (c', none) => P c' i
      | (c', some j) => P c' (j + 1))
    (hinit : P (init base gens) (init base gens).base.length) :
    P (build base gens) 0 ∧
      forall extra, closeLoop (closeFuel n + extra) (init base gens).base.length
        (init base gens) = build base gens :=
  closeLoop_rule hpass (closeFuel n) _ _ (init_ok hnodup gens) hinit
    (init_steps_lt hnodup gens)

theorem build_keeps {base : List (Fin n)} (hnodup : base.Nodup) {gens : List (Perm n)}
    {H : Subgroup (Perm n)} (hgens : forall s, s ∈ gens -> s ∈ H) :
    base <+: (build base gens).base ∧ forall s, s ∈ (build base gens).strong -> s ∈ H :=
  (build_rule (P := fun c _ => base <+: c.base ∧ forall s, s ∈ c.strong -> s ∈ H)
    hnodup closeLevel_keeps ⟨(extendBase_spec hnodup gens).2, hgens⟩).1

/-- The generators of a stabiliser lie in the group and fix the base they were asked for. -/
theorem build_generators {base : List (Fin n)} (hnodup : base.Nodup)
    {gens : List (Perm n)} {H : Subgroup (Perm n)}
    (hgens : forall s, s ∈ gens -> s ∈ H) {s : Perm n}
    (hs : s ∈ (build base gens).stabiliserGenerators base.length) :
    s ∈ H ∧ forall b, b ∈ base -> s b = b := by
  rw [mem_stabiliserGenerators] at hs
  rcases build_keeps hnodup hgens with ⟨hstart, hstrong⟩
  refine ⟨hstrong s hs.1, ?_⟩
  intro b hb
  apply hs.2
  rwa [List.prefix_iff_eq_take.mp hstart] at hb

end StabiliserChain

end Identity
end Topology
end Ostia

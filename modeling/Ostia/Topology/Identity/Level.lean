import Mathlib.Algebra.Group.End
import Mathlib.Algebra.Group.Subgroup.Lattice
import Mathlib.Data.Fintype.EquivFin
import Mathlib.Data.List.FinRange
import Mathlib.GroupTheory.Perm.Finite

/-!
# One level of a stabiliser chain

A level belongs to a base point.  It holds the orbit of the point under some
permutations, with one coset representative for each orbit point, found in
breadth-first order from the identity.

A representative maps the base point to its orbit point and lies in every group
that holds the permutations, and the indexed points are the whole orbit.
-/

namespace Ostia
namespace Topology
namespace Identity

variable {n : Nat}

/-- A permutation of the vertices; a vector whose entries are all different. -/
abbrev Perm (n : Nat) : Type := Equiv.Perm (Fin n)

/-- Left to right: first a, then b. -/
def compose (a b : Perm n) : Perm n := a.trans b

def isIdentity (p : Perm n) : Bool := decide (forall x, p x = x)

def firstMoved (p : Perm n) : Option (Fin n) :=
  (List.finRange n).find? (fun x => p x ≠ x)

/-!
## Levels
-/

structure Level (n : Nat) where
  /-- The coset representative of a point, nothing off the orbit. -/
  index : Fin n -> Option Nat
  reps : List (Perm n)
  inv : List (Perm n)

def Level.empty : Level n := ⟨fun _ => none, [], []⟩

/-- Reach the image under a generator of the point that a representative reaches. -/
def Level.extend (b : Fin n) (u : Perm n) (level : Level n) (s : Perm n) :
    Level n :=
  let z := s (u b)
  if (level.index z).isSome then level
  else
    { level with
      index := Function.update level.index z (some level.reps.length)
      reps := level.reps ++ [compose u s] }

/-- The loop over the representatives found so far, from the k-th on. -/
def growLevel (b : Fin n) (gens : List (Perm n)) :
    Nat -> Nat -> Level n -> Level n
  | 0, _, level => level
  | fuel + 1, k, level =>
      match level.reps[k]? with
      | none => level
      | some u => growLevel b gens fuel (k + 1) (gens.foldl (Level.extend b u) level)

def buildLevel (b : Fin n) (gens : List (Perm n)) : Level n :=
  let level := growLevel b gens n 0
    ⟨fun x => if x = b then some 0 else none, [Equiv.refl _], []⟩
  { level with inv := level.reps.map Equiv.symm }

/-!
## What a level holds
-/

theorem isIdentity_iff {p : Perm n} : isIdentity p = true <-> p = 1 := by
  unfold isIdentity
  rw [decide_eq_true_eq]
  constructor
  · intro h
    exact Equiv.ext h
  · rintro rfl x
    rfl

theorem firstMoved_spec {p : Perm n} {x : Fin n} (h : firstMoved p = some x) :
    p x ≠ x := by
  unfold firstMoved at h
  simpa using List.find?_some h

theorem exists_firstMoved {p : Perm n} (h : p ≠ 1) :
    exists x, firstMoved p = some x := by
  unfold firstMoved
  cases hfind : (List.finRange n).find? (fun x => decide (p x ≠ x)) with
  | some x => exact ⟨x, rfl⟩
  | none =>
      exfalso
      apply h
      apply Equiv.ext
      intro x
      rw [List.find?_eq_none] at hfind
      simpa using hfind x (List.mem_finRange x)

/-- The representatives reach the indexed points and lie in a group. -/
structure LevelOk (b : Fin n) (H : Subgroup (Perm n)) (level : Level n) : Prop where
  point : forall z k, level.index z = some k ->
    exists u, level.reps[k]? = some u ∧ u b = z
  index : forall k u, level.reps[k]? = some u -> level.index (u b) = some k
  mem : forall u, u ∈ level.reps -> u ∈ H

theorem compose_mem {H : Subgroup (Perm n)} {a b : Perm n} (ha : a ∈ H)
    (hb : b ∈ H) : compose a b ∈ H :=
  H.mul_mem hb ha

@[simp] theorem compose_apply (a b : Perm n) (x : Fin n) :
    compose a b x = b (a x) := rfl

theorem LevelOk.reps_length_le {b : Fin n} {H : Subgroup (Perm n)}
    {level : Level n} (h : LevelOk b H level) : level.reps.length ≤ n := by
  have hinj : Function.Injective
      (fun k : Fin level.reps.length => (level.reps.get k) b) := by
    intro k k' hk
    have h1 := h.index k (level.reps.get k) (by simp)
    have h2 := h.index k' (level.reps.get k') (by simp)
    have hk' : (level.reps.get k) b = (level.reps.get k') b := hk
    rw [hk', h2] at h1
    exact Fin.ext (Option.some_inj.mp h1).symm
  simpa using Fintype.card_le_of_injective _ hinj

/-- What extending a level can change. -/
theorem extend_cases (b : Fin n) (u : Perm n) (level : Level n) (s : Perm n) :
    ((level.index (s (u b))).isSome ∧ level.extend b u s = level) ∨
    (level.index (s (u b)) = none ∧
      (level.extend b u s).index =
        Function.update level.index (s (u b)) (some level.reps.length) ∧
      (level.extend b u s).reps = level.reps ++ [compose u s]) := by
  unfold Level.extend
  cases h : level.index (s (u b)) with
  | none => exact Or.inr ⟨rfl, by simp [h], by simp [h]⟩
  | some k => exact Or.inl ⟨rfl, by simp [h]⟩

theorem extend_ok {b : Fin n} {H : Subgroup (Perm n)} {level : Level n}
    (h : LevelOk b H level) {u s : Perm n} (hu : u ∈ H) (hs : s ∈ H) :
    LevelOk b H (level.extend b u s) := by
  rcases extend_cases b u level s with ⟨_, heq⟩ | ⟨hnone, hindex, hreps⟩
  · rw [heq]
    exact h
  · constructor
    · intro z k hz
      rw [hindex, Function.update_apply] at hz
      rw [hreps]
      by_cases hzs : z = s (u b)
      · rw [if_pos hzs, Option.some_inj] at hz
        exact ⟨compose u s, by rw [← hz]; simp, hzs.symm⟩
      · rw [if_neg hzs] at hz
        rcases h.point z k hz with ⟨v, hv, hvb⟩
        refine ⟨v, ?_, hvb⟩
        have hlt : k < level.reps.length := (List.getElem?_eq_some_iff.mp hv).1
        rw [List.getElem?_append_left hlt]
        exact hv
    · intro k v hv
      rw [hreps] at hv
      rw [hindex, Function.update_apply]
      rcases Nat.lt_trichotomy k level.reps.length with hlt | heq | hgt
      · rw [List.getElem?_append_left hlt] at hv
        have hk := h.index k v hv
        have hne : v b ≠ s (u b) := by
          intro hvb
          rw [hvb, hnone] at hk
          cases hk
        rw [if_neg hne, hk]
      · rw [heq, List.getElem?_concat_length, Option.some_inj] at hv
        rw [← hv, heq, compose_apply, if_pos rfl]
      · rw [List.getElem?_eq_none (by simp; omega)] at hv
        cases hv
    · intro v hv
      rw [hreps, List.mem_append, List.mem_singleton] at hv
      rcases hv with hv | rfl
      · exact h.mem v hv
      · exact compose_mem hu hs

theorem extend_index_mono {b : Fin n} {u s : Perm n} {level : Level n}
    {z : Fin n} {k : Nat} (hz : level.index z = some k) :
    (level.extend b u s).index z = some k := by
  rcases extend_cases b u level s with ⟨_, heq⟩ | ⟨hnone, hindex, _⟩
  · rw [heq]
    exact hz
  · have hne : z ≠ s (u b) := by
      rintro rfl
      rw [hnone] at hz
      cases hz
    rw [hindex, Function.update_of_ne hne]
    exact hz

theorem extend_reps_mono {b : Fin n} {u s : Perm n} {level : Level n} {k : Nat}
    {v : Perm n} (hv : level.reps[k]? = some v) :
    (level.extend b u s).reps[k]? = some v := by
  rcases extend_cases b u level s with ⟨_, heq⟩ | ⟨_, _, hreps⟩
  · rw [heq]
    exact hv
  · rw [hreps, List.getElem?_append_left (List.getElem?_eq_some_iff.mp hv).1]
    exact hv

theorem extend_index_image (b : Fin n) (u : Perm n) (level : Level n) (s : Perm n) :
    ((level.extend b u s).index (s (u b))).isSome := by
  rcases extend_cases b u level s with ⟨hsome, heq⟩ | ⟨_, hindex, _⟩
  · rw [heq]
    exact hsome
  · rw [hindex, Function.update_self]
    rfl

section Fold

variable {b : Fin n} {H : Subgroup (Perm n)} {u : Perm n}

theorem foldl_extend_ok {gens : List (Perm n)} {level : Level n}
    (h : LevelOk b H level) (hu : u ∈ H) (hgens : forall s, s ∈ gens -> s ∈ H) :
    LevelOk b H (gens.foldl (Level.extend b u) level) := by
  induction gens generalizing level with
  | nil => exact h
  | cons s rest ih =>
      exact ih (extend_ok h hu (hgens s List.mem_cons_self))
        (fun s' hs' => hgens s' (List.mem_cons_of_mem s hs'))

theorem foldl_extend_index {gens : List (Perm n)} {level : Level n} {z : Fin n}
    {k : Nat} (hz : level.index z = some k) :
    (gens.foldl (Level.extend b u) level).index z = some k := by
  induction gens generalizing level with
  | nil => exact hz
  | cons s rest ih => exact ih (extend_index_mono hz)

theorem foldl_extend_reps (b : Fin n) (u : Perm n) (gens : List (Perm n))
    {level : Level n} {k : Nat} {v : Perm n} (hv : level.reps[k]? = some v) :
    (gens.foldl (Level.extend b u) level).reps[k]? = some v := by
  induction gens generalizing level with
  | nil => exact hv
  | cons s rest ih => exact ih (extend_reps_mono hv)

theorem foldl_extend_image {gens : List (Perm n)} {level : Level n} {s : Perm n}
    (hs : s ∈ gens) :
    ((gens.foldl (Level.extend b u) level).index (s (u b))).isSome := by
  induction gens generalizing level with
  | nil =>
      cases hs
  | cons s' rest ih =>
      rcases List.mem_cons.mp hs with rfl | hs
      · rcases Option.isSome_iff_exists.mp (extend_index_image b u level s) with
          ⟨k, hk⟩
        rw [List.foldl_cons, foldl_extend_index hk]
        rfl
      · exact ih hs

end Fold

/-- The images of the first k representatives under the generators are indexed. -/
def ClosedBelow (b : Fin n) (gens : List (Perm n)) (k : Nat) (level : Level n) :
    Prop :=
  forall k' u, k' < k -> level.reps[k']? = some u ->
    forall s, s ∈ gens -> (level.index (s (u b))).isSome

theorem growLevel_spec {b : Fin n} {H : Subgroup (Perm n)}
    {gens : List (Perm n)} (hgens : forall s, s ∈ gens -> s ∈ H) :
    forall fuel k (level : Level n), LevelOk b H level ->
      ClosedBelow b gens k level -> n ≤ fuel + k ->
      LevelOk b H (growLevel b gens fuel k level) ∧
        ClosedBelow b gens n (growLevel b gens fuel k level) ∧
        forall z j, level.index z = some j ->
          (growLevel b gens fuel k level).index z = some j := by
  intro fuel
  induction fuel with
  | zero =>
      intro k level hok hclosed hfuel
      refine ⟨hok, ?_, fun _ _ h => h⟩
      intro k' u hk'
      exact hclosed k' u (by omega)
  | succ fuel ih =>
      intro k level hok hclosed hfuel
      rw [growLevel]
      cases hk : level.reps[k]? with
      | none =>
          refine ⟨hok, ?_, fun _ _ h => h⟩
          intro k' u _ hu
          have hlt : k' < level.reps.length := (List.getElem?_eq_some_iff.mp hu).1
          have hlen : level.reps.length ≤ k := List.getElem?_eq_none_iff.mp hk
          exact hclosed k' u (by omega) hu
      | some u =>
          have hu : u ∈ H := hok.mem u (List.mem_of_getElem? hk)
          have hok' := foldl_extend_ok hok hu hgens
          have hclosed' : ClosedBelow b gens (k + 1)
              (gens.foldl (Level.extend b u) level) := by
            intro k' v hk' hv s hs
            rcases Nat.lt_or_eq_of_le (Nat.le_of_lt_succ hk') with hlt | heq
            · -- Below k the representative was there before the fold.
              have hklen := (List.getElem?_eq_some_iff.mp hk).1
              have hold : level.reps[k']? = some level.reps[k'] :=
                List.getElem?_eq_getElem (by omega)
              have hsame := foldl_extend_reps b u gens hold
              rw [hv, Option.some_inj] at hsame
              subst hsame
              rcases Option.isSome_iff_exists.mp
                  (hclosed k' _ hlt hold s hs) with ⟨j, hj⟩
              rw [foldl_extend_index hj]
              rfl
            · subst heq
              have hsame := foldl_extend_reps b u gens hk
              rw [hv, Option.some_inj] at hsame
              subst hsame
              exact foldl_extend_image hs
          rcases ih (k + 1) _ hok' hclosed' (by omega) with ⟨h1, h2, h3⟩
          exact ⟨h1, h2, fun z j hz => h3 z j (foldl_extend_index hz)⟩

/-- The representatives of a built level, their group and their closure. -/
theorem buildLevel_spec {b : Fin n} {H : Subgroup (Perm n)}
    {gens : List (Perm n)} (hgens : forall s, s ∈ gens -> s ∈ H) :
    LevelOk b H (buildLevel b gens) ∧
      (buildLevel b gens).inv = (buildLevel b gens).reps.map Equiv.symm ∧
      (buildLevel b gens).index b = some 0 ∧
      forall z, ((buildLevel b gens).index z).isSome -> forall s, s ∈ gens ->
        ((buildLevel b gens).index (s z)).isSome := by
  have hstart : LevelOk b H
      ⟨fun x => if x = b then some 0 else none, [Equiv.refl _], []⟩ := by
    constructor
    · intro z k hz
      by_cases hzb : z = b
      · simp only [hzb, if_true, Option.some_inj] at hz
        exact ⟨Equiv.refl _, by rw [← hz]; rfl, hzb.symm⟩
      · simp [hzb] at hz
    · intro k u hu
      cases k with
      | zero =>
          simp only [List.getElem?_cons_zero, Option.some_inj] at hu
          simp [← hu]
      | succ k => simp at hu
    · intro u hu
      rw [List.mem_singleton] at hu
      rw [hu]
      exact H.one_mem
  have hclosed : ClosedBelow b gens 0
      ⟨fun x => if x = b then some 0 else none, [Equiv.refl _], []⟩ := by
    intro k' u hk'
    exact absurd hk' (Nat.not_lt_zero k')
  rcases growLevel_spec hgens n 0 _ hstart hclosed (by omega) with
    ⟨hok, hend, hmono⟩
  refine ⟨⟨hok.point, hok.index, hok.mem⟩, rfl, hmono b 0 (by simp), ?_⟩
  intro z hz s hs
  rcases Option.isSome_iff_exists.mp hz with ⟨k, hk⟩
  rcases hok.point z k hk with ⟨u, hu, hub⟩
  have hlt : k < n :=
    Nat.lt_of_lt_of_le (List.getElem?_eq_some_iff.mp hu).1 hok.reps_length_le
  rw [← hub]
  exact hend k u hlt hu s hs

/-!
## Orbits
-/

/-- The points that the group of some permutations reaches from a point. -/
def reach (b : Fin n) (gens : List (Perm n)) : Set (Fin n) :=
  { z | exists u, u ∈ Subgroup.closure { s | s ∈ gens } ∧ u b = z }

theorem self_mem_reach (b : Fin n) (gens : List (Perm n)) : b ∈ reach b gens :=
  ⟨1, Subgroup.one_mem _, rfl⟩

theorem image_mem_reach {b : Fin n} {gens : List (Perm n)} {s : Perm n}
    (hs : s ∈ gens) : s b ∈ reach b gens :=
  ⟨s, Subgroup.subset_closure hs, rfl⟩

theorem reach_mono {b : Fin n} {gens gens' : List (Perm n)}
    (h : forall s, s ∈ gens -> s ∈ gens') : reach b gens ⊆ reach b gens' := by
  rintro z ⟨u, hu, rfl⟩
  exact ⟨u, Subgroup.closure_mono h hu, rfl⟩

/-- A built level indexes exactly the orbit of its base point. -/
theorem index_isSome_iff {b : Fin n} {gens : List (Perm n)} {z : Fin n} :
    ((buildLevel b gens).index z).isSome <-> z ∈ reach b gens := by
  have hgens : forall s, s ∈ gens -> s ∈ Subgroup.closure { s | s ∈ gens } :=
    fun s hs => Subgroup.subset_closure hs
  rcases buildLevel_spec (b := b) hgens with ⟨hok, _, hbase, hclosed⟩
  constructor
  · intro hz
    rcases Option.isSome_iff_exists.mp hz with ⟨k, hk⟩
    rcases hok.point z k hk with ⟨u, hu, hub⟩
    exact ⟨u, hok.mem u (List.mem_of_getElem? hu), hub⟩
  · rintro ⟨u, hu, rfl⟩
    -- The indexed points are closed under the group: a finite set that a
    -- permutation maps into itself is mapped into itself by the inverse too.
    have hmaps : Set.MapsTo u { x | ((buildLevel b gens).index x).isSome }
        { x | ((buildLevel b gens).index x).isSome } := by
      induction hu using Subgroup.closure_induction with
      | mem s hs =>
          intro x hx
          exact hclosed x hx s hs
      | one =>
          intro x hx
          exact hx
      | mul a c _ _ ha hc =>
          intro x hx
          exact ha (hc hx)
      | inv a _ ha => exact Equiv.Perm.perm_symm_mapsTo_of_mapsTo a ha
    apply hmaps
    rw [Set.mem_ofPred_eq, hbase]
    rfl

theorem inv_getD_mem {b : Fin n} {H : Subgroup (Perm n)} {gens : List (Perm n)}
    (hgens : forall s, s ∈ gens -> s ∈ H) {z : Fin n} {k : Nat}
    (hz : (buildLevel b gens).index z = some k) :
    (buildLevel b gens).inv.getD k (Equiv.refl _) ∈ H ∧
      (buildLevel b gens).inv.getD k (Equiv.refl _) z = b := by
  rcases buildLevel_spec (b := b) hgens with ⟨hok, hinv, _, _⟩
  rcases hok.point z k hz with ⟨u, hu, hub⟩
  have hget : (buildLevel b gens).inv.getD k (Equiv.refl _) = u.symm := by
    rw [hinv, List.getD_eq_getElem?_getD, List.getElem?_map, hu]
    rfl
  rw [hget, Equiv.symm_apply_eq]
  exact ⟨H.inv_mem (hok.mem u (List.mem_of_getElem? hu)), hub.symm⟩

end Identity
end Topology
end Ostia

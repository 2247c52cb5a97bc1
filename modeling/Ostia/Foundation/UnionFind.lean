import Mathlib.Data.Fin.Basic
import Mathlib.Logic.Function.Basic
import Mathlib.Order.Defs.LinearOrder
import Mathlib.Order.Fin.Basic

/-!
# Union-find on an initial segment of the numbers

Every point has a parent that is not larger than itself; a point that is its own
parent is a root.  Finding a root halves the path on the way, and joining two
points hangs the larger root under the smaller one.

Whatever equivalence holds between joined points holds between each point and
its root, so the classes read off a forest never hold unrelated points.
-/

namespace Ostia
namespace Foundation
namespace UnionFind

variable {n : Nat}

structure Forest (n : Nat) where
  root : Fin n -> Fin n
  le : forall x, root x ≤ x

def Forest.start (n : Nat) : Forest n := ⟨id, fun _ => le_refl _⟩

/-- Point x at its grandparent. -/
def Forest.halve (f : Forest n) (x : Fin n) : Forest n where
  root := Function.update f.root x (f.root (f.root x))
  le y := by
    rw [Function.update_apply]
    split_ifs with h
    · exact le_trans (f.le _) (by rw [h]; exact f.le x)
    · exact f.le y

/-- Walk up from x, halving the path; each step reaches a smaller point. -/
def Forest.findFrom : Nat -> Forest n -> Fin n -> Forest n × Fin n
  | 0, f, x => (f, x)
  | fuel + 1, f, x =>
      if f.root x = x then (f, x)
      else findFrom fuel (f.halve x) (f.root (f.root x))

def Forest.find (f : Forest n) (x : Fin n) : Forest n × Fin n :=
  f.findFrom (x.val + 1) x

/-- Hang the larger of two points under the smaller. -/
def Forest.hang (f : Forest n) (a b : Fin n) : Forest n where
  root := Function.update f.root (max a b) (min a b)
  le y := by
    rw [Function.update_apply]
    split_ifs with h
    · rw [h]
      exact le_trans (min_le_left a b) (le_max_left a b)
    · exact f.le y

def Forest.union (f : Forest n) (x y : Fin n) : Forest n :=
  let (f, a) := f.find x
  let (f, b) := f.find y
  if a ≠ b then f.hang a b else f

/-- The classes met so far: the number of each root's class and the classes. -/
structure Classes (n : Nat) where
  forest : Forest n
  slot : Fin n -> Option Nat
  lists : List (List (Fin n))

/-- Put a point into the class of its root, a new class for a new root. -/
def Classes.place (c : Classes n) (x : Fin n) : Classes n :=
  let (forest, r) := c.forest.find x
  match c.slot r with
  | some k => { forest := forest, slot := c.slot, lists := c.lists.modify k (· ++ [x]) }
  | none =>
      { forest := forest
        slot := Function.update c.slot r (some c.lists.length)
        lists := c.lists ++ [[x]] }

/-- The points of a list by root, the classes ordered by first member. -/
def Forest.classes (f : Forest n) (points : List (Fin n)) : List (List (Fin n)) :=
  (points.foldl Classes.place ⟨f, fun _ => none, []⟩).lists

/-!
## What a forest joins
-/

section Soundness

variable {R : Fin n -> Fin n -> Prop}

/-- Every point is related to its parent. -/
def Sound (R : Fin n -> Fin n -> Prop) (f : Forest n) : Prop :=
  forall x, R x (f.root x)

theorem start_sound (hR : Equivalence R) : Sound R (Forest.start n) :=
  fun x => hR.refl x

theorem halve_sound (hR : Equivalence R) {f : Forest n} (h : Sound R f)
    (x : Fin n) : Sound R (f.halve x) := by
  intro y
  unfold Forest.halve
  dsimp only
  rw [Function.update_apply]
  split_ifs with hy
  · rw [hy]
    exact hR.trans (h x) (h (f.root x))
  · exact h y

theorem findFrom_sound (hR : Equivalence R) :
    forall fuel (f : Forest n) (x : Fin n), Sound R f ->
      Sound R (f.findFrom fuel x).1 ∧ R x (f.findFrom fuel x).2 := by
  intro fuel
  induction fuel with
  | zero =>
      intro f x h
      exact ⟨h, hR.refl x⟩
  | succ fuel ih =>
      intro f x h
      rw [Forest.findFrom]
      split_ifs with hroot
      · exact ⟨h, hR.refl x⟩
      · rcases ih (f.halve x) (f.root (f.root x)) (halve_sound hR h x) with
          ⟨hsound, hrel⟩
        exact ⟨hsound, hR.trans (hR.trans (h x) (h (f.root x))) hrel⟩

theorem find_sound (hR : Equivalence R) {f : Forest n} (h : Sound R f)
    (x : Fin n) : Sound R (f.find x).1 ∧ R x (f.find x).2 :=
  findFrom_sound hR _ f x h

theorem union_sound (hR : Equivalence R) {f : Forest n} (h : Sound R f)
    {x y : Fin n} (hxy : R x y) : Sound R (f.union x y) := by
  rcases find_sound hR h x with ⟨h1, hx⟩
  rcases find_sound hR h1 y with ⟨h2, hy⟩
  have hab : R (f.find x).2 ((f.find x).1.find y).2 :=
    hR.trans (hR.symm hx) (hR.trans hxy hy)
  unfold Forest.union
  dsimp only
  split_ifs with hne
  · intro z
    unfold Forest.hang
    dsimp only
    rw [Function.update_apply]
    split_ifs with hz
    · rw [hz]
      rcases le_total (f.find x).2 ((f.find x).1.find y).2 with hle | hle
      · rw [max_eq_right hle, min_eq_left hle]
        exact hR.symm hab
      · rw [max_eq_left hle, min_eq_right hle]
        exact hab
    · exact h2 z
  · exact h2

/-!
## Classes
-/

/-- A class belongs to one root, to which all its members are related. -/
structure ClassesOk (R : Fin n -> Fin n -> Prop) (c : Classes n) : Prop where
  sound : Sound R c.forest
  slot : forall r k, c.slot r = some k ->
    exists l, c.lists[k]? = some l ∧ forall x, x ∈ l -> R x r
  owner : forall k l, c.lists[k]? = some l -> exists r, c.slot r = some k
  slot_inj : forall r r' k, c.slot r = some k -> c.slot r' = some k -> r = r'

theorem place_ok (hR : Equivalence R) {c : Classes n} (h : ClassesOk R c)
    (x : Fin n) : ClassesOk R (c.place x) := by
  rcases find_sound hR h.sound x with ⟨hsound, hx⟩
  unfold Classes.place
  dsimp only
  cases hslot : c.slot (c.forest.find x).2 with
  | some k =>
      refine ⟨hsound, ?_, ?_, h.slot_inj⟩
      · intro r k' hr
        rcases h.slot r k' hr with ⟨l, hl, hall⟩
        dsimp only
        rw [List.getElem?_modify, hl]
        by_cases hk : k = k'
        · subst hk
          have hr' := h.slot_inj _ _ _ hslot hr
          refine ⟨l ++ [x], by simp, ?_⟩
          intro y hy
          rw [List.mem_append, List.mem_singleton] at hy
          rcases hy with hy | rfl
          · exact hall y hy
          · rw [← hr']
            exact hx
        · exact ⟨l, by simp [hk], hall⟩
      · intro k' l' hl'
        dsimp only at hl'
        rw [List.getElem?_modify] at hl'
        cases hl : c.lists[k']? with
        | none =>
            rw [hl] at hl'
            cases hl'
        | some l => exact h.owner k' l hl
  | none =>
      have hbound : forall r k, c.slot r = some k -> k < c.lists.length := by
        intro r k hr
        rcases h.slot r k hr with ⟨l, hl, _⟩
        exact (List.getElem?_eq_some_iff.mp hl).1
      refine ⟨hsound, ?_, ?_, ?_⟩
      · intro r k hr
        dsimp only at hr ⊢
        rw [Function.update_apply] at hr
        split_ifs at hr with hroot
        · rw [Option.some_inj] at hr
          subst hr
          refine ⟨[x], by simp, ?_⟩
          intro y hy
          rw [List.mem_singleton] at hy
          rw [hy, hroot]
          exact hx
        · rcases h.slot r k hr with ⟨l, hl, hall⟩
          rw [List.getElem?_append_left (hbound r k hr)]
          exact ⟨l, hl, hall⟩
      · intro k l hl
        dsimp only at hl ⊢
        by_cases hk : k < c.lists.length
        · rw [List.getElem?_append_left hk] at hl
          rcases h.owner k l hl with ⟨r, hr⟩
          refine ⟨r, ?_⟩
          rw [Function.update_of_ne]
          · exact hr
          · rintro rfl
            rw [hslot] at hr
            cases hr
        · have hlen := (List.getElem?_eq_some_iff.mp hl).1
          rw [List.length_append, List.length_singleton] at hlen
          refine ⟨(c.forest.find x).2, ?_⟩
          rw [Function.update_self, show k = c.lists.length by omega]
      · intro r r' k hr hr'
        dsimp only at hr hr'
        rw [Function.update_apply] at hr hr'
        split_ifs at hr hr' with h1 h2 h2
        · rw [h1, h2]
        · rw [Option.some_inj] at hr
          exact absurd (hbound r' k hr') (by omega)
        · rw [Option.some_inj] at hr'
          exact absurd (hbound r k hr) (by omega)
        · exact h.slot_inj r r' k hr hr'

theorem place_mem (c : Classes n) (x : Fin n)
    (hslot : forall r k, c.slot r = some k -> k < c.lists.length) :
    exists l, l ∈ (c.place x).lists ∧ x ∈ l := by
  unfold Classes.place
  dsimp only
  cases hs : c.slot (c.forest.find x).2 with
  | some k =>
      have hk := hslot _ k hs
      refine ⟨c.lists[k] ++ [x], ?_, by simp⟩
      apply List.mem_of_getElem? (i := k)
      simp [hk]
  | none => exact ⟨[x], by simp, by simp⟩

theorem place_mem_of_mem {c : Classes n} {x y : Fin n}
    (h : exists l, l ∈ c.lists ∧ y ∈ l) :
    exists l, l ∈ (c.place x).lists ∧ y ∈ l := by
  rcases h with ⟨l, hl, hy⟩
  unfold Classes.place
  dsimp only
  cases hs : c.slot (c.forest.find x).2 with
  | some k =>
      rcases List.mem_iff_getElem?.mp hl with ⟨i, hi⟩
      by_cases hk : k = i
      · refine ⟨l ++ [x], ?_, List.mem_append_left _ hy⟩
        apply List.mem_of_getElem? (i := i)
        simp [hi, hk]
      · refine ⟨l, ?_, hy⟩
        apply List.mem_of_getElem? (i := i)
        simp [hi, hk]
  | none => exact ⟨l, List.mem_append_left _ hl, hy⟩

/-- The fold keeps the invariant and places every point. -/
theorem foldl_place_ok (hR : Equivalence R) :
    forall (points : List (Fin n)) (c : Classes n), ClassesOk R c ->
      ClassesOk R (points.foldl Classes.place c) ∧
        (forall x, (exists l, l ∈ c.lists ∧ x ∈ l) ∨ x ∈ points ->
          exists l, l ∈ (points.foldl Classes.place c).lists ∧ x ∈ l) := by
  intro points
  induction points with
  | nil =>
      intro c h
      refine ⟨h, ?_⟩
      rintro x (hx | hx)
      · exact hx
      · cases hx
  | cons p rest ih =>
      intro c h
      rcases ih (c.place p) (place_ok hR h p) with ⟨hok, hall⟩
      refine ⟨hok, ?_⟩
      rintro x (hx | hx)
      · exact hall x (Or.inl (place_mem_of_mem hx))
      · rcases List.mem_cons.mp hx with rfl | hx
        · refine hall x (Or.inl (place_mem c x ?_))
          intro r k hr
          rcases h.slot r k hr with ⟨l, hl, _⟩
          exact (List.getElem?_eq_some_iff.mp hl).1
        · exact hall x (Or.inr hx)

theorem start_ok {f : Forest n} (h : Sound R f) :
    ClassesOk R ⟨f, fun _ => none, []⟩ := by
  refine ⟨h, ?_, ?_, ?_⟩
  · intro r k hr
    cases hr
  · intro k l hl
    simp at hl
  · intro r r' k hr
    cases hr

/-- Two members of one class are related. -/
theorem classes_related (hR : Equivalence R) {f : Forest n} (h : Sound R f)
    {points : List (Fin n)} {l : List (Fin n)} (hl : l ∈ f.classes points)
    {x y : Fin n} (hx : x ∈ l) (hy : y ∈ l) : R x y := by
  have hok := (foldl_place_ok hR points _ (start_ok h)).1
  rcases List.mem_iff_getElem?.mp hl with ⟨k, hk⟩
  rcases hok.owner k l hk with ⟨r, hr⟩
  rcases hok.slot r k hr with ⟨l', hl', hall⟩
  have hk' : (points.foldl Classes.place ⟨f, fun _ => none, []⟩).lists[k]? =
      some l := hk
  rw [hk', Option.some_inj] at hl'
  subst hl'
  exact hR.trans (hall x hx) (hR.symm (hall y hy))

/-- Every point has a class. -/
theorem mem_classes (f : Forest n) {points : List (Fin n)} {x : Fin n}
    (hx : x ∈ points) : exists l, l ∈ f.classes points ∧ x ∈ l := by
  have htrue : Equivalence (fun _ _ : Fin n => True) :=
    ⟨fun _ => trivial, fun _ => trivial, fun _ _ => trivial⟩
  exact (foldl_place_ok htrue points _ (start_ok (fun _ => trivial))).2 x
    (Or.inr hx)

end Soundness

end UnionFind
end Foundation
end Ostia

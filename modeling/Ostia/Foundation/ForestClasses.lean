import Mathlib.Data.List.Induction
import Mathlib.Data.List.Nodup
import Mathlib.Data.List.Perm.Lattice
import Ostia.Foundation.UnionFind

/-!
# The classes of a forest

Halving a path moves no point to another tree, so finding a root changes the parents only.
Joining two points makes one tree of two and keeps every other tree.  The classes that are read
off a forest are the points of each tree, in the order in which they come.
-/

namespace Ostia
namespace Foundation
namespace UnionFind

variable {n : Nat}

/-!
## Trees
-/

/-- The root of the tree of a point. -/
def Forest.top (f : Forest n) (x : Fin n) : Fin n :=
  if f.root x = x then x else f.top (f.root x)
termination_by x.val
decreasing_by
  rename_i h
  have hlt : f.root x < x := lt_of_le_of_ne (f.le x) h
  exact hlt

theorem top_of_root {f : Forest n} {x : Fin n} (h : f.root x = x) : f.top x = x := by
  rw [Forest.top, if_pos h]

theorem top_parent (f : Forest n) (x : Fin n) : f.top (f.root x) = f.top x := by
  by_cases h : f.root x = x
  · rw [h]
  · conv_rhs => rw [Forest.top, if_neg h]

theorem root_lt {f : Forest n} {x : Fin n} (h : f.root x ≠ x) : f.root x < x :=
  lt_of_le_of_ne (f.le x) h

theorem root_top (f : Forest n) (x : Fin n) : f.root (f.top x) = f.top x := by
  induction x using WellFoundedLT.induction with
  | ind x ih =>
      by_cases h : f.root x = x
      · rw [top_of_root h, h]
      · have hparent := ih (f.root x) (root_lt h)
        rwa [top_parent] at hparent

/-- Forests whose points have parents in the same tree of another have the same trees. -/
theorem top_congr {f f' : Forest n} (hparent : forall x, f.top (f'.root x) = f.top x)
    (hroot : forall x, f'.root x = x -> f.root x = x) (x : Fin n) : f'.top x = f.top x := by
  induction x using WellFoundedLT.induction with
  | ind x ih =>
      by_cases h : f'.root x = x
      · rw [top_of_root h, top_of_root (hroot x h)]
      · rw [← top_parent f', ih (f'.root x) (root_lt h), hparent]

theorem top_halve (f : Forest n) (x y : Fin n) : (f.halve x).top y = f.top y := by
  apply top_congr
  · intro z
    unfold Forest.halve
    dsimp only
    rw [Function.update_apply]
    split_ifs with hz
    · rw [top_parent, top_parent, hz]
    · exact top_parent f z
  · intro z hz
    unfold Forest.halve at hz
    dsimp only at hz
    rw [Function.update_apply] at hz
    split_ifs at hz with hzx
    · rw [hzx] at hz ⊢
      -- A point that is its own grandparent is its own parent, since parents never grow.
      apply le_antisymm (f.le x)
      conv_lhs => rw [← hz]
      exact f.le (f.root x)
    · exact hz

theorem findFrom_top : forall fuel (f : Forest n) (x : Fin n), x.val < fuel ->
    (f.findFrom fuel x).2 = f.top x ∧ forall y, (f.findFrom fuel x).1.top y = f.top y := by
  intro fuel
  induction fuel with
  | zero =>
      intro f x h
      exact absurd h (Nat.not_lt_zero _)
  | succ fuel ih =>
      intro f x h
      rw [Forest.findFrom]
      split_ifs with hroot
      · exact ⟨(top_of_root hroot).symm, fun y => rfl⟩
      · have hparent : f.root x < x := root_lt hroot
        have hgrand : f.root (f.root x) ≤ f.root x := f.le _
        have hlt : (f.root (f.root x)).val < fuel := by
          have hle : (f.root (f.root x)).val ≤ (f.root x).val := hgrand
          have hltx : (f.root x).val < x.val := hparent
          omega
        obtain ⟨hfound, htops⟩ := ih (f.halve x) (f.root (f.root x)) hlt
        constructor
        · rw [hfound, top_halve, top_parent, top_parent]
        · intro y
          rw [htops, top_halve]

/-- Finding gives the root of the tree. -/
theorem find_top (f : Forest n) (x : Fin n) : (f.find x).2 = f.top x :=
  (findFrom_top _ f x (Nat.lt_succ_self _)).1

/-- Finding moves no point to another tree. -/
theorem top_find (f : Forest n) (x y : Fin n) : (f.find x).1.top y = f.top y :=
  (findFrom_top _ f x (Nat.lt_succ_self _)).2 y

/-!
## Joined trees
-/

theorem top_hang {f : Forest n} {a b : Fin n} (ha : f.root a = a) (hb : f.root b = b)
    (hne : a ≠ b) (x : Fin n) :
    (f.hang a b).top x = if f.top x = max a b then min a b else f.top x := by
  have hends : min a b ≠ max a b ∧ f.root (min a b) = min a b ∧ f.root (max a b) = max a b := by
    cases le_total a b with
    | inl hle =>
        rw [min_eq_left hle, max_eq_right hle]
        exact ⟨hne, ha, hb⟩
    | inr hle =>
        rw [min_eq_right hle, max_eq_left hle]
        exact ⟨hne.symm, hb, ha⟩
  obtain ⟨hminmax, hmin, hmax⟩ := hends
  have hroot : forall y, (f.hang a b).root y = if y = max a b then min a b else f.root y := by
    intro y
    unfold Forest.hang
    dsimp only
    rw [Function.update_apply]
  induction x using WellFoundedLT.induction with
  | ind x ih =>
      by_cases hx : x = max a b
      · have hown : (f.hang a b).root (min a b) = min a b := by
          rw [hroot, if_neg hminmax, hmin]
        rw [← top_parent, hroot, if_pos hx, top_of_root hown, hx, top_of_root hmax, if_pos rfl]
      · have hparent : (f.hang a b).root x = f.root x := by rw [hroot, if_neg hx]
        by_cases h : f.root x = x
        · rw [top_of_root (hparent.trans h), top_of_root h, if_neg hx]
        · rw [← top_parent, hparent, ih (f.root x) (root_lt h), top_parent]

/-- Joining two points makes one tree of theirs and keeps the other trees. -/
theorem top_union (f : Forest n) (x y z : Fin n) :
    (f.union x y).top z =
      if f.top z = max (f.top x) (f.top y) then min (f.top x) (f.top y) else f.top z := by
  unfold Forest.union
  dsimp only
  rw [find_top, find_top, top_find]
  have htops : forall w, ((f.find x).1.find y).1.top w = f.top w := by
    intro w
    rw [top_find, top_find]
  have hown : forall w, ((f.find x).1.find y).1.root (f.top w) = f.top w := by
    intro w
    rw [← htops w]
    exact root_top _ w
  split_ifs with hne hz hz
  · rw [top_hang (hown x) (hown y) hne, htops, if_pos hz]
  · rw [top_hang (hown x) (hown y) hne, htops, if_neg hz]
  · rw [htops, hz]
    rw [ne_eq, not_not] at hne
    rw [hne, max_self, min_self]
  · exact htops z

theorem union_joins (f : Forest n) (x y : Fin n) : (f.union x y).top x = (f.union x y).top y := by
  rw [top_union, top_union]
  cases le_total (f.top x) (f.top y) with
  | inl hle =>
      rw [max_eq_right hle, min_eq_left hle]
      simp
  | inr hle =>
      rw [max_eq_left hle, min_eq_right hle]
      simp

theorem union_keeps (f : Forest n) (x y : Fin n) {z w : Fin n} (h : f.top z = f.top w) :
    (f.union x y).top z = (f.union x y).top w := by
  rw [top_union, top_union, h]

/-!
## Classes
-/

/-- The points of a list in the tree of a root. -/
def classOf (f : Forest n) (points : List (Fin n)) (r : Fin n) : List (Fin n) :=
  points.filter fun x => f.top x = r

theorem mem_classOf {f : Forest n} {points : List (Fin n)} {r x : Fin n} :
    x ∈ classOf f points r <-> x ∈ points ∧ f.top x = r := by
  unfold classOf
  rw [List.mem_filter, decide_eq_true_eq]

theorem classOf_append (f : Forest n) (points : List (Fin n)) (x r : Fin n) :
    classOf f (points ++ [x]) r =
      classOf f points r ++ if f.top x = r then [x] else [] := by
  unfold classOf
  rw [List.filter_append, List.filter_singleton]
  split_ifs with h
  · rw [decide_eq_true h]
    rfl
  · rw [decide_eq_false h]
    rfl

/-- The classes after some points: one for each root met, in the order of the first meeting. -/
structure Placed (f : Forest n) (points roots : List (Fin n)) (c : Classes n) : Prop where
  tops : forall x, c.forest.top x = f.top x
  nodup : roots.Nodup
  slots : forall r k, c.slot r = some k <-> roots[k]? = some r
  met : forall r, r ∈ roots <-> exists x, x ∈ points ∧ f.top x = r
  lists : c.lists = roots.map (classOf f points)

theorem Placed.place_old {f : Forest n} {points roots : List (Fin n)} {c : Classes n}
    (h : Placed f points roots c) {x : Fin n} {k : Nat} (hk : c.slot (f.top x) = some k) :
    Placed f (points ++ [x]) roots
      ⟨(c.forest.find x).1, c.slot, c.lists.modify k (· ++ [x])⟩ := by
  have hroot : roots[k]? = some (f.top x) := (h.slots _ _).mp hk
  constructor
  · intro y
    rw [top_find, h.tops]
  · exact h.nodup
  · exact h.slots
  · intro r
    rw [h.met]
    constructor
    · intro hr
      obtain ⟨y, hy, hyr⟩ := hr
      exact ⟨y, List.mem_append_left _ hy, hyr⟩
    · intro hr
      obtain ⟨y, hy, hyr⟩ := hr
      rw [List.mem_append, List.mem_singleton] at hy
      cases hy with
      | inl hy => exact ⟨y, hy, hyr⟩
      | inr hy =>
          rw [← h.met, ← hyr, hy]
          exact List.mem_of_getElem? hroot
  · dsimp only
    rw [h.lists]
    apply List.ext_getElem?
    intro i
    rw [List.getElem?_modify, List.getElem?_map, List.getElem?_map]
    cases hi : roots[i]? with
    | none => rfl
    | some r =>
        show some (if k = i then classOf f points r ++ [x] else classOf f points r) =
          some (classOf f (points ++ [x]) r)
        rw [classOf_append]
        by_cases hik : k = i
        · rw [hik, hi, Option.some_inj] at hroot
          rw [if_pos hik, if_pos hroot.symm]
        · have hne : f.top x ≠ r := by
            intro heq
            rw [heq] at hroot
            exact hik ((List.getElem?_inj (List.getElem?_eq_some_iff.mp hroot).1 h.nodup).mp
              (hroot.trans hi.symm))
          rw [if_neg hik, if_neg hne, List.append_nil]

theorem Placed.place_new {f : Forest n} {points roots : List (Fin n)} {c : Classes n}
    (h : Placed f points roots c) {x : Fin n} (hx : c.slot (f.top x) = none) :
    Placed f (points ++ [x]) (roots ++ [f.top x])
      ⟨(c.forest.find x).1, Function.update c.slot (f.top x) (some c.lists.length),
        c.lists ++ [[x]]⟩ := by
  have hfresh : f.top x ∉ roots := by
    intro hmem
    obtain ⟨k, hk⟩ := List.mem_iff_getElem?.mp hmem
    rw [(h.slots _ _).mpr hk] at hx
    cases hx
  have hlength : c.lists.length = roots.length := by rw [h.lists, List.length_map]
  constructor
  · intro y
    rw [top_find, h.tops]
  · rw [List.nodup_append]
    refine ⟨h.nodup, List.nodup_singleton _, ?_⟩
    intro a ha b hb heq
    rw [List.mem_singleton] at hb
    exact hfresh (hb ▸ heq ▸ ha)
  · intro r k
    dsimp only
    rw [Function.update_apply, hlength, List.getElem?_append]
    by_cases hr : r = f.top x
    · rw [if_pos hr, Option.some_inj]
      constructor
      · intro hk
        rw [← hk, if_neg (Nat.lt_irrefl _), Nat.sub_self, hr]
        rfl
      · intro hk
        split_ifs at hk with hlt
        · exact absurd (hr ▸ List.mem_of_getElem? hk) hfresh
        · have hzero := (List.getElem?_eq_some_iff.mp hk).1
          rw [List.length_singleton] at hzero
          omega
    · rw [if_neg hr, h.slots]
      constructor
      · intro hk
        rw [if_pos (List.getElem?_eq_some_iff.mp hk).1]
        exact hk
      · intro hk
        split_ifs at hk with hlt
        · exact hk
        · exact absurd (List.mem_singleton.mp (List.mem_of_getElem? hk)) hr
  · intro r
    rw [List.mem_append, List.mem_singleton, h.met]
    constructor
    · intro hr
      cases hr with
      | inl hr =>
          obtain ⟨y, hy, hyr⟩ := hr
          exact ⟨y, List.mem_append_left _ hy, hyr⟩
      | inr hr => exact ⟨x, List.mem_append_right _ (List.mem_singleton_self x), hr.symm⟩
    · intro hr
      obtain ⟨y, hy, hyr⟩ := hr
      rw [List.mem_append, List.mem_singleton] at hy
      cases hy with
      | inl hy => exact Or.inl ⟨y, hy, hyr⟩
      | inr hy => exact Or.inr (by rw [← hyr, hy])
  · dsimp only
    rw [h.lists, List.map_append, List.map_singleton]
    congr 1
    · apply List.map_congr_left
      intro r hr
      rw [classOf_append, if_neg, List.append_nil]
      intro heq
      exact hfresh (heq ▸ hr)
    · have hnone : classOf f points (f.top x) = [] := by
        rw [List.eq_nil_iff_forall_not_mem]
        intro y hy
        obtain ⟨hy, hyr⟩ := mem_classOf.mp hy
        exact hfresh ((h.met _).mpr ⟨y, hy, hyr⟩)
      rw [classOf_append, if_pos rfl, hnone, List.nil_append]

theorem Placed.place {f : Forest n} {points roots : List (Fin n)} {c : Classes n}
    (h : Placed f points roots c) (x : Fin n) :
    exists roots', Placed f (points ++ [x]) roots' (c.place x) := by
  unfold Classes.place
  dsimp only
  rw [find_top, h.tops]
  cases hslot : c.slot (f.top x) with
  | some k => exact ⟨roots, h.place_old hslot⟩
  | none => exact ⟨_, h.place_new hslot⟩

theorem exists_placed (f : Forest n) (points : List (Fin n)) :
    exists roots, Placed f points roots
      (points.foldl Classes.place ⟨f, fun _ => none, []⟩) := by
  induction points using List.reverseRecOn with
  | nil =>
      refine ⟨[], fun x => rfl, List.nodup_nil, ?_, ?_, rfl⟩
      · intro r k
        simp
      · intro r
        simp
  | append_singleton points x ih =>
      obtain ⟨roots, hplaced⟩ := ih
      rw [List.foldl_append]
      exact hplaced.place x

/-- The classes of a forest are the points of each of its trees. -/
theorem classes_eq (f : Forest n) (points : List (Fin n)) :
    exists roots : List (Fin n), roots.Nodup ∧
      (forall r, r ∈ roots <-> exists x, x ∈ points ∧ f.top x = r) ∧
      f.classes points = roots.map (classOf f points) := by
  obtain ⟨roots, hplaced⟩ := exists_placed f points
  exact ⟨roots, hplaced.nodup, hplaced.met, hplaced.lists⟩

/-- The trees of a list of roots hold each point once. -/
theorem flatten_classOf_perm (f : Forest n) {roots : List (Fin n)} (hroots : roots.Nodup)
    {points : List (Fin n)} (hall : forall x, x ∈ points -> f.top x ∈ roots) :
    (roots.map (classOf f points)).flatten.Perm points := by
  induction roots generalizing points with
  | nil =>
      have hnone : points = [] := by
        rw [List.eq_nil_iff_forall_not_mem]
        intro x hx
        cases hall x hx
      rw [hnone]
      exact List.Perm.nil
  | cons r roots ih =>
      obtain ⟨hr, hroots⟩ := List.nodup_cons.mp hroots
      have hrest :
          (roots.map (classOf f (points.filter fun x => !decide (f.top x = r)))).flatten.Perm
          (points.filter fun x => !decide (f.top x = r)) := by
        apply ih hroots
        intro x hx
        obtain ⟨hx, hne⟩ := List.mem_filter.mp hx
        cases List.mem_cons.mp (hall x hx) with
        | inl heq => simp [heq] at hne
        | inr hmem => exact hmem
      have hsame : roots.map (classOf f (points.filter fun x => !decide (f.top x = r))) =
          roots.map (classOf f points) := by
        apply List.map_congr_left
        intro r' hr'
        unfold classOf
        rw [List.filter_filter]
        apply List.filter_congr
        intro x _
        have hne : r' ≠ r := fun heq => hr (heq ▸ hr')
        by_cases hx : f.top x = r'
        · simp [hx, hne]
        · simp [hx]
      rw [hsame] at hrest
      rw [List.map_cons, List.flatten_cons]
      exact (hrest.append_left _).trans (List.filter_append_perm _ points)

end UnionFind
end Foundation
end Ostia

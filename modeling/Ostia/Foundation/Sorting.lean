import Mathlib.Data.List.Sort
import Mathlib.Data.List.Perm.Basic
import Mathlib.Data.Multiset.Basic

/-!
# Sorting

Sorting by a linear order forgets everything but the multiset of the elements.
Stable sorting by a key forgets everything but, for each key, the sequence of
the elements with that key.
-/

namespace Ostia
namespace Foundation
namespace Sorting

/-!
## Sorting by the order of the elements
-/

section Linear

variable {alpha : Type*} [LinearOrder alpha]

def sorted (xs : List alpha) : List alpha := xs.insertionSort (· ≤ ·)

theorem sorted_perm (xs : List alpha) : (sorted xs).Perm xs :=
  List.perm_insertionSort (· ≤ ·) xs

theorem sorted_pairwise (xs : List alpha) : (sorted xs).Pairwise (· ≤ ·) :=
  List.pairwise_insertionSort (· ≤ ·) xs

theorem sorted_eq_iff_perm {xs ys : List alpha} :
    sorted xs = sorted ys <-> xs.Perm ys := by
  constructor
  · intro h
    exact (sorted_perm xs).symm.trans (h ▸ sorted_perm ys)
  · intro h
    have hperm : (sorted xs).Perm (sorted ys) :=
      ((sorted_perm xs).trans h).trans (sorted_perm ys).symm
    exact hperm.eq_of_pairwise' (sorted_pairwise xs) (sorted_pairwise ys)

end Linear

/-!
## Stable sorting by a key
-/

section Stable

variable {alpha K : Type*} [LinearOrder K]

/-- Sort by a key, keeping the order of elements with equal keys. -/
def stableSort (key : alpha -> K) (xs : List alpha) : List alpha :=
  xs.insertionSort (fun a b => key a ≤ key b)

theorem stableSort_perm (key : alpha -> K) (xs : List alpha) :
    (stableSort key xs).Perm xs :=
  List.perm_insertionSort _ xs

theorem orderedInsert_filter (key : alpha -> K) (k : K) (a : alpha)
    (xs : List alpha) :
    (xs.orderedInsert (fun a b => key a ≤ key b) a).filter
        (fun x => decide (key x = k)) =
      (a :: xs).filter (fun x => decide (key x = k)) := by
  induction xs with
  | nil => rfl
  | cons b rest ih =>
      rw [List.orderedInsert]
      by_cases hab : key a ≤ key b
      · rw [if_pos hab]
      · rw [if_neg hab]
        -- Only an element of a smaller key is passed over.
        by_cases hb : key b = k
        · have ha : ¬ key a = k := by
            intro ha
            exact hab (le_of_eq (ha.trans hb.symm))
          rw [List.filter_cons_of_pos (by simpa using hb), ih]
          simp [hb, ha]
        · rw [List.filter_cons_of_neg (by simpa using hb), ih]
          simp [List.filter_cons, hb]

theorem stableSort_filter (key : alpha -> K) (k : K) (xs : List alpha) :
    (stableSort key xs).filter (fun x => decide (key x = k)) =
      xs.filter (fun x => decide (key x = k)) := by
  induction xs with
  | nil => rfl
  | cons a rest ih =>
      unfold stableSort at ih ⊢
      rw [List.insertionSort_cons, orderedInsert_filter, List.filter_cons,
        List.filter_cons, ih]

theorem stableSort_pairwise (key : alpha -> K) (xs : List alpha) :
    (stableSort key xs).Pairwise (fun a b => key a ≤ key b) := by
  have htotal : Std.Total (fun a b : alpha => key a ≤ key b) :=
    ⟨fun a b => le_total (key a) (key b)⟩
  have htrans : IsTrans alpha (fun a b => key a ≤ key b) :=
    ⟨fun _ _ _ hab hbc => le_trans hab hbc⟩
  exact List.pairwise_insertionSort _ xs

/-- A list sorted by a key is determined by its elements of each key. -/
theorem eq_of_filter_eq (key : alpha -> K) {xs ys : List alpha}
    (hx : xs.Pairwise (fun a b => key a ≤ key b))
    (hy : ys.Pairwise (fun a b => key a ≤ key b))
    (h : forall k, xs.filter (fun x => decide (key x = k)) =
      ys.filter (fun x => decide (key x = k))) :
    xs = ys := by
  induction xs generalizing ys with
  | nil =>
      cases ys with
      | nil => rfl
      | cons b rest =>
          have hb := h (key b)
          simp at hb
  | cons a xs ih =>
      cases ys with
      | nil =>
          have ha := h (key a)
          simp at ha
      | cons b ys =>
          rw [List.pairwise_cons] at hx hy
          have hmem : forall c, c ∈ b :: ys <-> c ∈ a :: xs := by
            intro c
            have hc := congrArg (fun l => c ∈ l) (h (key c))
            simpa [List.mem_filter] using hc.symm.to_iff
          have hab : key a ≤ key b := by
            rcases List.mem_cons.mp ((hmem b).mp List.mem_cons_self) with
              hb | hb
            · exact le_of_eq (congrArg key hb.symm)
            · exact hx.1 b hb
          have hba : key b ≤ key a := by
            rcases List.mem_cons.mp ((hmem a).mpr List.mem_cons_self) with
              ha | ha
            · exact le_of_eq (congrArg key ha.symm)
            · exact hy.1 a ha
          have hkey : key b = key a := le_antisymm hba hab
          have hhead := h (key a)
          rw [List.filter_cons_of_pos (by simp),
            List.filter_cons_of_pos (by simpa using hkey)] at hhead
          injection hhead with heq _
          subst heq
          congr 1
          refine ih hx.2 hy.2 ?_
          intro k
          have hk := h k
          by_cases hak : key a = k
          · rw [List.filter_cons_of_pos (by simpa using hak),
              List.filter_cons_of_pos (by simpa using hak)] at hk
            injection hk
          · rwa [List.filter_cons_of_neg (by simpa using hak),
              List.filter_cons_of_neg (by simpa using hak)] at hk

/-- Lists with the same elements of each key, in the same order, sort alike. -/
theorem stableSort_congr (key : alpha -> K) {xs ys : List alpha}
    (h : forall k, xs.filter (fun x => decide (key x = k)) =
      ys.filter (fun x => decide (key x = k))) :
    stableSort key xs = stableSort key ys := by
  refine eq_of_filter_eq key (stableSort_pairwise key xs)
    (stableSort_pairwise key ys) ?_
  intro k
  rw [stableSort_filter, stableSort_filter, h k]

/-- Where the key determines the element, a permutation keeps the elements of each key. -/
theorem filter_eq_of_perm (key : alpha -> K) {xs ys : List alpha} (h : xs.Perm ys)
    (hkey : forall a, a ∈ xs -> forall b, b ∈ xs -> key a = key b -> a = b) (k : K) :
    xs.filter (fun x => decide (key x = k)) = ys.filter (fun x => decide (key x = k)) := by
  have hperm := h.filter (fun x => decide (key x = k))
  cases hxs : xs.filter (fun x => decide (key x = k)) with
  | nil =>
      rw [hxs] at hperm
      exact hperm.nil_eq
  | cons a rest =>
      have hmem : forall b, b ∈ a :: rest -> b ∈ xs ∧ key b = k := by
        intro b hb
        rw [← hxs, List.mem_filter] at hb
        exact ⟨hb.1, of_decide_eq_true hb.2⟩
      have ha := hmem a List.mem_cons_self
      have hsame : a :: rest = List.replicate (a :: rest).length a := by
        rw [List.eq_replicate_iff]
        refine ⟨rfl, ?_⟩
        intro b hb
        have hb := hmem b hb
        exact hkey b hb.1 a ha.1 (hb.2.trans ha.2.symm)
      rw [hxs, hsame] at hperm
      rw [hsame]
      exact (List.perm_replicate.mp hperm.symm).symm

end Stable

/-!
## Binary search
-/

section Search

variable {alpha : Type*}

/-- The number of elements before the first one above, by halving. -/
def upperBound (above : alpha -> Bool) (xs : List alpha) : Nat :=
  match h : xs.drop (xs.length / 2) with
  | [] => 0
  | middle :: later =>
      if above middle then upperBound above (xs.take (xs.length / 2))
      else xs.length / 2 + 1 + upperBound above later
termination_by xs.length
decreasing_by
  all_goals
    have hlength := congrArg List.length h
    rw [List.length_drop, List.length_cons] at hlength
  · rw [List.length_take]
    omega
  · omega

/-- Where all elements above stand last, the search finds where they begin. -/
theorem upperBound_append (above : alpha -> Bool) (xs before later : List alpha)
    (hxs : xs = before ++ later) (hbefore : forall x, x ∈ before -> above x = false)
    (hlater : forall x, x ∈ later -> above x = true) :
    upperBound above xs = before.length := by
  induction xs using upperBound.induct above generalizing before later with
  | case1 xs hdrop =>
      rw [upperBound]
      split
      · have hlength := congrArg List.length hdrop
        rw [List.length_drop, hxs, List.length_append, List.length_nil] at hlength
        omega
      · rename_i heq
        rw [hdrop] at heq
        cases heq
  | case2 xs middle after hdrop habove ih =>
      -- The middle one is above, so all before it that are not above are in the first half.
      have hhalf : before.length ≤ xs.length / 2 := by
        by_contra hlong
        have hmem : middle ∈ before := by
          have hget : xs[xs.length / 2]? = some middle := by
            rw [← List.head?_drop, hdrop, List.head?_cons]
          rw [hxs, List.getElem?_append_left (by rw [← hxs]; omega)] at hget
          exact List.mem_of_getElem? hget
        rw [hbefore middle hmem] at habove
        cases habove
      have htake : xs.take (xs.length / 2) =
          before ++ later.take (xs.length / 2 - before.length) := by
        conv_lhs => rw [hxs]
        rw [List.take_append, List.take_of_length_le (by rw [← hxs]; exact hhalf), ← hxs]
      rw [upperBound]
      split
      · rename_i heq
        rw [hdrop] at heq
        cases heq
      · rename_i heq
        rw [hdrop] at heq
        cases heq
        rw [if_pos habove]
        exact ih before _ htake hbefore fun x hx => hlater x (List.mem_of_mem_take hx)
  | case3 xs middle after hdrop habove ih =>
      have hhalf : xs.length / 2 < before.length := by
        by_contra hshort
        have hmem : middle ∈ later := by
          have hget : xs[xs.length / 2]? = some middle := by
            rw [← List.head?_drop, hdrop, List.head?_cons]
          rw [hxs, List.getElem?_append_right (by rw [← hxs]; omega)] at hget
          exact List.mem_of_getElem? hget
        exact habove (hlater middle hmem)
      have hafter : after = before.drop (xs.length / 2 + 1) ++ later := by
        have htail : xs.drop (xs.length / 2 + 1) = after := by
          rw [← List.tail_drop, hdrop, List.tail_cons]
        conv_lhs => rw [← htail, hxs]
        rw [List.drop_append_of_le_length (by rw [← hxs]; omega), ← hxs]
      rw [upperBound]
      split
      · rename_i heq
        rw [hdrop] at heq
        cases heq
      · rename_i heq
        rw [hdrop] at heq
        cases heq
        rw [if_neg habove, ih _ later hafter (fun x hx => hbefore x (List.mem_of_mem_drop hx))
          hlater, List.length_drop]
        omega

end Search

end Sorting
end Foundation
end Ostia

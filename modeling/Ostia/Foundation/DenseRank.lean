import Mathlib.Data.List.Sort
import Mathlib.Data.List.Dedup
import Mathlib.Data.Finset.Card
import Mathlib.Data.List.Nodup

/-!
# Ranks among sorted distinct values

Sorting a list, dropping repetitions and looking a value up by binary search
numbers the distinct values of the list 0, 1, 2, ... in increasing order.  The
numbering depends on the set of values alone, it is strictly increasing, and it
leaves no gap.
-/

namespace Ostia
namespace Foundation
namespace DenseRank

variable {alpha : Type*} [LinearOrder alpha]

/-- The values of a list in increasing order, each once. -/
def distinct (xs : List alpha) : List alpha :=
  (xs.insertionSort (· ≤ ·)).dedup

/-- The position of the first element that is not less than the value. -/
def lowerBound (xs : List alpha) (v : alpha) : Nat :=
  xs.findIdx (fun x => decide (v ≤ x))

/-- The rank of a value among the distinct values of a list. -/
def rank (xs : List alpha) (v : alpha) : Nat :=
  lowerBound (distinct xs) v

/-!
## The sorted distinct list
-/

theorem mem_distinct {xs : List alpha} {v : alpha} :
    v ∈ distinct xs <-> v ∈ xs := by
  unfold distinct
  rw [List.mem_dedup]
  exact (List.perm_insertionSort (· ≤ ·) xs).mem_iff

theorem distinct_nodup (xs : List alpha) : (distinct xs).Nodup :=
  List.nodup_dedup _

theorem distinct_sorted (xs : List alpha) :
    (distinct xs).Pairwise (· < ·) := by
  have hle : (distinct xs).Pairwise (· ≤ ·) :=
    (List.pairwise_insertionSort (· ≤ ·) xs).sublist (List.dedup_sublist _)
  have hne : (distinct xs).Pairwise (· ≠ ·) := distinct_nodup xs
  exact (hle.and hne).imp (fun h => lt_of_le_of_ne h.1 h.2)

/-- Two lists with the same members have the same sorted distinct list. -/
theorem distinct_congr {xs ys : List alpha}
    (h : forall v, v ∈ xs <-> v ∈ ys) : distinct xs = distinct ys := by
  have hperm : (distinct xs).Perm (distinct ys) := by
    rw [List.perm_ext_iff_of_nodup (distinct_nodup xs) (distinct_nodup ys)]
    intro v
    rw [mem_distinct, mem_distinct]
    exact h v
  have hx : (distinct xs).Pairwise (· ≤ ·) :=
    (distinct_sorted xs).imp le_of_lt
  have hy : (distinct ys).Pairwise (· ≤ ·) :=
    (distinct_sorted ys).imp le_of_lt
  exact hperm.eq_of_pairwise' hx hy

theorem distinct_length (xs : List alpha) :
    (distinct xs).length = xs.toFinset.card := by
  rw [← List.toFinset_card_of_nodup (distinct_nodup xs)]
  congr 1
  ext v
  simp only [List.mem_toFinset, mem_distinct]

/-!
## Lookup in a strictly increasing list
-/

theorem getElem?_lowerBound {xs : List alpha} {v : alpha}
    (hsorted : xs.Pairwise (· < ·)) (hmem : v ∈ xs) :
    xs[lowerBound xs v]? = some v := by
  induction xs with
  | nil =>
      cases hmem
  | cons x rest ih =>
      rw [List.pairwise_cons] at hsorted
      unfold lowerBound
      rw [List.findIdx_cons]
      rcases List.mem_cons.mp hmem with rfl | hrest
      · simp
      · have hlt : x < v := hsorted.1 v hrest
        have hnot : ¬ v ≤ x := not_le.mpr hlt
        simpa [hnot, lowerBound] using ih hsorted.2 hrest

theorem lowerBound_lt_length {xs : List alpha} {v : alpha} (hmem : v ∈ xs) :
    lowerBound xs v < xs.length := by
  unfold lowerBound
  rw [List.findIdx_lt_length]
  exact ⟨v, hmem, by simp⟩

/-- An element of a strictly increasing list is found at its own position. -/
theorem lowerBound_getElem {xs : List alpha}
    (hsorted : xs.Pairwise (· < ·)) {k : Nat} (hk : k < xs.length) :
    lowerBound xs xs[k] = k := by
  have hfound := getElem?_lowerBound hsorted (List.getElem_mem hk)
  have hnodup : xs.Nodup := hsorted.imp ne_of_lt
  have hbound := lowerBound_lt_length (List.getElem_mem (l := xs) hk)
  rw [List.getElem?_eq_getElem hbound, Option.some_inj] at hfound
  exact (hnodup.getElem_inj_iff).mp hfound

/-!
## Ranks
-/

theorem rank_congr {xs ys : List alpha}
    (h : forall v, v ∈ xs <-> v ∈ ys) (v : alpha) :
    rank xs v = rank ys v := by
  unfold rank
  rw [distinct_congr h]

theorem rank_lt_length {xs : List alpha} {v : alpha} (hmem : v ∈ xs) :
    rank xs v < (distinct xs).length :=
  lowerBound_lt_length (mem_distinct.mpr hmem)

theorem getElem?_rank {xs : List alpha} {v : alpha} (hmem : v ∈ xs) :
    (distinct xs)[rank xs v]? = some v :=
  getElem?_lowerBound (distinct_sorted xs) (mem_distinct.mpr hmem)

theorem rank_injOn {xs : List alpha} {v w : alpha}
    (hv : v ∈ xs) (hw : w ∈ xs) (h : rank xs v = rank xs w) : v = w := by
  have hfound := getElem?_rank hv
  rw [h, getElem?_rank hw] at hfound
  exact (Option.some_inj.mp hfound).symm

theorem rank_lt_rank {xs : List alpha} {v w : alpha}
    (hv : v ∈ xs) (hw : w ∈ xs) (h : v < w) : rank xs v < rank xs w := by
  have hbv := rank_lt_length hv
  have hbw := rank_lt_length hw
  have hgv := getElem?_rank hv
  have hgw := getElem?_rank hw
  rw [List.getElem?_eq_getElem hbv, Option.some_inj] at hgv
  rw [List.getElem?_eq_getElem hbw, Option.some_inj] at hgw
  by_contra hnot
  rcases Nat.lt_or_eq_of_le (Nat.le_of_not_lt hnot) with hlt | heq
  · have hsorted :=
      List.pairwise_iff_getElem.mp (distinct_sorted xs) _ _ hbw hbv hlt
    rw [hgv, hgw] at hsorted
    exact lt_asymm h hsorted
  · exact ne_of_lt h (rank_injOn hv hw heq.symm)

/-- No rank is skipped: each one below the number of distinct values occurs. -/
theorem exists_rank_eq {xs : List alpha} {k : Nat}
    (hk : k < (distinct xs).length) : exists v, v ∈ xs ∧ rank xs v = k := by
  refine ⟨(distinct xs)[k], mem_distinct.mp (List.getElem_mem hk), ?_⟩
  exact lowerBound_getElem (distinct_sorted xs) hk

end DenseRank
end Foundation
end Ostia

import Mathlib.Data.List.Count
import Mathlib.Order.Lattice

/-!
# Reading a log again

A reader of an ordered log remembers the last key that it took and how many
entries of that key it took.  When the log is delivered again from an earlier
place, this is enough to drop exactly the entries that were taken before.
-/

namespace Ostia
namespace Foundation

/-- The last key that was taken, and how many entries with that key were. -/
structure Cursor (K : Type*) where
  last : Option K
  atLast : Nat

namespace Cursor

variable {K : Type*} [LinearOrder K]

def start : Cursor K := ⟨none, 0⟩

/-- Take an entry. -/
def take (c : Cursor K) (k : K) : Cursor K :=
  if c.last = some k then ⟨c.last, c.atLast + 1⟩ else ⟨some k, 1⟩

/-- The number of entries still to drop, and whether the entry is taken. -/
def step (c : Cursor K) (skip : Nat) (k : K) : Nat × Bool :=
  match c.last with
  | none => (skip, true)
  | some t =>
      if k < t then (skip, false)
      else if k = t ∧ skip ≠ 0 then (skip - 1, false)
      else (skip, true)

/-- The cursor after the first n entries. -/
structure Marks (log : List K) (n : Nat) (c : Cursor K) : Prop where
  le : n ≤ log.length
  last : c.last = (log.take n).getLast?
  atNone : c.last = none -> c.atLast = 0
  atLast : forall t, c.last = some t -> c.atLast = (log.take n).count t

/--
Between deliveries of the entries up to p, of which n were taken in all: the
entries still to drop are those at the last key from p on.
-/
structure Pass (log : List K) (p n : Nat) (c : Cursor K) (skip : Nat) : Prop where
  marks : Marks log n c
  le : p ≤ n
  skip_none : c.last = none -> skip = 0
  skip_eq : forall t, c.last = some t -> skip = ((log.take n).drop p).count t

theorem marks_start (log : List K) : Marks log 0 (start : Cursor K) := by
  constructor
  · exact Nat.zero_le _
  · rw [List.take_zero]
    rfl
  · intro _
    rfl
  · intro t h
    cases h

section Steps

variable {log : List K} {n : Nat} {c : Cursor K}

theorem Marks.last_eq_none (h : Marks log n c) : c.last = none <-> n = 0 := by
  rw [h.last, List.getLast?_eq_none_iff, List.take_eq_nil_iff]
  constructor
  · intro hor
    rcases hor with hn | hlog
    · exact hn
    · have hle := h.le
      rw [hlog, List.length_nil] at hle
      exact Nat.le_zero.mp hle
  · exact Or.inl

/-- The key of the last entry that was taken. -/
theorem Marks.getElem?_last (h : Marks log n c) {t : K} (ht : c.last = some t) :
    0 < n ∧ log[n - 1]? = some t := by
  have hpos : 0 < n := by
    apply Nat.pos_of_ne_zero
    intro hn
    rw [h.last_eq_none.mpr hn] at ht
    cases ht
  refine ⟨hpos, ?_⟩
  have hlast := h.last
  rw [ht, List.getLast?_eq_getElem?, List.length_take, Nat.min_eq_left h.le,
    List.getElem?_take, if_pos (Nat.sub_lt hpos Nat.one_pos)] at hlast
  exact hlast.symm

/-- A delivery may start at any place with only smaller keys before it. -/
theorem Marks.pass (h : Marks log n c) {k : Nat}
    (hfirst : c.last = none -> k = 0)
    (hbefore : forall t, c.last = some t -> forall i x, i < k -> log[i]? = some x -> x < t) :
    Pass log k n c c.atLast := by
  constructor
  · exact h
  · cases hlast : c.last with
    | none =>
        rw [hfirst hlast]
        exact Nat.zero_le _
    | some t =>
        rcases h.getElem?_last hlast with ⟨hpos, hget⟩
        by_contra hlt
        have hself := hbefore t hlast (n - 1) t (by omega) hget
        exact lt_irrefl t hself
  · exact h.atNone
  · intro t ht
    rw [h.atLast t ht]
    -- No entry before the place of the delivery has the last key.
    have hzero : ((log.take n).take k).count t = 0 := by
      rw [List.count_eq_zero]
      intro hmem
      rcases List.mem_iff_getElem?.mp hmem with ⟨i, hi⟩
      rw [List.getElem?_take] at hi
      split_ifs at hi with hik
      rw [List.getElem?_take] at hi
      split_ifs at hi with hin
      exact lt_irrefl t (hbefore t ht i t hik hi)
    have hsplit := congrArg (List.count t) (List.take_append_drop k (log.take n))
    rw [List.count_append, hzero, Nat.zero_add] at hsplit
    exact hsplit.symm

variable {p skip : Nat} {k : K}

/-- In an ordered log an earlier key is at most a later one. -/
theorem le_of_getElem? (hsorted : log.Pairwise (· ≤ ·)) {i j : Nat} {a b : K}
    (ha : log[i]? = some a) (hb : log[j]? = some b) (hij : i ≤ j) : a ≤ b := by
  rcases List.getElem?_eq_some_iff.mp ha with ⟨hi, rfl⟩
  rcases List.getElem?_eq_some_iff.mp hb with ⟨hj, rfl⟩
  rcases Nat.eq_or_lt_of_le hij with heq | hlt
  · exact le_of_eq (by simp only [heq])
  · exact List.pairwise_iff_getElem.mp hsorted i j hi hj hlt

omit [LinearOrder K] in
theorem drop_take_eq_cons (hget : log[p]? = some k) (hp : p < n) :
    (log.take n).drop p = k :: (log.take n).drop (p + 1) := by
  have hget' : (log.take n)[p]? = some k := by
    rw [List.getElem?_take, if_pos hp, hget]
  rcases List.getElem?_eq_some_iff.mp hget' with ⟨hlt, heq⟩
  rw [List.drop_eq_getElem_cons hlt, heq]

/-- An entry that was taken before is dropped. -/
theorem Pass.dropped (h : Pass log p n c skip) (hsorted : log.Pairwise (· ≤ ·))
    (hget : log[p]? = some k) (hp : p < n) :
    exists skip', c.step skip k = (skip', false) ∧ Pass log (p + 1) n c skip' := by
  cases hlast : c.last with
  | none =>
      rw [h.marks.last_eq_none.mp hlast] at hp
      exact absurd hp (Nat.not_lt_zero p)
  | some t =>
      rcases h.marks.getElem?_last hlast with ⟨hpos, hgetLast⟩
      have hle : k ≤ t := le_of_getElem? hsorted hget hgetLast (Nat.le_sub_one_of_lt hp)
      have hskip := h.skip_eq t hlast
      rw [drop_take_eq_cons hget hp] at hskip
      unfold step
      rw [hlast]
      rcases lt_or_eq_of_le hle with hkt | hkt
      · refine ⟨skip, by simp [hkt], h.marks, hp, h.skip_none, ?_⟩
        intro t' ht'
        rw [hlast, Option.some_inj] at ht'
        rw [← ht', hskip, List.count_cons_of_ne (ne_of_lt hkt)]
      · subst hkt
        rw [List.count_cons_self] at hskip
        have hnone : c.last = none -> skip - 1 = 0 := by
          intro hno
          rw [hlast] at hno
          cases hno
        refine ⟨skip - 1, by simp [hskip], h.marks, hp, hnone, ?_⟩
        intro t' ht'
        rw [hlast, Option.some_inj] at ht'
        rw [← ht', hskip, Nat.add_sub_cancel]

omit [LinearOrder K] in
theorem drop_take_self : (log.take n).drop n = [] := by
  rw [List.drop_eq_nil_iff, List.length_take]
  exact Nat.min_le_left _ _

theorem Pass.skip_zero (h : Pass log n n c skip) : skip = 0 := by
  cases hlast : c.last with
  | none => exact h.skip_none hlast
  | some t =>
      rw [h.skip_eq t hlast, drop_take_self]
      rfl

/-- The cursor after one more entry. -/
theorem Marks.take (h : Marks log n c) (hsorted : log.Pairwise (· ≤ ·))
    (hget : log[n]? = some k) : Marks log (n + 1) (c.take k) := by
  rcases List.getElem?_eq_some_iff.mp hget with ⟨hlt, _⟩
  have htake : log.take (n + 1) = log.take n ++ [k] := by
    rw [List.take_add_one, hget]
    rfl
  have hlast : (c.take k).last = some k := by
    unfold Cursor.take
    split_ifs with heq
    · exact heq
    · rfl
  constructor
  · exact hlt
  · rw [hlast, htake, List.getLast?_concat]
  · intro hno
    rw [hlast] at hno
    cases hno
  · intro t ht
    rw [hlast, Option.some_inj] at ht
    subst ht
    rw [htake, List.count_append, List.count_singleton_self]
    unfold Cursor.take
    split_ifs with heq
    · rw [h.atLast k heq]
    · -- A new key is larger than all keys before it.
      have hzero : (log.take n).count k = 0 := by
        rw [List.count_eq_zero]
        intro hmem
        apply heq
        rcases List.mem_iff_getElem?.mp hmem with ⟨i, hi⟩
        rw [List.getElem?_take] at hi
        split_ifs at hi with hin
        cases hcl : c.last with
        | none =>
            rw [h.last_eq_none.mp hcl] at hin
            exact absurd hin (Nat.not_lt_zero i)
        | some t =>
            rcases h.getElem?_last hcl with ⟨hpos, hgetLast⟩
            have hle : k ≤ t := le_of_getElem? hsorted hi hgetLast (Nat.le_sub_one_of_lt hin)
            have hge : t ≤ k := le_of_getElem? hsorted hgetLast hget (Nat.sub_le n 1)
            rw [le_antisymm hle hge]
      rw [hzero]

/-- An entry that was not taken before is taken. -/
theorem Pass.taken (h : Pass log n n c skip) (hsorted : log.Pairwise (· ≤ ·))
    (hget : log[n]? = some k) :
    c.step skip k = (skip, true) ∧ Pass log (n + 1) (n + 1) (c.take k) skip := by
  have hmarks := h.marks.take hsorted hget
  have hzero := h.skip_zero
  refine ⟨?_, hmarks, Nat.le_refl _, fun _ => hzero, ?_⟩
  · unfold step
    cases hlast : c.last with
    | none => rfl
    | some t =>
        rcases h.marks.getElem?_last hlast with ⟨hpos, hgetLast⟩
        have hge : t ≤ k := le_of_getElem? hsorted hgetLast hget (Nat.sub_le n 1)
        simp [not_lt_of_ge hge, hzero]
  · intro t _
    rw [drop_take_self, hzero]
    rfl

end Steps

end Cursor
end Foundation
end Ostia

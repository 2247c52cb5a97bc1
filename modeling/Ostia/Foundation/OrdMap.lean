import Mathlib.Data.List.Sort
import Mathlib.Data.List.Nodup
import Mathlib.Data.List.Pairwise

/-!
# Ordered maps

A finite map iterated in the order of its keys, as a list of entries that is
strictly increasing in the key.  The order is part of the type, so two maps with
the same lookups are equal and a map does not remember the order in which it was
filled.
-/

namespace Ostia
namespace Foundation

/-- A finite map whose entries are listed in increasing order of their keys. -/
structure OrdMap (K : Type*) [LinearOrder K] (A : Type*) where
  entries : List (K × A)
  sorted : entries.Pairwise (fun a b => a.1 < b.1)

namespace OrdMap

variable {K : Type*} [LinearOrder K] {A B : Type*}

instance [DecidableEq A] : DecidableEq (OrdMap K A)
  | ⟨entries, _⟩, ⟨entries', _⟩ => decidable_of_iff (entries = entries') (by simp)

/-!
## Lists of entries
-/

/-- The value of the first entry with the key. -/
def lookup (k : K) : List (K × A) -> Option A
  | [] => none
  | e :: rest => if e.1 = k then some e.2 else lookup k rest

/-- Insert an entry in key order, replacing the value of an equal key. -/
def insertEntry (k : K) (v : A) : List (K × A) -> List (K × A)
  | [] => [(k, v)]
  | e :: rest =>
      if k < e.1 then (k, v) :: e :: rest
      else if k = e.1 then (k, v) :: rest
      else e :: insertEntry k v rest

theorem lookup_eq_none {k : K} {xs : List (K × A)}
    (h : forall e, e ∈ xs -> e.1 ≠ k) : lookup k xs = none := by
  induction xs with
  | nil => rfl
  | cons e rest ih =>
      have he : e.1 ≠ k := h e List.mem_cons_self
      rw [lookup, if_neg he]
      exact ih (fun e' he' => h e' (List.mem_cons_of_mem e he'))

theorem lookup_ne {k : K} {xs : List (K × A)} (h : lookup k xs = none) :
    forall e, e ∈ xs -> e.1 ≠ k := by
  induction xs with
  | nil =>
      intro e he
      cases he
  | cons e rest ih =>
      rw [lookup] at h
      split_ifs at h with he
      rw [List.forall_mem_cons]
      exact ⟨he, ih h⟩

theorem mem_of_lookup {k : K} {v : A} {xs : List (K × A)}
    (h : lookup k xs = some v) : (k, v) ∈ xs := by
  induction xs with
  | nil =>
      cases h
  | cons e rest ih =>
      rw [lookup] at h
      by_cases he : e.1 = k
      · rw [if_pos he, Option.some_inj] at h
        rw [← he, ← h]
        exact List.mem_cons_self
      · rw [if_neg he] at h
        exact List.mem_cons_of_mem e (ih h)

theorem lookup_of_mem {k : K} {v : A} {xs : List (K × A)}
    (hsorted : xs.Pairwise (fun a b => a.1 < b.1)) (h : (k, v) ∈ xs) :
    lookup k xs = some v := by
  induction xs with
  | nil =>
      cases h
  | cons e rest ih =>
      rw [List.pairwise_cons] at hsorted
      rw [lookup]
      rcases List.mem_cons.mp h with heq | hrest
      · rw [← heq, if_pos rfl]
      · have hlt : e.1 < k := hsorted.1 (k, v) hrest
        rw [if_neg (ne_of_lt hlt)]
        exact ih hsorted.2 hrest

/-- In a sorted list a key has one entry at most. -/
theorem filter_key {k : K} {xs : List (K × A)} (hsorted : xs.Pairwise (fun a b => a.1 < b.1)) :
    xs.filter (fun e => e.1 = k) = ((lookup k xs).map fun v => (k, v)).toList := by
  induction xs with
  | nil => rfl
  | cons e rest ih =>
      rw [List.pairwise_cons] at hsorted
      rw [List.filter_cons, lookup]
      by_cases he : e.1 = k
      · have hrest : rest.filter (fun e => e.1 = k) = [] := by
          apply List.filter_eq_nil_iff.mpr
          intro e' he'
          have hlt := hsorted.1 e' he'
          rw [he] at hlt
          simpa using ne_of_gt hlt
        rw [if_pos (by simpa using he), if_pos he, hrest, ← he]
        rfl
      · rw [if_neg (by simpa using he), if_neg he]
        exact ih hsorted.2

theorem mem_insertEntry {k : K} {v : A} {xs : List (K × A)} {e : K × A}
    (h : e ∈ insertEntry k v xs) : e = (k, v) ∨ e ∈ xs := by
  induction xs with
  | nil =>
      exact Or.inl (List.mem_singleton.mp h)
  | cons d rest ih =>
      rw [insertEntry] at h
      split_ifs at h with hlt heq
      · exact List.mem_cons.mp h
      · rcases List.mem_cons.mp h with h | h
        · exact Or.inl h
        · exact Or.inr (List.mem_cons_of_mem d h)
      · rcases List.mem_cons.mp h with h | h
        · exact Or.inr (h ▸ List.mem_cons_self)
        · rcases ih h with h | h
          · exact Or.inl h
          · exact Or.inr (List.mem_cons_of_mem d h)

theorem insertEntry_sorted (k : K) (v : A) {xs : List (K × A)}
    (hsorted : xs.Pairwise (fun a b => a.1 < b.1)) :
    (insertEntry k v xs).Pairwise (fun a b => a.1 < b.1) := by
  induction xs with
  | nil =>
      exact List.pairwise_singleton _ _
  | cons e rest ih =>
      have hcons := List.pairwise_cons.mp hsorted
      rw [insertEntry]
      split_ifs with hlt heq
      · refine List.pairwise_cons.mpr ⟨?_, hsorted⟩
        intro e' he'
        rcases List.mem_cons.mp he' with rfl | he'
        · exact hlt
        · exact lt_trans hlt (hcons.1 e' he')
      · refine List.pairwise_cons.mpr ⟨?_, hcons.2⟩
        intro e' he'
        exact heq ▸ hcons.1 e' he'
      · refine List.pairwise_cons.mpr ⟨?_, ih hcons.2⟩
        intro e' he'
        rcases mem_insertEntry he' with rfl | he'
        · exact lt_of_le_of_ne (le_of_not_gt hlt) (Ne.symm heq)
        · exact hcons.1 e' he'

theorem lookup_insertEntry (k : K) (v : A) (xs : List (K × A)) (k' : K) :
    lookup k' (insertEntry k v xs) =
      if k' = k then some v else lookup k' xs := by
  induction xs with
  | nil =>
      simp [insertEntry, lookup, eq_comm]
  | cons e rest ih =>
      rw [insertEntry]
      by_cases hlt : k < e.1
      · rw [if_pos hlt, lookup]
        simp only [eq_comm]
      · rw [if_neg hlt]
        by_cases heq : k = e.1
        · rw [if_pos heq, lookup, lookup]
          by_cases hk : k' = k
          · rw [if_pos hk.symm, if_pos hk]
          · rw [if_neg (Ne.symm hk), if_neg hk, if_neg (heq ▸ Ne.symm hk)]
        · rw [if_neg heq, lookup, lookup, ih]
          by_cases hk : k' = k
          · simp only [if_pos hk, if_neg (hk ▸ Ne.symm heq : e.1 ≠ k')]
          · simp only [if_neg hk]

/-!
## Maps
-/

def empty : OrdMap K A := ⟨[], List.Pairwise.nil⟩

def find? (m : OrdMap K A) (k : K) : Option A := lookup k m.entries

def contains (m : OrdMap K A) (k : K) : Bool := (m.find? k).isSome

/-- Set the value of a key, as an assignment through a subscript does. -/
def insert (m : OrdMap K A) (k : K) (v : A) : OrdMap K A :=
  ⟨insertEntry k v m.entries, insertEntry_sorted k v m.sorted⟩

def keys (m : OrdMap K A) : List K := m.entries.map Prod.fst

@[simp] theorem find?_empty (k : K) : (empty : OrdMap K A).find? k = none := rfl

theorem find?_insert (m : OrdMap K A) (k : K) (v : A) (k' : K) :
    (m.insert k v).find? k' = if k' = k then some v else m.find? k' :=
  lookup_insertEntry k v m.entries k'

@[simp] theorem find?_insert_self (m : OrdMap K A) (k : K) (v : A) :
    (m.insert k v).find? k = some v := by
  rw [find?_insert, if_pos rfl]

/-- Remove a key. -/
def erase (m : OrdMap K A) (k : K) : OrdMap K A :=
  ⟨m.entries.filter fun e => e.1 ≠ k, m.sorted.filter _⟩

theorem find?_erase (m : OrdMap K A) (k k' : K) :
    (m.erase k).find? k' = if k' = k then none else m.find? k' := by
  unfold find? erase
  dsimp only
  induction m.entries with
  | nil =>
      split_ifs
      · rfl
      · rfl
  | cons e rest ih =>
      by_cases he : e.1 = k
      · rw [List.filter_cons_of_neg (by simpa using he), ih, lookup]
        split_ifs with hk hek
        · rfl
        · exact absurd (hek.symm.trans he) hk
        · rfl
      · rw [List.filter_cons_of_pos (by simpa using he), lookup, ih, lookup]
        split_ifs with hek hk
        · exact absurd (hek.trans hk) he
        · rfl
        · rfl
        · rfl

theorem find?_insert_of_ne (m : OrdMap K A) {k k' : K} (v : A) (h : k' ≠ k) :
    (m.insert k v).find? k' = m.find? k' := by
  rw [find?_insert, if_neg h]

theorem mem_entries {m : OrdMap K A} {k : K} {v : A} :
    (k, v) ∈ m.entries <-> m.find? k = some v := by
  constructor
  · exact lookup_of_mem m.sorted
  · exact mem_of_lookup

theorem mem_keys {m : OrdMap K A} {k : K} :
    k ∈ m.keys <-> m.contains k = true := by
  unfold keys contains
  rw [Option.isSome_iff_exists]
  constructor
  · intro h
    rcases List.mem_map.mp h with ⟨⟨k', v⟩, hmem, rfl⟩
    exact ⟨v, mem_entries.mp hmem⟩
  · rintro ⟨v, hv⟩
    exact List.mem_map.mpr ⟨(k, v), mem_entries.mpr hv, rfl⟩

theorem contains_insert {m : OrdMap K A} {k k' : K} {v : A} :
    (m.insert k v).contains k' = true <-> k' = k ∨ m.contains k' = true := by
  unfold contains
  rw [find?_insert]
  by_cases h : k' = k
  · simp [h]
  · simp [h]

theorem mem_keys_insert {m : OrdMap K A} {k k' : K} {v : A} :
    k' ∈ (m.insert k v).keys <-> k' = k ∨ k' ∈ m.keys := by
  rw [mem_keys, mem_keys, contains_insert]

theorem keys_sorted (m : OrdMap K A) : m.keys.Pairwise (· < ·) :=
  List.pairwise_map.mpr m.sorted

theorem keys_nodup (m : OrdMap K A) : m.keys.Nodup :=
  (keys_sorted m).imp ne_of_lt

theorem entries_nodup (m : OrdMap K A) : m.entries.Nodup :=
  List.Nodup.of_map Prod.fst (keys_nodup m)

/-- Two maps with the same lookups are the same map. -/
theorem ext_find? {m m' : OrdMap K A}
    (h : forall k, m.find? k = m'.find? k) : m = m' := by
  have hperm : m.entries.Perm m'.entries := by
    rw [List.perm_ext_iff_of_nodup (entries_nodup m) (entries_nodup m')]
    rintro ⟨k, v⟩
    rw [mem_entries, mem_entries, h k]
  have heq : m.entries = m'.entries := by
    refine hperm.eq_of_pairwise ?_ m.sorted m'.sorted
    intro a b _ _ hab hba
    exact absurd hab (lt_asymm hba)
  cases m
  cases m'
  cases heq
  rfl

theorem insert_comm (m : OrdMap K A) {k k' : K} (v v' : A) (h : k ≠ k') :
    (m.insert k v).insert k' v' = (m.insert k' v').insert k v := by
  apply ext_find?
  intro x
  rw [find?_insert, find?_insert, find?_insert, find?_insert]
  by_cases hk : x = k
  · rw [if_pos hk, if_neg (hk ▸ h), if_pos hk]
  · rw [if_neg hk, if_neg hk]

theorem keys_congr {m : OrdMap K A} {m' : OrdMap K B}
    (h : forall k, m.contains k = true <-> m'.contains k = true) : m.keys = m'.keys := by
  have hperm : m.keys.Perm m'.keys := by
    rw [List.perm_ext_iff_of_nodup (keys_nodup m) (keys_nodup m')]
    intro k
    rw [mem_keys, mem_keys, h k]
  refine hperm.eq_of_pairwise ?_ (keys_sorted m) (keys_sorted m')
  intro a b _ _ hab hba
  exact absurd hab (lt_asymm hba)

/-!
## Sets

A set is a map to the one value of the unit type.
-/

theorem ext_contains {m m' : OrdMap K Unit}
    (h : forall k, m.contains k = true <-> m'.contains k = true) : m = m' := by
  apply ext_find?
  intro k
  have hk := h k
  unfold contains at hk
  cases hm : m.find? k with
  | none =>
      cases hm' : m'.find? k with
      | none => rfl
      | some _ =>
          rw [hm, hm'] at hk
          exact absurd (hk.mpr rfl) (by simp)
  | some _ =>
      cases hm' : m'.find? k with
      | none =>
          rw [hm, hm'] at hk
          exact absurd (hk.mp rfl) (by simp)
      | some _ => rfl

theorem contains_foldl_insert {X : Type*} {f : X -> K} {xs : List X} {m : OrdMap K Unit}
    {k : K} :
    (xs.foldl (fun s x => s.insert (f x) ()) m).contains k = true <->
      m.contains k = true ∨ exists x, x ∈ xs ∧ f x = k := by
  induction xs generalizing m with
  | nil => simp
  | cons x rest ih =>
      rw [List.foldl_cons, ih, contains_insert]
      rw [List.exists_mem_cons_iff (fun x => f x = k), eq_comm (a := k), or_comm (a := f x = k),
        or_assoc]

end OrdMap
end Foundation
end Ostia

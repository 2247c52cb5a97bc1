import Mathlib.Algebra.Group.Nat.Defs
import Mathlib.Data.Finset.Card
import Mathlib.Data.List.Perm.Basic
import Ostia.Foundation.Transition

/-!
# The chunked put stream and its checksum

A put stream copies a buffer to the same offsets of a target, chunk by chunk, with a bounded
number of puts outstanding.  The source bytes are a pattern of the offset, and the target counts
the bytes that differ from it.
-/

namespace Ostia
namespace Bench

open Foundation

/-!
## The pattern
-/

abbrev Memory := Nat -> UInt8

/-- The byte at offset i: the offset is a 64-bit word and the seed a 32-bit one. -/
def pattern (seed i : Nat) : UInt8 :=
  UInt8.ofNat ((i * 7 % 2 ^ 64 + seed * 31 % 2 ^ 32 + i / 2 ^ 12) % 2 ^ 64 % 256)

def countMismatches (data : Memory) (n seed offset : Nat) : Nat :=
  (List.range n).foldl
    (fun bad i => bad + if data i != pattern seed (offset + i) then 1 else 0) 0

/-- The pattern is that of the page and the offset in it. -/
def mixed (page inside : Nat) : Nat := (7 * inside + page) % 256

theorem pattern_eq_iff {seed i j : Nat} :
    pattern seed i = pattern seed j <->
      mixed (i / 4096) (i % 4096) = mixed (j / 4096) (j % 4096) := by
  unfold pattern mixed
  rw [← UInt8.toNat_inj, UInt8.toNat_ofNat', UInt8.toNat_ofNat']
  omega

/-- The chunks at two offsets are alike when they stand a multiple of a mebibyte apart, or each
inside one page at offsets where the pattern agrees. -/
def Alike (a b length : Nat) : Prop :=
  a % 2 ^ 20 = b % 2 ^ 20 ∨
    a % 4096 + length ≤ 4096 ∧ b % 4096 + length ≤ 4096 ∧
      mixed (a / 4096) (a % 4096) = mixed (b / 4096) (b % 4096)

theorem mod_mebibyte_iff {a b : Nat} :
    a % 2 ^ 20 = b % 2 ^ 20 <->
      a % 4096 = b % 4096 ∧ a / 4096 % 256 = b / 4096 % 256 := by
  omega

theorem split_add (a k : Nat) :
    (a % 4096 + k < 4096 -> (a + k) / 4096 = a / 4096 ∧ (a + k) % 4096 = a % 4096 + k) ∧
      (a % 4096 + k = 4096 -> (a + k) / 4096 = a / 4096 + 1 ∧ (a + k) % 4096 = 0) := by
  omega

theorem mixed_eq_of_alike {a b : Nat} (h : a % 2 ^ 20 = b % 2 ^ 20) :
    mixed (a / 4096) (a % 4096) = mixed (b / 4096) (b % 4096) := by
  obtain ⟨hinside, hpage⟩ := mod_mebibyte_iff.mp h
  unfold mixed
  rw [hinside]
  omega

/-- A chunk that crosses a page reaches the next one before a chunk that starts earlier in its
page, and there the two differ. -/
theorem inside_of_mixed_eq {a b length : Nat} (hlt : b % 4096 < a % 4096)
    (h : forall k, k < length -> mixed ((a + k) / 4096) ((a + k) % 4096) =
      mixed ((b + k) / 4096) ((b + k) % 4096)) (hlength : 0 < length) :
    a % 4096 + length ≤ 4096 := by
  by_contra hlong
  have hcross : a % 4096 + (4096 - a % 4096) = 4096 := by omega
  have hstart := h 0 hlength
  have hk := h (4096 - a % 4096) (by omega)
  rw [((split_add a _).2 hcross).1, ((split_add a _).2 hcross).2,
    ((split_add b _).1 (by omega)).1, ((split_add b _).1 (by omega)).2] at hk
  rw [Nat.add_zero, Nat.add_zero] at hstart
  unfold mixed at hstart hk
  omega

theorem pattern_eq_iff_alike (seed : Nat) {a b length : Nat} (hlength : 0 < length) :
    (forall k, k < length -> pattern seed (a + k) = pattern seed (b + k)) <->
      Alike a b length := by
  simp only [pattern_eq_iff]
  constructor
  · intro h
    have hstart := h 0 hlength
    rw [Nat.add_zero, Nat.add_zero] at hstart
    rcases Nat.lt_trichotomy (a % 4096) (b % 4096) with hlt | heq | hlt
    · have hb := inside_of_mixed_eq hlt (fun k hk => (h k hk).symm) hlength
      exact Or.inr ⟨by omega, hb, hstart⟩
    · left
      rw [mod_mebibyte_iff]
      refine ⟨heq, ?_⟩
      unfold mixed at hstart
      rw [heq] at hstart
      omega
    · have ha := inside_of_mixed_eq hlt h hlength
      exact Or.inr ⟨ha, by omega, hstart⟩
  · intro h k hk
    rcases h with h | ⟨ha, hb, h⟩
    · apply mixed_eq_of_alike
      rw [Nat.add_mod, h, ← Nat.add_mod]
    · rw [((split_add a k).1 (by omega)).1, ((split_add a k).1 (by omega)).2,
        ((split_add b k).1 (by omega)).1, ((split_add b k).1 (by omega)).2]
      unfold mixed at h ⊢
      omega

/-- Two neighbouring bytes of the pattern differ. -/
theorem pattern_succ_ne (seed i : Nat) : pattern seed i ≠ pattern seed (i + 1) := by
  rw [Ne, pattern_eq_iff]
  have hinside := Nat.mod_lt i (show 0 < 4096 by decide)
  rcases Nat.lt_or_eq_of_le (Nat.succ_le_of_lt hinside) with hlt | heq
  · rw [((split_add i 1).1 hlt).1, ((split_add i 1).1 hlt).2]
    unfold mixed
    omega
  · rw [((split_add i 1).2 heq).1, ((split_add i 1).2 heq).2]
    unfold mixed
    omega

theorem countMismatches_eq_zero_iff {data : Memory} {n seed offset : Nat} :
    countMismatches data n seed offset = 0 <->
      forall i, i < n -> data i = pattern seed (offset + i) := by
  unfold countMismatches
  induction n with
  | zero => simp
  | succ n ih =>
      rw [List.range_succ, List.foldl_append, List.foldl_cons, List.foldl_nil, Nat.add_eq_zero_iff,
        ih]
      constructor
      · intro h i hi
        rcases Nat.lt_succ_iff_lt_or_eq.mp hi with hlt | heq
        · exact h.1 i hlt
        · subst heq
          simpa using h.2
      · intro h
        refine ⟨fun i hi => h i (Nat.lt_succ_of_lt hi), ?_⟩
        rw [h n (Nat.lt_succ_self n)]
        simp

/-!
## The stream
-/

structure Put where
  offset : Nat
  length : Nat
deriving DecidableEq

structure PutStream where
  next : Nat
  stop : Nat
  chunk : Nat
  inflight : Nat
  pending : List Put

def PutStream.new (start bytes chunk inflight : Nat) : PutStream :=
  ⟨start, start + bytes, if chunk = 0 then bytes else chunk, inflight, []⟩

/-- The put that is issued next. -/
def PutStream.nextPut (s : PutStream) : Put := ⟨s.next, min s.chunk (s.stop - s.next)⟩

/-- Issue puts while the window has room, and give those issued.  A put that is not complete at
once is pending. -/
def PutStream.issue (immediate : Put -> Bool) : Nat -> PutStream -> List Put × PutStream
  | 0, s => ([], s)
  | fuel + 1, s =>
      if s.next < s.stop ∧ s.pending.length < s.inflight then
        let put := s.nextPut
        let pending := if immediate put then s.pending else s.pending ++ [put]
        let r := PutStream.issue immediate fuel
          { s with next := s.next + put.length, pending := pending }
        (put :: r.1, r.2)
      else ([], s)

/-- The step of a stream whose puts all succeed: issue, then drop the puts that completed. -/
def PutStream.step (immediate inProgress : Put -> Bool) (s : PutStream) : List Put × PutStream :=
  let r := s.issue immediate (s.stop - s.next)
  (r.1, { r.2 with pending := r.2.pending.filter inProgress })

def PutStream.done (s : PutStream) : Bool := s.next ≥ s.stop && s.pending.isEmpty

/-!
## Runs over a fabric

The fabric stores the bytes of each put at some offset of the target, in any order and at any
time after the put was issued.
-/

structure State where
  stream : PutStream
  /-- The puts whose bytes are still on their way. -/
  moving : List Put
  target : Memory

inductive Action where
  | step (immediate inProgress : Put -> Bool)
  | store (put : Put)

/-- Store the bytes of a put at an offset. -/
def store (local_ : Memory) (place : Put -> Nat) (target : Memory) (put : Put) : Memory :=
  fun i =>
    if place put ≤ i ∧ i < place put + put.length then local_ (put.offset + (i - place put))
    else target i

def act (local_ : Memory) (place : Put -> Nat) (st : State) : Action -> Option State
  | .step immediate inProgress =>
      let r := st.stream.step immediate inProgress
      some { st with stream := r.2, moving := st.moving ++ r.1 }
  | .store put =>
      if put ∈ st.moving then
        some { st with
          moving := st.moving.erase put
          target := store local_ place st.target put }
      else none

/-- The stream over the first n bytes, before a zeroed target. -/
def State.start (n chunk inflight : Nat) : State :=
  ⟨PutStream.new 0 n chunk inflight, [], fun _ => 0⟩

/-!
## The chunks
-/

def chunkAt (n c k : Nat) : Put := ⟨k * c, min c (n - k * c)⟩

/-- The chunks that a stream puts. -/
def chunks (n c : Nat) : List Put := (List.range ((n + c - 1) / c)).map (chunkAt n c)

theorem lt_chunk_count_iff {n c k : Nat} (hc : 0 < c) : k < (n + c - 1) / c <-> k * c < n := by
  rw [Nat.lt_iff_add_one_le, Nat.le_div_iff_mul_le hc, Nat.add_mul]
  omega

theorem mem_chunks {n c : Nat} (hc : 0 < c) {p : Put} :
    p ∈ chunks n c <-> exists k, k * c < n ∧ p = chunkAt n c k := by
  unfold chunks
  simp only [List.mem_map, List.mem_range, lt_chunk_count_iff hc, eq_comm]

/-- The puts that a stream issues are the next chunks. -/
theorem issue_spec {n c : Nat} (immediate : Put -> Bool) :
    forall fuel (s : PutStream) j, s.next = min (j * c) n -> s.stop = n -> s.chunk = c ->
      exists m, (s.issue immediate fuel).1 = (List.range' j m).map (chunkAt n c) ∧
        (forall k, j ≤ k -> k < j + m -> k * c < n) ∧
        (s.issue immediate fuel).2.next = min ((j + m) * c) n ∧
        (s.issue immediate fuel).2.stop = n ∧ (s.issue immediate fuel).2.chunk = c := by
  intro fuel
  induction fuel with
  | zero =>
      intro s j hnext hstop hchunk
      exact ⟨0, rfl, fun k hk hlt => by omega, hnext, hstop, hchunk⟩
  | succ fuel ih =>
      intro s j hnext hstop hchunk
      rw [PutStream.issue]
      by_cases hroom : s.next < s.stop ∧ s.pending.length < s.inflight
      · rw [if_pos hroom]
        have hlt : j * c < n := by omega
        have hput : s.nextPut = chunkAt n c j := by
          unfold PutStream.nextPut chunkAt
          rw [hnext, hstop, hchunk, Nat.min_eq_left (Nat.le_of_lt hlt)]
        have hlater : s.next + s.nextPut.length = min ((j + 1) * c) n := by
          rw [hput, hnext, Nat.add_mul, Nat.one_mul]
          show min (j * c) n + min c (n - j * c) = _
          omega
        obtain ⟨m, hissued, hchunks, hend⟩ := ih
          { s with
            next := s.next + s.nextPut.length
            pending := if immediate s.nextPut then s.pending else s.pending ++ [s.nextPut] }
          (j + 1) hlater hstop hchunk
        refine ⟨m + 1, ?_, ?_, ?_⟩
        · show s.nextPut :: _ = _
          rw [hissued, hput, List.range'_succ, List.map_cons]
        · intro k hk hbound
          rcases Nat.lt_or_eq_of_le hk with hk | hk
          · exact hchunks k hk (by omega)
          · rwa [← hk]
        · rw [Nat.add_right_comm j 1 m] at hend
          exact hend
      · rw [if_neg hroom]
        exact ⟨0, rfl, fun k hk hlt => by omega, hnext, hstop, hchunk⟩

/-!
## What a run stores
-/

section Run

variable {n c : Nat} {source : Memory} {place : Put -> Nat}

/-- The chunks so far are stored or on their way, and the target holds those stored. -/
structure Kept (n c : Nat) (source : Memory) (place : Put -> Nat) (st : State) (j : Nat)
    (stored : List Put) : Prop where
  next : st.stream.next = min (j * c) n
  stop : st.stream.stop = n
  chunk : st.stream.chunk = c
  issued : (stored ++ st.moving).Perm ((List.range j).map (chunkAt n c))
  inside : forall k, k < j -> k * c < n
  target : st.target = stored.foldl (store source place) fun _ => 0

theorem Kept.act {st st' : State} {j : Nat} {stored : List Put} {a : Action}
    (h : Kept n c source place st j stored) (hact : act source place st a = some st') :
    exists j stored, Kept n c source place st' j stored := by
  cases a with
  | step immediate inProgress =>
      cases hact
      obtain ⟨m, hissued, hchunks, hnext, hstop, hchunk⟩ :=
        issue_spec immediate (st.stream.stop - st.stream.next) st.stream j h.next h.stop h.chunk
      refine ⟨j + m, stored, hnext, hstop, hchunk, ?_, ?_, h.target⟩
      · show (stored ++ (st.moving ++ (st.stream.issue immediate _).1)).Perm _
        rw [hissued, ← List.append_assoc, List.range_add, List.map_append]
        refine h.issued.append ?_
        rw [List.range'_eq_map_range]
      · intro k hk
        rcases Nat.lt_or_ge k j with hlt | hge
        · exact h.inside k hlt
        · exact hchunks k hge hk
  | store put =>
      rw [Bench.act] at hact
      split_ifs at hact with hmem
      cases hact
      refine ⟨j, stored ++ [put], h.next, h.stop, h.chunk, ?_, h.inside, ?_⟩
      · refine List.Perm.trans ?_ h.issued
        rw [List.append_assoc, List.singleton_append]
        exact List.Perm.append_left stored (List.perm_cons_erase hmem).symm
      · rw [List.foldl_append, ← h.target]
        rfl

/-- A run that is done, with no put on its way, stored every chunk once. -/
theorem stored_of_done (hc : 0 < c) {inflight : Nat} {st : State}
    (hrun : Transition.Reached (act source place) (fun _ _ => True)
      (State.start n c inflight) st)
    (hdone : st.stream.done = true) (hmoving : st.moving = []) :
    exists stored : List Put, stored.Perm (chunks n c) ∧
      st.target = stored.foldl (store source place) fun _ => 0 := by
  have hkept : exists j stored, Kept n c source place st j stored := by
    apply hrun.invariant (P := fun st => exists j stored, Kept n c source place st j stored)
    · refine ⟨0, [], ?_, ?_, ?_, List.Perm.refl _, fun k hk => by omega, rfl⟩
      · show 0 = min (0 * c) n
        omega
      · exact Nat.zero_add n
      · exact if_neg hc.ne'
    · intro st a st' _ h _ hact
      obtain ⟨j, stored, h⟩ := h
      exact h.act hact
  obtain ⟨j, stored, h⟩ := hkept
  have hend : n ≤ j * c := by
    unfold PutStream.done at hdone
    rw [Bool.and_eq_true, decide_eq_true_iff, h.next, h.stop] at hdone
    omega
  have hcount : (n + c - 1) / c = j := by
    apply Nat.le_antisymm
    · by_contra hlt
      have hin := (lt_chunk_count_iff hc).mp (Nat.lt_of_not_le hlt)
      omega
    · by_contra hlt
      have hin := h.inside ((n + c - 1) / c) (Nat.lt_of_not_le hlt)
      have hself := (lt_chunk_count_iff hc).mpr hin
      omega
  have hissued := h.issued
  rw [hmoving, List.append_nil] at hissued
  refine ⟨stored, ?_, h.target⟩
  unfold chunks
  rwa [hcount]

/-- The fabric puts each chunk at the offset of a chunk of the same length. -/
def Places (n c : Nat) (place : Put -> Nat) : Prop :=
  forall p, p ∈ chunks n c -> exists q, q ∈ chunks n c ∧ place p = q.offset ∧ q.length = p.length

theorem store_apply (target : Memory) (put : Put) (i : Nat) :
    store source place target put i =
      if place put ≤ i ∧ i < place put + put.length then source (put.offset + (i - place put))
      else target i := rfl

theorem foldl_store_miss {stored : List Put} {i : Nat}
    (h : forall p, p ∈ stored -> ¬(place p ≤ i ∧ i < place p + p.length)) (target : Memory) :
    stored.foldl (store source place) target i = target i := by
  induction stored generalizing target with
  | nil => rfl
  | cons p stored ih =>
      rw [List.forall_mem_cons] at h
      rw [List.foldl_cons, ih h.2, store_apply, if_neg h.1]

/-- A byte that one put covers is the byte of that put. -/
theorem foldl_store_hit {stored : List Put} {i : Nat} {p : Put} (hp : p ∈ stored)
    (hcovers : place p ≤ i ∧ i < place p + p.length)
    (honly : forall q, q ∈ stored -> place q ≤ i ∧ i < place q + q.length -> q = p)
    (target : Memory) :
    stored.foldl (store source place) target i = source (p.offset + (i - place p)) := by
  induction stored generalizing target with
  | nil => cases hp
  | cons q stored ih =>
      rw [List.forall_mem_cons] at honly
      rw [List.foldl_cons]
      by_cases hlater : p ∈ stored
      · exact ih hlater honly.2 _
      · have hq : q = p := by
          rcases List.mem_cons.mp hp with heq | hmem
          · exact heq.symm
          · exact absurd hmem hlater
        subst hq
        rw [foldl_store_miss, store_apply, if_pos hcovers]
        intro r hr hcovers'
        have heq := honly.2 r hr hcovers'
        subst heq
        exact hlater hr

/-- Chunks do not overlap, and cover the buffer. -/
theorem chunkAt_covers {k i : Nat} (hc : 0 < c) (hi : i < n) :
    (k * c ≤ i ∧ i < k * c + (chunkAt n c k).length) <-> k = i / c := by
  show (k * c ≤ i ∧ i < k * c + min c (n - k * c)) <-> _
  have hlow : k * c ≤ i <-> k ≤ i / c := (Nat.le_div_iff_mul_le hc).symm
  have hhigh : i < k * c + c <-> i / c < k + 1 := by
    rw [Nat.div_lt_iff_lt_mul hc, Nat.add_mul, Nat.one_mul]
  omega

/-- The number of the chunk at whose offset a chunk is put. -/
theorem Places.index (hc : 0 < c) (h : Places n c place) {k : Nat} (hk : k * c < n) :
    place (chunkAt n c k) / c * c < n ∧
      place (chunkAt n c k) = place (chunkAt n c k) / c * c ∧
      (chunkAt n c (place (chunkAt n c k) / c)).length = (chunkAt n c k).length := by
  obtain ⟨q, hq, hplace, hlength⟩ := h _ ((mem_chunks hc).mpr ⟨k, hk, rfl⟩)
  obtain ⟨j, hj, rfl⟩ := (mem_chunks hc).mp hq
  have hdiv : place (chunkAt n c k) / c = j := by
    rw [hplace]
    exact Nat.mul_div_cancel j hc
  rw [hdiv]
  exact ⟨hj, hplace, hlength⟩

/-- No two chunks are put at the same offset, and each is put where the pattern is alike. -/
def Unnoticed (n c : Nat) (place : Put -> Nat) : Prop :=
  (forall p q, p ∈ chunks n c -> q ∈ chunks n c -> place p = place q -> p = q) ∧
    forall p, p ∈ chunks n c -> Alike p.offset (place p) p.length

/-- The byte of the target that a chunk covers, when no other chunk is put there. -/
theorem target_apply (hc : 0 < c) (hplaces : Places n c place) {stored : List Put}
    (hstored : stored.Perm (chunks n c)) {k i : Nat} (hk : k * c < n) (hi : i < n)
    (hat : place (chunkAt n c k) = i / c * c)
    (honly : forall q, q ∈ chunks n c -> place q = i / c * c -> q = chunkAt n c k)
    (target : Memory) :
    stored.foldl (store source place) target i = source (k * c + (i - i / c * c)) := by
  have hindex := hplaces.index hc hk
  have hdiv : place (chunkAt n c k) / c = i / c := by
    rw [hat, Nat.mul_div_cancel _ hc]
  rw [hdiv] at hindex
  have hcovers := (chunkAt_covers (n := n) hc hi).mpr (Eq.refl (i / c))
  rw [hindex.2.2] at hcovers
  have honlyStored : forall q, q ∈ stored -> place q ≤ i ∧ i < place q + q.length ->
      q = chunkAt n c k := by
    intro q hq hin
    have hmem := hstored.mem_iff.mp hq
    obtain ⟨j, hj, rfl⟩ := (mem_chunks hc).mp hmem
    have hplace := hplaces.index hc hj
    rw [hplace.2.1, ← hplace.2.2, chunkAt_covers hc hi] at hin
    apply honly _ hmem
    rw [hplace.2.1, hin]
  have hmem : chunkAt n c k ∈ stored := hstored.mem_iff.mpr ((mem_chunks hc).mpr ⟨k, hk, rfl⟩)
  rw [foldl_store_hit hmem (by rwa [hat]) honlyStored, hat]
  rfl

/-- Some chunk gets no bytes when two are put at the same offset. -/
theorem exists_unstored (hc : 0 < c) (hplaces : Places n c place) {p q : Put}
    (hp : p ∈ chunks n c) (hq : q ∈ chunks n c) (heq : place p = place q) (hne : p ≠ q) :
    exists j, j * c < n ∧ forall r, r ∈ chunks n c -> place r ≠ j * c := by
  by_contra hnone
  push Not at hnone
  let index : Nat -> Nat := fun k => place (chunkAt n c k) / c
  let all := Finset.range ((n + c - 1) / c)
  have hmem : forall k, k ∈ all <-> k * c < n := by
    intro k
    rw [Finset.mem_range, lt_chunk_count_iff hc]
  have hmaps : forall k, k ∈ all -> index k ∈ all := by
    intro k hk
    exact (hmem _).mpr (hplaces.index hc ((hmem k).mp hk)).1
  have hsurj : Set.SurjOn index all all := by
    intro j hj
    obtain ⟨r, hr, hplace⟩ := hnone j ((hmem j).mp hj)
    obtain ⟨k, hk, rfl⟩ := (mem_chunks hc).mp hr
    refine ⟨k, (hmem k).mpr hk, ?_⟩
    show place (chunkAt n c k) / c = j
    rw [hplace, Nat.mul_div_cancel _ hc]
  have hinj : Set.InjOn index all :=
    Finset.injOn_of_surjOn_of_card_le index hmaps hsurj le_rfl
  obtain ⟨k, hk, rfl⟩ := (mem_chunks hc).mp hp
  obtain ⟨l, hl, rfl⟩ := (mem_chunks hc).mp hq
  apply hne
  have hindex : index k = index l := by
    show place _ / c = place _ / c
    rw [heq]
  rw [hinj ((hmem k).mpr hk) ((hmem l).mpr hl) hindex]

theorem exists_stored (hc : 0 < c) (hplaces : Places n c place)
    (hinj : forall p q, p ∈ chunks n c -> q ∈ chunks n c -> place p = place q -> p = q)
    {j : Nat} (hj : j * c < n) : exists k, k * c < n ∧ place (chunkAt n c k) = j * c := by
  let index : Nat -> Nat := fun k => place (chunkAt n c k) / c
  let all := Finset.range ((n + c - 1) / c)
  have hmem : forall k, k ∈ all <-> k * c < n := by
    intro k
    rw [Finset.mem_range, lt_chunk_count_iff hc]
  have hmaps : forall k, k ∈ all -> index k ∈ all := by
    intro k hk
    exact (hmem _).mpr (hplaces.index hc ((hmem k).mp hk)).1
  have hinjOn : Set.InjOn index all := by
    intro k hk l hl heq
    have hplace : place (chunkAt n c k) = place (chunkAt n c l) := by
      rw [(hplaces.index hc ((hmem k).mp hk)).2.1, (hplaces.index hc ((hmem l).mp hl)).2.1]
      exact congrArg (· * c) heq
    have hchunk := hinj _ _ ((mem_chunks hc).mpr ⟨k, (hmem k).mp hk, rfl⟩)
      ((mem_chunks hc).mpr ⟨l, (hmem l).mp hl, rfl⟩) hplace
    exact Nat.eq_of_mul_eq_mul_right hc (congrArg Put.offset hchunk)
  obtain ⟨k, hk, hindex⟩ :=
    Finset.surjOn_of_injOn_of_card_le index hmaps hinjOn le_rfl ((hmem j).mpr hj)
  refine ⟨k, (hmem k).mp hk, ?_⟩
  rw [(hplaces.index hc ((hmem k).mp hk)).2.1]
  exact congrArg (· * c) hindex

/-- A chunk at whose offset no chunk is put is a whole one. -/
theorem length_unstored (hc : 0 < c) (hplaces : Places n c place) {j : Nat} (hj : j * c < n)
    (hnone : forall r, r ∈ chunks n c -> place r ≠ j * c) : j * c + c ≤ n := by
  by_contra hshort
  have hindex := hplaces.index hc hj
  have hlength : min c (n - place (chunkAt n c j) / c * c) = min c (n - j * c) := hindex.2.2
  have hsame : place (chunkAt n c j) / c * c = j * c := by omega
  exact hnone _ ((mem_chunks hc).mpr ⟨j, hj, rfl⟩) (hindex.2.1.trans hsame)

/-- The checksum of what a run stored finds nothing exactly when the places go unnoticed. -/
theorem countMismatches_stored (hc : 2 ≤ c) (hplaces : Places n c place) {seed : Nat}
    {stored : List Put} (hstored : stored.Perm (chunks n c)) :
    countMismatches (stored.foldl (store (pattern seed) place) fun _ => 0) n seed 0 = 0 <->
      Unnoticed n c place := by
  have hpos : 0 < c := by omega
  rw [countMismatches_eq_zero_iff]
  simp only [Nat.zero_add]
  constructor
  · intro h
    have hinj : forall p q, p ∈ chunks n c -> q ∈ chunks n c -> place p = place q -> p = q := by
      intro p q hp hq heq
      by_contra hne
      obtain ⟨j, hj, hnone⟩ := exists_unstored hpos hplaces hp hq heq hne
      have hwhole := length_unstored hpos hplaces hj hnone
      -- The bytes of a chunk that nothing was put to are still zero.
      have hzero : forall i, i < n -> i / c = j -> pattern seed i = 0 := by
        intro i hi hdiv
        rw [← h i hi, foldl_store_miss]
        intro r hr hcovers
        have hmem := hstored.mem_iff.mp hr
        obtain ⟨k, hk, rfl⟩ := (mem_chunks hpos).mp hmem
        have hindex := hplaces.index hpos hk
        rw [hindex.2.1, ← hindex.2.2, chunkAt_covers hpos hi, hdiv] at hcovers
        rw [hcovers] at hindex
        exact hnone _ hmem hindex.2.1
      have hfirst : j * c / c = j := Nat.mul_div_cancel j hpos
      have hsecond : (j * c + 1) / c = j := by
        rw [Nat.add_comm, Nat.add_mul_div_right 1 j hpos, Nat.div_eq_of_lt (by omega),
          Nat.zero_add]
      apply pattern_succ_ne seed (j * c)
      rw [hzero _ hj hfirst, hzero _ (by omega) hsecond]
    refine ⟨hinj, ?_⟩
    intro p hp
    obtain ⟨k, hk, rfl⟩ := (mem_chunks hpos).mp hp
    have hindex := hplaces.index hpos hk
    have hlength : 0 < (chunkAt n c k).length := by
      show 0 < min c (n - k * c)
      omega
    rw [← pattern_eq_iff_alike seed hlength]
    intro t ht
    show pattern seed (k * c + t) = _
    have hi : place (chunkAt n c k) + t < n := by
      rw [← hindex.2.2] at ht
      have hwithin : t < min c (n - place (chunkAt n c k) / c * c) := ht
      omega
    have hcovers : (place (chunkAt n c k) + t) / c = place (chunkAt n c k) / c := by
      symm
      rw [← chunkAt_covers hpos hi, hindex.2.2]
      omega
    have hat : place (chunkAt n c k) = (place (chunkAt n c k) + t) / c * c := by
      rw [hcovers]
      exact hindex.2.1
    have honly : forall q, q ∈ chunks n c -> place q = (place (chunkAt n c k) + t) / c * c ->
        q = chunkAt n c k :=
      fun q hq hplace => hinj q _ hq hp (hplace.trans hat.symm)
    have hbyte := h _ hi
    rw [target_apply hpos hplaces hstored hk hi hat honly, ← hat, Nat.add_sub_cancel_left] at hbyte
    exact hbyte
  · intro h i hi
    have hchunk : i / c * c < n := (Nat.div_mul_le_self i c).trans_lt hi
    obtain ⟨k, hk, hplace⟩ := exists_stored hpos hplaces h.1 hchunk
    have hmem := (mem_chunks hpos).mpr ⟨k, hk, rfl⟩
    rw [target_apply hpos hplaces hstored hk hi hplace
      fun q hq heq => h.1 q _ hq hmem (heq.trans hplace.symm)]
    have hindex := hplaces.index hpos hk
    have hcovers := (chunkAt_covers (n := n) hpos hi).mpr (Eq.refl (i / c))
    have hdiv : place (chunkAt n c k) / c = i / c := by
      rw [hplace, Nat.mul_div_cancel _ hpos]
    rw [hdiv] at hindex
    rw [hindex.2.2] at hcovers
    have hlength : 0 < (chunkAt n c k).length := by
      show 0 < min c (n - k * c)
      omega
    have hsame := (pattern_eq_iff_alike seed hlength).mpr (h.2 _ hmem)
      (i - i / c * c) (by omega)
    rw [hplace] at hsame
    have hback : i / c * c + (i - i / c * c) = i := by omega
    rw [hback] at hsame
    exact hsame

end Run

/-- A finished run of a stream over the first n bytes, from a buffer filled with the pattern. -/
def Finished (n c inflight seed : Nat) (place : Put -> Nat) (st : State) : Prop :=
  Transition.Reached (act (pattern seed) place) (fun _ _ => True) (State.start n c inflight) st ∧
    st.stream.done = true ∧ st.moving = []

theorem countMismatches_finished {n c inflight seed : Nat} {place : Put -> Nat} {st : State}
    (hc : 2 ≤ c) (hplaces : Places n c place) (hrun : Finished n c inflight seed place st) :
    countMismatches st.target n seed 0 = 0 <-> Unnoticed n c place := by
  obtain ⟨stored, hstored, htarget⟩ :=
    stored_of_done (show 0 < c by omega) hrun.1 hrun.2.1 hrun.2.2
  rw [htarget]
  exact countMismatches_stored hc hplaces hstored

/-- After a run in which the fabric puts each chunk at the offset of one of the same length, the
target counts a mismatch exactly when two chunks went to one offset, or some chunk went where the
pattern is not alike. -/
theorem misplaced_noticed {n c inflight seed : Nat} {place : Put -> Nat} {st : State}
    (hc : 256 ≤ c) (hplaces : Places n c place) (hrun : Finished n c inflight seed place st) :
    0 < countMismatches st.target n seed 0 <->
      (exists p q, p ∈ chunks n c ∧ q ∈ chunks n c ∧ place p = place q ∧ p ≠ q) ∨
        exists p, p ∈ chunks n c ∧ ¬Alike p.offset (place p) p.length := by
  have hzero := countMismatches_finished (show 2 ≤ c by omega) hplaces hrun
  rw [Nat.pos_iff_ne_zero, Ne, hzero, Unnoticed, not_and_or]
  push Not
  rfl

/-- Two chunks, each put at the offset of the other. -/
def exchanged (c : Nat) (p : Put) : Nat := if p.offset = 0 then c else 0

def firstChunk (c : Nat) : Put := ⟨0, c⟩

def secondChunk (c : Nat) : Put := ⟨c, c⟩

/-- Chunks of half a MiB, and the chunks of the benchmark. -/
def Chunk (c : Nat) : Prop := c = 2 ^ 19 ∨ c = 2 ^ 22

theorem chunks_exchanged {c : Nat} (hc : Chunk c) :
    chunks (2 * c) c = [firstChunk c, secondChunk c] := by
  rcases hc with rfl | rfl <;> decide

theorem places_exchanged {c : Nat} (hc : Chunk c) : Places (2 * c) c (exchanged c) := by
  unfold Places
  rw [chunks_exchanged hc]
  rcases hc with rfl | rfl <;> decide

/-- A run that issues both chunks at once, and whose puts land one after the other. -/
theorem finished_exchanged {c : Nat} (hc : Chunk c) (seed : Nat) :
    exists st, Finished (2 * c) c 2 seed (exchanged c) st := by
  let issued : State :=
    ⟨⟨2 * c, 2 * c, c, 2, []⟩, [firstChunk c, secondChunk c], fun _ => 0⟩
  let landed : Memory := store (pattern seed) (exchanged c) (fun _ => 0) (firstChunk c)
  have hissued : act (pattern seed) (exchanged c) (State.start (2 * c) c 2)
      (.step (fun _ => true) fun _ => false) = some issued := by
    rcases hc with rfl | rfl <;> rfl
  have hfirst : act (pattern seed) (exchanged c) issued (.store (firstChunk c)) =
      some { issued with moving := [secondChunk c], target := landed } := by
    rw [act, if_pos List.mem_cons_self]
    rcases hc with rfl | rfl <;> rfl
  have hsecond : act (pattern seed) (exchanged c)
      { issued with moving := [secondChunk c], target := landed } (.store (secondChunk c)) =
      some { issued with
        moving := []
        target := store (pattern seed) (exchanged c) landed (secondChunk c) } := by
    rw [act, if_pos List.mem_cons_self]
    rcases hc with rfl | rfl <;> rfl
  have hdone : issued.stream.done = true := by
    rcases hc with rfl | rfl <;> rfl
  exact ⟨_, (((Transition.Reached.init.step trivial hissued).step trivial hfirst).step trivial
    hsecond), hdone, rfl⟩

/-- Two chunks of half a MiB change places, and the checksum tells. -/
theorem misplaced_noticed_exchanged :
    exists st, Finished (2 * 2 ^ 19) (2 ^ 19) 2 5 (exchanged (2 ^ 19)) st ∧
      0 < countMismatches st.target (2 * 2 ^ 19) 5 0 := by
  have hc : Chunk (2 ^ 19) := Or.inl rfl
  obtain ⟨st, hst⟩ := finished_exchanged hc 5
  refine ⟨st, hst, (misplaced_noticed (by decide) (places_exchanged hc) hst).mpr (Or.inr ?_)⟩
  refine ⟨firstChunk (2 ^ 19), ?_, ?_⟩
  · rw [chunks_exchanged hc]
    exact List.mem_cons_self
  · unfold Alike
    decide

theorem unnoticed_exchanged : Unnoticed (2 * 2 ^ 22) (2 ^ 22) (exchanged (2 ^ 22)) := by
  unfold Unnoticed
  rw [chunks_exchanged (Or.inr rfl)]
  constructor
  · have hinj : forall p, p ∈ [firstChunk (2 ^ 22), secondChunk (2 ^ 22)] -> forall q,
        q ∈ [firstChunk (2 ^ 22), secondChunk (2 ^ 22)] ->
          exchanged (2 ^ 22) p = exchanged (2 ^ 22) q -> p = q := by decide
    exact fun p q hp hq => hinj p hp q hq
  · unfold Alike
    decide

/-- Two chunks of 4 MiB change places and the checksum finds nothing. -/
theorem exchanged_unnoticed :
    exists st, Finished (2 * 2 ^ 22) (2 ^ 22) 2 5 (exchanged (2 ^ 22)) st ∧
      (exists p q, p ∈ chunks (2 * 2 ^ 22) (2 ^ 22) ∧ q ∈ chunks (2 * 2 ^ 22) (2 ^ 22) ∧ p ≠ q ∧
        exchanged (2 ^ 22) p = q.offset ∧ p.length = q.length) ∧
      countMismatches st.target (2 * 2 ^ 22) 5 0 = 0 := by
  have hc : Chunk (2 ^ 22) := Or.inr rfl
  obtain ⟨st, hst⟩ := finished_exchanged hc 5
  refine ⟨st, hst, ⟨firstChunk (2 ^ 22), secondChunk (2 ^ 22), ?_, ?_, by decide, rfl, rfl⟩, ?_⟩
  · rw [chunks_exchanged hc]
    exact List.mem_cons_self
  · rw [chunks_exchanged hc]
    exact List.mem_cons_of_mem _ List.mem_cons_self
  · exact (countMismatches_finished (by decide) (places_exchanged hc) hst).mpr unnoticed_exchanged

end Bench
end Ostia

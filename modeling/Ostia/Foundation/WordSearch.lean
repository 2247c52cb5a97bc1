import Mathlib.Data.List.Infix
import Ostia.Foundation.OrdMap

/-!
# Searching a text for many words

Words that are looked up by their text, tables that group them by their length so
that a text is searched with one window for each length, and the maximal runs of a
text.
-/

namespace Ostia
namespace Foundation

variable {A V : Type*}

/-!
## Occurrences
-/

/-- The word stands in the text at the offset. -/
def OccursAt (w xs : List A) (i : Nat) : Prop :=
  i + w.length ≤ xs.length ∧ (xs.drop i).take w.length = w

theorem occursAt_iff {w xs : List A} {i : Nat} :
    OccursAt w xs i <-> exists pre post, xs = pre ++ w ++ post ∧ pre.length = i := by
  constructor
  · intro h
    rcases h with ⟨hlen, htake⟩
    refine ⟨xs.take i, (xs.drop i).drop w.length, ?_, ?_⟩
    · have hdrop := List.take_append_drop w.length (xs.drop i)
      rw [htake] at hdrop
      rw [List.append_assoc, hdrop, List.take_append_drop]
    · rw [List.length_take]
      omega
  · intro h
    rcases h with ⟨pre, post, rfl, rfl⟩
    constructor
    · rw [List.length_append, List.length_append]
      omega
    · rw [List.append_assoc, List.drop_left, List.take_left]

theorem infix_iff_occursAt {w xs : List A} : w <:+: xs <-> exists i, OccursAt w xs i := by
  constructor
  · intro h
    rcases h with ⟨pre, post, heq⟩
    exact ⟨pre.length, occursAt_iff.mpr ⟨pre, post, heq.symm, rfl⟩⟩
  · intro h
    rcases h with ⟨i, hi⟩
    rcases occursAt_iff.mp hi with ⟨pre, post, heq, _⟩
    exact ⟨pre, post, heq.symm⟩

/-!
## Maps of words
-/

section Maps

variable [DecidableEq A]

/-- Words with a value each; a word that is there keeps its value. -/
abbrev WordMap (A V : Type*) := List (List A × V)

def WordMap.emplace (m : WordMap A V) (w : List A) (v : V) : WordMap A V :=
  if (List.lookup w m).isSome then m else m ++ [(w, v)]

def WordMap.ofList (es : List (List A × V)) : WordMap A V :=
  es.foldl (fun m e => WordMap.emplace m e.1 e.2) []

theorem WordMap.lookup_emplace (m : WordMap A V) (w : List A) (v : V) (w' : List A) :
    List.lookup w' (WordMap.emplace m w v) =
      if w' = w then some ((List.lookup w m).getD v) else List.lookup w' m := by
  unfold WordMap.emplace
  cases hw : List.lookup w m with
  | none =>
      rw [Option.isSome_none, if_neg (by decide), List.lookup_append]
      split_ifs with heq
      · rw [heq, hw]
        simp
      · have hlast : List.lookup w' [(w, v)] = none := by simp [heq]
        rw [hlast, Option.or_none]
  | some v' =>
      rw [Option.isSome_some, if_pos rfl]
      split_ifs with heq
      · rw [heq, hw]
        rfl
      · rfl

/-- Words grouped by their length, listed in the order of the lengths. -/
structure LengthTable (A V : Type*) where
  maps : OrdMap Nat (WordMap A V)
  lengths : forall n m, (n, m) ∈ maps.entries -> forall e, e ∈ m -> e.1.length = n

namespace LengthTable

def empty : LengthTable A V := ⟨OrdMap.empty, fun _ _ h => by cases h⟩

/-- The words of one length. -/
def atLength (t : LengthTable A V) (n : Nat) : WordMap A V := (t.maps.find? n).getD []

omit [DecidableEq A] in
theorem length_of_mem_atLength {t : LengthTable A V} {n : Nat} {e : List A × V}
    (h : e ∈ t.atLength n) : e.1.length = n := by
  unfold atLength at h
  cases hn : t.maps.find? n with
  | none =>
      rw [hn] at h
      cases h
  | some m =>
      rw [hn] at h
      exact t.lengths n m (OrdMap.mem_entries.mpr hn) e h

def emplace (t : LengthTable A V) (w : List A) (v : V) : LengthTable A V where
  maps := t.maps.insert w.length (WordMap.emplace (t.atLength w.length) w v)
  lengths := by
    intro n m hnm e he
    rw [OrdMap.mem_entries, OrdMap.find?_insert] at hnm
    split_ifs at hnm with heq
    · rw [Option.some_inj] at hnm
      rw [← hnm] at he
      unfold WordMap.emplace at he
      split_ifs at he
      · rw [heq]
        exact length_of_mem_atLength he
      · rcases List.mem_append.mp he with he | he
        · rw [heq]
          exact length_of_mem_atLength he
        · rw [List.mem_singleton.mp he, heq]
    · exact t.lengths n m (OrdMap.mem_entries.mpr hnm) e he

def find? (t : LengthTable A V) (w : List A) : Option V :=
  List.lookup w (t.atLength w.length)

def ofList (es : List (List A × V)) : LengthTable A V :=
  es.foldl (fun t e => t.emplace e.1 e.2) empty

theorem find?_emplace (t : LengthTable A V) (w : List A) (v : V) (w' : List A) :
    (t.emplace w v).find? w' = if w' = w then some ((t.find? w).getD v) else t.find? w' := by
  have hat : (t.emplace w v).atLength w'.length =
      if w'.length = w.length then WordMap.emplace (t.atLength w.length) w v
      else t.atLength w'.length := by
    unfold atLength emplace
    dsimp only
    rw [OrdMap.find?_insert]
    split_ifs
    · rfl
    · rfl
  unfold find?
  rw [hat]
  split_ifs with hlen heq heq
  · rw [WordMap.lookup_emplace, if_pos heq]
  · rw [WordMap.lookup_emplace, if_neg heq, hlen]
  · exact absurd (congrArg List.length heq) hlen
  · rfl

end LengthTable

/-!
## Filling
-/

section Filling

variable {T : Type*} (emplace : T -> List A -> V -> T) (find : T -> List A -> Option V)
  (hfind : forall t w v w', find (emplace t w v) w' =
    if w' = w then some ((find t w).getD v) else find t w')

include hfind

/-- A word of a filled table has the value of one of its entries. -/
theorem mem_of_find_foldl {es : List (List A × V)} {t : T} {w : List A} {v : V}
    (h : find (es.foldl (fun t e => emplace t e.1 e.2) t) w = some v) :
    find t w = some v ∨ (w, v) ∈ es := by
  induction es generalizing t with
  | nil => exact Or.inl h
  | cons e rest ih =>
      rcases ih h with hnow | hrest
      · rw [hfind] at hnow
        split_ifs at hnow with heq
        · cases hw : find t e.1 with
          | none =>
              rw [hw, Option.getD_none, Option.some_inj] at hnow
              right
              rw [heq, ← hnow]
              exact List.mem_cons_self
          | some v' =>
              rw [hw, Option.getD_some] at hnow
              left
              rw [heq, hw, hnow]
        · exact Or.inl hnow
      · exact Or.inr (List.mem_cons_of_mem e hrest)

/-- Every word that was put into a table is found. -/
theorem isSome_find_foldl {es : List (List A × V)} {t : T} {w : List A}
    (h : (find t w).isSome = true ∨ exists v, (w, v) ∈ es) :
    (find (es.foldl (fun t e => emplace t e.1 e.2) t) w).isSome = true := by
  induction es generalizing t with
  | nil =>
      rcases h with h | ⟨v, h⟩
      · exact h
      · cases h
  | cons e rest ih =>
      apply ih
      rw [hfind]
      split_ifs with heq
      · exact Or.inl rfl
      · rcases h with h | ⟨v, h⟩
        · exact Or.inl h
        · rcases List.mem_cons.mp h with h | h
          · exact absurd (congrArg Prod.fst h) heq
          · exact Or.inr ⟨v, h⟩

end Filling

theorem WordMap.mem_of_lookup_ofList {es : List (List A × V)} {w : List A} {v : V}
    (h : List.lookup w (WordMap.ofList es) = some v) : (w, v) ∈ es := by
  rcases mem_of_find_foldl WordMap.emplace (fun m w => List.lookup w m)
    WordMap.lookup_emplace h with h | h
  · cases h
  · exact h

theorem WordMap.isSome_lookup_ofList {es : List (List A × V)} {w : List A} {v : V}
    (h : (w, v) ∈ es) : (List.lookup w (WordMap.ofList es)).isSome = true :=
  isSome_find_foldl WordMap.emplace (fun m w => List.lookup w m) WordMap.lookup_emplace
    (Or.inr ⟨v, h⟩)

theorem LengthTable.mem_of_find?_ofList {es : List (List A × V)} {w : List A} {v : V}
    (h : (LengthTable.ofList es).find? w = some v) : (w, v) ∈ es := by
  rcases mem_of_find_foldl LengthTable.emplace LengthTable.find?
    LengthTable.find?_emplace h with h | h
  · cases h
  · exact h

theorem LengthTable.isSome_find?_ofList {es : List (List A × V)} {w : List A} {v : V}
    (h : (w, v) ∈ es) : ((LengthTable.ofList es).find? w).isSome = true :=
  isSome_find_foldl LengthTable.emplace LengthTable.find? LengthTable.find?_emplace
    (Or.inr ⟨v, h⟩)

/-!
## Windows
-/

namespace LengthTable

/-- The windows of a length whose word is in the map. -/
def hitsAt (xs : List A) (n : Nat) (m : WordMap A V) : List (Nat × List A × V) :=
  (List.range (xs.length + 1 - n)).filterMap fun i =>
    (List.lookup ((xs.drop i).take n) m).map fun v => (i, (xs.drop i).take n, v)

/-- The windows of all lengths up to that of the text: a longer word ends the search. -/
def hitsFrom (xs : List A) : List (Nat × WordMap A V) -> List (Nat × List A × V)
  | [] => []
  | (n, m) :: rest => if n > xs.length then [] else hitsAt xs n m ++ hitsFrom xs rest

def hits (t : LengthTable A V) (xs : List A) : List (Nat × List A × V) :=
  hitsFrom xs t.maps.entries

theorem mem_hitsAt {xs : List A} {n : Nat} {m : WordMap A V} {i : Nat} {w : List A} {v : V}
    (hn : n ≤ xs.length) :
    (i, w, v) ∈ hitsAt xs n m <->
      w.length = n ∧ OccursAt w xs i ∧ List.lookup w m = some v := by
  unfold hitsAt
  rw [List.mem_filterMap]
  constructor
  · intro h
    rcases h with ⟨j, hj, heq⟩
    rcases Option.map_eq_some_iff.mp heq with ⟨v', hv', heq⟩
    injection heq with hji hrest
    injection hrest with hw hv
    rw [List.mem_range] at hj
    subst hji
    have hlen : w.length = n := by
      rw [← hw, List.length_take, List.length_drop]
      omega
    refine ⟨hlen, ⟨by omega, ?_⟩, ?_⟩
    · rw [hlen]
      exact hw
    · rw [← hw, ← hv]
      exact hv'
  · intro h
    rcases h with ⟨rfl, ⟨hi, hw⟩, hv⟩
    refine ⟨i, List.mem_range.mpr (by omega), ?_⟩
    rw [hw, hv]
    rfl

theorem mem_hitsFrom {xs : List A} {ms : List (Nat × WordMap A V)}
    (hsorted : ms.Pairwise (fun a b => a.1 < b.1)) {i : Nat} {w : List A} {v : V} :
    (i, w, v) ∈ hitsFrom xs ms <->
      exists m, (w.length, m) ∈ ms ∧ OccursAt w xs i ∧ List.lookup w m = some v := by
  induction ms with
  | nil =>
      constructor
      · intro h
        cases h
      · intro h
        rcases h with ⟨m, hm, _⟩
        cases hm
  | cons e rest ih =>
      rcases e with ⟨n, m⟩
      rcases List.pairwise_cons.mp hsorted with ⟨hhead, hrest⟩
      rw [hitsFrom]
      split_ifs with hn
      · -- The lengths increase, so no later word fits into the text.
        constructor
        · intro h
          cases h
        · intro h
          rcases h with ⟨m', hm', ⟨hlen, _⟩, _⟩
          rcases List.mem_cons.mp hm' with heq | hmem
          · injection heq with heq _
            omega
          · have hlt : n < w.length := hhead _ hmem
            omega
      · rw [List.mem_append, mem_hitsAt (Nat.le_of_not_lt hn), ih hrest]
        constructor
        · intro h
          rcases h with ⟨hlen, hocc, hv⟩ | ⟨m', hm', hocc⟩
          · exact ⟨m, hlen ▸ List.mem_cons_self, hocc, hv⟩
          · exact ⟨m', List.mem_cons_of_mem _ hm', hocc⟩
        · intro h
          rcases h with ⟨m', hm', hocc, hv⟩
          rcases List.mem_cons.mp hm' with heq | hmem
          · injection heq with hlen hm
            exact Or.inl ⟨hlen, hocc, hm ▸ hv⟩
          · exact Or.inr ⟨m', hmem, hocc, hv⟩

/-- The search finds the words of the table exactly where they stand. -/
theorem mem_hits {t : LengthTable A V} {xs : List A} {i : Nat} {w : List A} {v : V} :
    (i, w, v) ∈ t.hits xs <-> OccursAt w xs i ∧ t.find? w = some v := by
  unfold hits
  rw [mem_hitsFrom t.maps.sorted]
  unfold find? atLength
  constructor
  · intro h
    rcases h with ⟨m, hm, hocc, hv⟩
    refine ⟨hocc, ?_⟩
    rw [OrdMap.mem_entries.mp hm]
    exact hv
  · intro h
    rcases h with ⟨hocc, hv⟩
    cases hm : t.maps.find? w.length with
    | none =>
        rw [hm] at hv
        cases hv
    | some m =>
        rw [hm] at hv
        exact ⟨m, OrdMap.mem_entries.mpr hm, hocc, hv⟩

end LengthTable

end Maps

/-!
## Maximal runs
-/

section Runs

variable {p : A -> Bool}

/-- A part of the text in which the predicate holds and that cannot be made longer. -/
structure MaximalRun (p : A -> Bool) (xs : List A) (i : Nat) (w : List A) : Prop where
  nonempty : w ≠ []
  holds : forall c, c ∈ w -> p c = true
  bounded : exists pre post, xs = pre ++ w ++ post ∧ pre.length = i ∧
    (forall c, pre.getLast? = some c -> p c = false) ∧
    (forall c, post.head? = some c -> p c = false)

/-- A map that keeps the predicate keeps the runs. -/
theorem maximalRun_map {f : A -> A} (hf : forall c, p (f c) = p c) {xs : List A} {i : Nat}
    {w : List A} :
    MaximalRun p (xs.map f) i w <-> exists run, MaximalRun p xs i run ∧ run.map f = w := by
  have hbound : forall {o : Option A},
      (forall c, o.map f = some c -> p c = false) <-> forall c, o = some c -> p c = false := by
    intro o
    cases o with
    | none => simp
    | some a => simp [hf]
  constructor
  · intro h
    rcases h.bounded with ⟨pre, post, heq, hlen, hpre, hpost⟩
    rcases List.map_eq_append_iff.mp heq with ⟨front, post', rfl, hfront, rfl⟩
    rcases List.map_eq_append_iff.mp hfront with ⟨pre', run, rfl, rfl, rfl⟩
    rw [List.length_map] at hlen
    rw [List.getLast?_map] at hpre
    rw [List.head?_map] at hpost
    refine ⟨run, ⟨?_, ?_, pre', post', rfl, hlen, hbound.mp hpre, hbound.mp hpost⟩, rfl⟩
    · intro hnil
      exact h.nonempty (by rw [hnil]; rfl)
    · intro c hc
      rw [← hf]
      exact h.holds _ (List.mem_map_of_mem hc)
  · intro h
    rcases h with ⟨run, hrun, rfl⟩
    rcases hrun.bounded with ⟨pre, post, rfl, hlen, hpre, hpost⟩
    refine ⟨?_, ?_, pre.map f, post.map f, ?_, ?_, ?_, ?_⟩
    · intro hnil
      exact hrun.nonempty (List.map_eq_nil_iff.mp hnil)
    · intro c hc
      rcases List.mem_map.mp hc with ⟨d, hd, rfl⟩
      rw [hf]
      exact hrun.holds d hd
    · rw [List.map_append, List.map_append]
    · rw [List.length_map, hlen]
    · rw [List.getLast?_map]
      exact hbound.mpr hpre
    · rw [List.head?_map]
      exact hbound.mpr hpost

/-- The runs from an offset on: at the start of a run it is read to its end. -/
def runsFrom (p : A -> Bool) (i : Nat) (xs : List A) : List (Nat × List A) :=
  match xs with
  | [] => []
  | c :: rest =>
      if p c then
        (i, (c :: rest).takeWhile p) ::
          runsFrom p (i + ((c :: rest).takeWhile p).length) (rest.dropWhile p)
      else runsFrom p (i + 1) rest
termination_by xs.length
decreasing_by
  · exact Nat.lt_succ_of_le (List.dropWhile_suffix p).length_le
  · exact Nat.lt_succ_self _

def runs (p : A -> Bool) (xs : List A) : List (Nat × List A) := runsFrom p 0 xs

theorem takeWhile_eq_nil {post : List A} (h : forall c, post.head? = some c -> p c = false) :
    post.takeWhile p = [] := by
  cases post with
  | nil => rfl
  | cons c rest =>
      rw [List.takeWhile_cons_of_neg]
      rw [h c rfl]
      decide

/-- A part is read to its end when the predicate fails right after it. -/
theorem takeWhile_append_eq {w post : List A} (hw : forall c, c ∈ w -> p c = true)
    (hpost : forall c, post.head? = some c -> p c = false) :
    (w ++ post).takeWhile p = w := by
  rw [List.takeWhile_append_of_pos hw, takeWhile_eq_nil hpost, List.append_nil]

theorem head?_dropWhile {xs : List A} {c : A} (h : (xs.dropWhile p).head? = some c) :
    p c = false := by
  have hnot := List.head?_dropWhile_not p xs
  rw [h] at hnot
  simpa using hnot

theorem maximalRun_cons {c : A} (hc : p c = false) {rest : List A} {j : Nat} {w : List A} :
    MaximalRun p (c :: rest) j w <-> exists k, j = k + 1 ∧ MaximalRun p rest k w := by
  constructor
  · intro h
    rcases h.bounded with ⟨pre, post, heq, hlen, hpre, hpost⟩
    cases pre with
    | nil =>
        -- A run does not start with an element outside it.
        cases w with
        | nil => exact absurd rfl h.nonempty
        | cons d w =>
            injection heq with heq _
            have hd := h.holds d List.mem_cons_self
            rw [← heq, hc] at hd
            cases hd
    | cons d pre =>
        injection heq with hcd heq
        refine ⟨pre.length, hlen.symm, h.nonempty, h.holds, pre, post, heq, rfl, ?_, hpost⟩
        intro a ha
        apply hpre a
        cases pre with
        | nil => cases ha
        | cons b pre => exact ha
  · intro h
    rcases h with ⟨k, rfl, hrun⟩
    rcases hrun.bounded with ⟨pre, post, heq, hlen, hpre, hpost⟩
    refine ⟨hrun.nonempty, hrun.holds, c :: pre, post, by rw [heq]; rfl, by simp [hlen], ?_,
      hpost⟩
    intro a ha
    cases pre with
    | nil =>
        have hac : c = a := by simpa using ha
        rw [← hac]
        exact hc
    | cons b pre => exact hpre a ha

theorem maximalRun_append {w0 post0 : List A} (hne : w0 ≠ [])
    (hw0 : forall c, c ∈ w0 -> p c = true)
    (hpost0 : forall c, post0.head? = some c -> p c = false) {j : Nat} {w : List A} :
    MaximalRun p (w0 ++ post0) j w <->
      (j = 0 ∧ w = w0) ∨ exists k, j = w0.length + k ∧ MaximalRun p post0 k w := by
  constructor
  · intro h
    rcases h.bounded with ⟨pre, post, heq, hlen, hpre, hpost⟩
    rcases List.eq_nil_or_concat pre with hnil | ⟨pre', d, hconcat⟩
    · left
      rw [hnil] at heq hlen
      refine ⟨hlen.symm, ?_⟩
      rw [← takeWhile_append_eq hw0 hpost0, heq]
      exact (takeWhile_append_eq h.holds hpost).symm
    · right
      have hd : p d = false := by
        apply hpre
        rw [hconcat, List.concat_eq_append, List.getLast?_concat]
      rw [List.append_assoc] at heq
      rcases List.append_eq_append_iff.mp heq with ⟨rest, hpre', hrest⟩ | ⟨rest, hw, hrest⟩
      · refine ⟨rest.length, ?_, h.nonempty, h.holds, rest, post, ?_, rfl, ?_, hpost⟩
        · rw [← hlen, hpre', List.length_append]
        · rw [hrest, List.append_assoc]
        · intro a ha
          apply hpre a
          rw [hpre', List.getLast?_append, ha]
          rfl
      · -- The element before the run would lie in the first run.
        have hmem : d ∈ w0 := by
          rw [hw, hconcat]
          simp
        rw [hw0 d hmem] at hd
        cases hd
  · intro h
    rcases h with ⟨rfl, rfl⟩ | ⟨k, rfl, hrun⟩
    · refine ⟨hne, hw0, [], post0, rfl, rfl, ?_, hpost0⟩
      intro c hc
      cases hc
    · rcases hrun.bounded with ⟨pre, post, heq, hlen, hpre, hpost⟩
      refine ⟨hrun.nonempty, hrun.holds, w0 ++ pre, post, ?_, ?_, ?_, hpost⟩
      · rw [heq, List.append_assoc, List.append_assoc, List.append_assoc]
      · rw [List.length_append, hlen]
      · intro a ha
        cases pre with
        | nil =>
            -- The rest starts outside a run.
            cases w with
            | nil => exact absurd rfl hrun.nonempty
            | cons d w =>
                have hd := hrun.holds d List.mem_cons_self
                rw [hpost0 d (by rw [heq]; rfl)] at hd
                cases hd
        | cons b pre =>
            apply hpre a
            rw [List.getLast?_append] at ha
            cases hb : (b :: pre).getLast? with
            | none => simp at hb
            | some b' =>
                rw [hb] at ha
                exact ha

theorem mem_runsFrom {i : Nat} {xs : List A} {j : Nat} {w : List A} :
    (j, w) ∈ runsFrom p i xs <-> exists k, j = i + k ∧ MaximalRun p xs k w := by
  fun_induction runsFrom p i xs with
  | case1 i =>
      constructor
      · intro h
        cases h
      · intro h
        rcases h with ⟨k, _, hrun⟩
        rcases hrun.bounded with ⟨pre, post, heq, _⟩
        have hw : w = [] := by simp at heq; exact heq.2.1
        exact absurd hw hrun.nonempty
  | case2 i c rest hc ih =>
      have hsplit : c :: rest = (c :: rest).takeWhile p ++ rest.dropWhile p := by
        have hdrop : (c :: rest).dropWhile p = rest.dropWhile p := List.dropWhile_cons_of_pos hc
        rw [← hdrop, List.takeWhile_append_dropWhile]
      have hall : forall d, d ∈ (c :: rest).takeWhile p -> p d = true := by
        have hall := List.all_takeWhile (p := p) (l := c :: rest)
        rw [List.all_eq_true] at hall
        exact hall
      have hne : (c :: rest).takeWhile p ≠ [] := by
        rw [List.takeWhile_cons_of_pos hc]
        exact List.cons_ne_nil _ _
      rw [List.mem_cons, ih]
      conv => rhs; rw [hsplit]
      simp only [maximalRun_append hne hall (fun d hd => head?_dropWhile hd)]
      constructor
      · intro h
        rcases h with heq | ⟨k, rfl, hrun⟩
        · injection heq with hj hw
          exact ⟨0, by rw [hj, Nat.add_zero], Or.inl ⟨rfl, hw⟩⟩
        · exact ⟨_, Nat.add_assoc _ _ _, Or.inr ⟨k, rfl, hrun⟩⟩
      · intro h
        rcases h with ⟨k, rfl, ⟨rfl, rfl⟩ | ⟨k', rfl, hrun⟩⟩
        · exact Or.inl rfl
        · exact Or.inr ⟨k', (Nat.add_assoc _ _ _).symm, hrun⟩
  | case3 i c rest hc ih =>
      have hfalse : p c = false := by simpa using hc
      rw [ih]
      simp only [maximalRun_cons hfalse]
      constructor
      · intro h
        rcases h with ⟨k, rfl, hrun⟩
        exact ⟨k + 1, by omega, k, rfl, hrun⟩
      · intro h
        rcases h with ⟨_, rfl, k, rfl, hrun⟩
        exact ⟨k, by omega, hrun⟩

theorem mem_runs {xs : List A} {j : Nat} {w : List A} :
    (j, w) ∈ runs p xs <-> MaximalRun p xs j w := by
  unfold runs
  rw [mem_runsFrom]
  constructor
  · intro h
    rcases h with ⟨k, rfl, hrun⟩
    rw [Nat.zero_add]
    exact hrun
  · intro h
    exact ⟨j, (Nat.zero_add j).symm, h⟩

end Runs

end Foundation
end Ostia

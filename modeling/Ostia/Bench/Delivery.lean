import Ostia.Bench.Exits
import Ostia.Foundation.Fallible

/-!
# A fabric that stores what it is told

When every put is stored where it was sent, the transfers fill the region with the pattern, and
the ranks end well unless the target corrupts its own data.
-/

namespace Ostia
namespace Bench
namespace Rendezvous

open Foundation
open Framing (Reader frame frames)

variable {s : Setup} {w w' : World}

/-!
## What a transfer covers
-/

def Covers (p : Put) (i : Nat) : Prop := p.offset ≤ i ∧ i < p.offset + p.length

/-- The puts that a stream issues cover what it has passed. -/
theorem issue_covers (immediate : Put -> Bool) (fuel : Nat) (st : PutStream) :
    (st.issue immediate fuel).2.stop = st.stop ∧
      forall i, st.next ≤ i -> i < (st.issue immediate fuel).2.next ->
        exists p, p ∈ (st.issue immediate fuel).1 ∧ Covers p i := by
  induction fuel generalizing st with
  | zero =>
      refine ⟨rfl, ?_⟩
      intro i hlow hhigh
      exact absurd hhigh (Nat.not_lt.mpr hlow)
  | succ fuel ih =>
      rw [PutStream.issue]
      split_ifs with hroom
      · obtain ⟨hstop, hcovers⟩ := ih { st with
          next := st.next + st.nextPut.length
          pending := if immediate st.nextPut then st.pending else st.pending ++ [st.nextPut] }
        refine ⟨hstop, ?_⟩
        intro i hlow hhigh
        by_cases hfirst : i < st.next + st.nextPut.length
        · exact ⟨st.nextPut, List.mem_cons_self, hlow, hfirst⟩
        · obtain ⟨p, hp, hi⟩ := hcovers i (Nat.not_lt.mp hfirst) hhigh
          exact ⟨p, List.mem_cons_of_mem _ hp, hi⟩
      · refine ⟨rfl, ?_⟩
        intro i hlow hhigh
        exact absurd hhigh (Nat.not_lt.mpr hlow)

variable (s) in
/-- A byte of a path. -/
def InPath (path i : Nat) : Prop := path * s.bytes ≤ i ∧ i < path * s.bytes + s.bytes

/-- The byte of the region is that of the pattern. -/
def Right (region : Memory) (i : Nat) : Prop := region i = pattern kSeed i

variable (s) in
def Filled (region : Memory) (paths : List Nat) : Prop :=
  forall path, path ∈ paths -> forall i, InPath s path i -> Right region i

variable (s) in
/-- What a stream has passed is stored or on its way. -/
structure Passed (region : Memory) (moving : List Put) (path : Nat) (st : PutStream) : Prop where
  stop : st.stop = path * s.bytes + s.bytes
  passed : forall i, path * s.bytes ≤ i -> i < st.next ->
    Right region i ∨ exists p, p ∈ moving ∧ Covers p i

variable (s) in
/-- How far the transfers have come. -/
def Delivered (region : Memory) (moving : List Put) (faulty : Bool) : Source -> Prop
  | .info _ => True
  | .measuring _ streams later => exists before current,
      s.rounds = before ++ current :: later ∧ Filled s region before.flatten ∧
        List.Forall₂ (Passed s region moving) current streams
  | .exited _ => faulty = false -> Filled s region s.rounds.flatten
  | _ => Filled s region s.rounds.flatten

theorem passed_newStream (region : Memory) (moving : List Put) (path : Nat) :
    Passed s region moving path (newStream s path) where
  stop := rfl
  passed := fun _ hlow hhigh => absurd hhigh (Nat.not_lt.mpr hlow)

theorem delivered_begin {region : Memory} {moving : List Put} {faulty : Bool} (peer : Info)
    (before : List (List Nat)) {later : List (List Nat)} (hrounds : s.rounds = before ++ later)
    (hfilled : Filled s region before.flatten) :
    Delivered s region moving faulty (begin s peer later) := by
  cases later with
  | nil =>
      rw [List.append_nil] at hrounds
      rw [<- hrounds] at hfilled
      exact hfilled
  | cons current later =>
      refine ⟨before, current, hrounds, hfilled, ?_⟩
      rw [List.forall₂_map_right_iff, List.forall₂_same]
      exact fun path _ => passed_newStream region moving path

/-- A stream that is done has passed its whole path. -/
theorem Passed.filled {region : Memory} {path : Nat} {st : PutStream}
    (h : Passed s region [] path st) (hdone : st.done = true) {i : Nat} (hi : InPath s path i) :
    Right region i := by
  unfold PutStream.done at hdone
  rw [Bool.and_eq_true, decide_eq_true_iff, h.stop] at hdone
  cases h.passed i hi.1 (hi.2.trans_le hdone.1) with
  | inl hright => exact hright
  | inr hmoving =>
      obtain ⟨p, hp, _⟩ := hmoving
      cases hp

theorem Passed.more {region : Memory} {moving : List Put} {path : Nat} {st : PutStream}
    (h : Passed s region moving path st) (new : List Put) :
    Passed s region (moving ++ new) path st where
  stop := h.stop
  passed := fun i hlow hhigh => (h.passed i hlow hhigh).imp_right fun hp => by
    obtain ⟨p, hp, hi⟩ := hp
    exact ⟨p, List.mem_append_left new hp, hi⟩

theorem Passed.step {region : Memory} {moving : List Put} {path : Nat} {st : PutStream}
    (h : Passed s region moving path st) (immediate inProgress : Put -> Bool) :
    Passed s region (moving ++ (st.step immediate inProgress).1) path
      (st.step immediate inProgress).2 := by
  obtain ⟨hstop, hcovers⟩ := issue_covers immediate (st.stop - st.next) st
  constructor
  · exact hstop.trans h.stop
  · intro i hlow hhigh
    by_cases hold : i < st.next
    · exact (h.more _).passed i hlow hold
    · obtain ⟨p, hp, hi⟩ := hcovers i (Nat.not_lt.mp hold) hhigh
      exact .inr ⟨p, List.mem_append_right moving hp, hi⟩

theorem inverted_ne (x : UInt8) : x ^^^ 0xff ≠ x := by
  intro h
  have hcancel := (UInt8.xor_right_inj x).mp (h.trans UInt8.xor_zero.symm)
  cases hcancel

/-- A full region differs only where the target inverts it. -/
theorem countOf_eq_zero_iff {region : Memory}
    (hall : forall path, path < s.info.sessions.length -> exists round, round ∈ s.rounds ∧
      path ∈ round)
    (hsome : 0 < s.total) (hfilled : Filled s region s.rounds.flatten) :
    countOf s s.total region = 0 <-> s.corrupt = false := by
  have hright : forall i, i < s.total -> Right region i := by
    intro i hi
    have hbytes : 0 < s.bytes := Nat.pos_of_mul_pos_right (show 0 < s.bytes * _ from hsome)
    obtain ⟨round, hround, hpath⟩ := hall (i / s.bytes) (Nat.div_lt_of_lt_mul hi)
    apply hfilled (i / s.bytes) (List.mem_flatten.mpr ⟨round, hround, hpath⟩)
    constructor
    · exact Nat.div_mul_le_self i s.bytes
    · exact Nat.lt_div_mul_add hbytes
  unfold countOf
  rw [countMismatches_eq_zero_iff]
  simp only [Nat.zero_add]
  unfold checked
  cases hcorrupt : s.corrupt with
  | false =>
      apply iff_of_true _ rfl
      exact hright
  | true =>
      apply iff_of_false
      · intro hsame
        have hmiddle := hsame (s.total / 2) (Nat.div_lt_self hsome (by decide))
        rw [if_pos rfl, Function.update_self, hright _ (Nat.div_lt_self hsome (by decide))]
          at hmiddle
        exact inverted_ne _ hmiddle
      · decide

/-!
## What the fabric stores
-/

section Honest

variable (hplace : forall p, s.place p = p.offset)

include hplace

theorem store_right {region : Memory} {put : Put} {i : Nat} (h : Right region i ∨ Covers put i) :
    Right (store (pattern kSeed) s.place region put) i := by
  unfold Right
  rw [store_apply, hplace]
  split_ifs with hcovers
  · rw [Nat.add_sub_cancel' hcovers.1]
  · cases h with
    | inl hright => exact hright
    | inr hnever => exact absurd hnever hcovers

theorem Passed.stores {region : Memory} {moving : List Put} {path : Nat} {st : PutStream}
    (h : Passed s region moving path st) (put : Put) :
    Passed s (store (pattern kSeed) s.place region put) (moving.erase put) path st := by
  constructor
  · exact h.stop
  · intro i hlow hhigh
    cases h.passed i hlow hhigh with
    | inl hright => exact .inl (store_right hplace (.inl hright))
    | inr hmoving =>
        obtain ⟨p, hp, hi⟩ := hmoving
        by_cases hput : p = put
        · rw [hput] at hi
          exact .inl (store_right hplace (.inr hi))
        · exact .inr ⟨p, (List.mem_erase_of_ne hput).mpr hp, hi⟩

theorem Filled.stores {region : Memory} {paths : List Nat} (h : Filled s region paths) (put : Put) :
    Filled s (store (pattern kSeed) s.place region put) paths :=
  fun path hpath i hi => store_right hplace (.inl (h path hpath i hi))

theorem Delivered.stores {region : Memory} {moving : List Put} {faulty : Bool} {source : Source}
    (h : Delivered s region moving faulty source) (put : Put) :
    Delivered s (store (pattern kSeed) s.place region put) (moving.erase put) faulty source := by
  cases source with
  | info r => trivial
  | measuring peer streams later =>
      obtain ⟨before, current, hrounds, hfilled, hpassed⟩ := h
      exact ⟨before, current, hrounds, hfilled.stores hplace put,
        hpassed.imp fun _ _ hpath => hpath.stores hplace put⟩
  | exited exit => exact fun hclean => (h hclean).stores hplace put
  | verify rest => exact Filled.stores hplace h put
  | reply r => exact Filled.stores hplace h put
  | quit good rest => exact Filled.stores hplace h put
  | crashed => exact Filled.stores hplace h put

/-!
## Steps
-/

omit hplace in
/-- One stream goes on while the others wait. -/
theorem forall₂_set {A B : Type*} {R R' : A -> B -> Prop} {xs : List A} {ys : List B} {i : Nat}
    {y y' : B} (h : List.Forall₂ R xs ys) (hy : ys[i]? = some y)
    (hothers : forall a b, R a b -> R' a b) (hthis : forall a, R a y -> R' a y') :
    List.Forall₂ R' xs (ys.set i y') := by
  induction h generalizing i with
  | nil => cases hy
  | @cons a b xs ys hab hrest ih =>
      cases i with
      | zero =>
          cases hy
          exact .cons (hthis a hab) (hrest.imp hothers)
      | succ i => exact .cons (hothers a b hab) (ih hy)

omit hplace in
theorem Delivered.sourceMoves {region : Memory} {moving : List Put} {faulty : Bool}
    {source failed : Source} (h : Delivered s region moving faulty source)
    (hfail : source.fail = some failed) :
    Delivered s region moving true failed := by
  cases Source.fail_eq_some hfail with
  | inl hexited =>
      obtain ⟨exit, rfl⟩ := hexited
      intro hclean
      cases hclean
  | inr hquits =>
      obtain ⟨⟨rest, hsource⟩ | ⟨r, hsource⟩, rfl⟩ := hquits
      · rw [hsource] at h
        exact h
      · rw [hsource] at h
        exact h

omit hplace in
theorem Delivered.faulty {region : Memory} {moving : List Put} {faulty : Bool}
    {source : Source} (h : Delivered s region moving faulty source) :
    Delivered s region moving true source := by
  cases source with
  | exited exit =>
      intro hclean
      cases hclean
  | _ => exact h

theorem Delivered.act {a : Action} (hstreams : Streams s w) (hends : Ends w)
    (h : Delivered s w.region w.moving w.faulty w.source) (hact : w.act s a = some w') :
    Delivered s w'.region w'.moving w'.faulty w'.source := by
  cases a with
  | sourceReceives k =>
      obtain ⟨_, down, hheard⟩ := hstreams.sourceReceives hact
      cases hheard with
      | moreInfo r next hsource hw =>
          rw [hw]
          trivial
      | moreReply r next hsource hw =>
          rw [hw]
          rw [hsource] at h
          exact h
      | info r hsource hw =>
          rw [hw]
          apply delivered_begin s.info [] rfl
          intro path hpath
          cases hpath
      | reply r b hsource hb hw =>
          rw [hw]
          rw [hsource] at h
          exact h
  | sourceSends k =>
      simp only [World.act, Option.bind_eq_bind, Option.bind_eq_some_iff] at hact
      obtain ⟨⟨rest', up⟩, hpush, hw⟩ := hact
      rw [Option.some_inj] at hw
      rw [<- hw]
      have hne := (pushed hpush).1
      cases hsource : w.source with
      | verify rest =>
          rw [hsource] at h
          simp only
          split_ifs
          · exact h
          · exact h
      | quit good rest =>
          rw [hsource] at h
          simp only
          split_ifs
          · exact fun _ => h
          · exact h
      | _ =>
          rw [hsource] at hne
          exact absurd rfl hne
  | sourceSteps i immediate inProgress =>
      have hstep : stepStream i immediate inProgress w = some w' := hact
      unfold stepStream at hstep
      cases hsource : w.source with
      | measuring peer streams later =>
          rw [hsource] at hstep h
          simp only at hstep
          cases hstream : streams[i]? with
          | none =>
              rw [hstream] at hstep
              cases hstep
          | some stream =>
              rw [hstream] at hstep
              simp only at hstep
              split_ifs at hstep
              rw [Option.some_inj] at hstep
              rw [<- hstep]
              obtain ⟨before, current, hrounds, hfilled, hpassed⟩ := h
              refine ⟨before, current, hrounds, hfilled, ?_⟩
              apply forall₂_set hpassed hstream
              · exact fun _ _ hpath => hpath.more _
              · exact fun _ hpath => hpath.step immediate inProgress
      | _ =>
          rw [hsource] at hstep
          cases hstep
  | sourceFlushes =>
      have hflush : flush s w = some w' := hact
      unfold flush at hflush
      cases hsource : w.source with
      | measuring peer streams later =>
          rw [hsource] at hflush h
          simp only at hflush
          split_ifs at hflush with hdone
          rw [Option.some_inj] at hflush
          rw [<- hflush]
          obtain ⟨before, current, hrounds, hfilled, hpassed⟩ := h
          rw [hdone.2] at hpassed
          apply delivered_begin peer (before ++ [current])
          · rw [List.append_assoc, List.singleton_append]
            exact hrounds
          · intro path hpath i hi
            rw [List.flatten_append, List.flatten_singleton, List.mem_append] at hpath
            cases hpath with
            | inl hbefore => exact hfilled path hbefore i hi
            | inr hcurrent =>
                obtain ⟨stream, hstream, hpath⟩ := Fallible.forall₂_mem_left hpassed hcurrent
                exact hpath.filled (List.all_eq_true.mp hdone.1 stream hstream) hi
      | _ =>
          rw [hsource] at hflush
          cases hflush
  | sourceHangsUp =>
      simp only [World.act] at hact
      split_ifs at hact with hgone
      obtain ⟨failed, hfail, rfl⟩ := Option.map_eq_some_iff.mp hact
      have hfails := h.sourceMoves hfail
      rw [<- hends.faulty_of_targetExited hgone.1 hgone.2.1] at hfails
      exact hfails
  | sourceFails =>
      simp only [World.act] at hact
      obtain ⟨failed, hfail, rfl⟩ := Option.map_eq_some_iff.mp hact
      exact h.sourceMoves hfail
  | sourceDies =>
      simp only [World.act] at hact
      split_ifs at hact
      rw [Option.some_inj] at hact
      rw [<- hact]
      intro hclean
      cases hclean
  | targetReceives k =>
      obtain ⟨_, rc, r, up, _, hheard⟩ := hstreams.targetReceives hact
      cases hheard with
      | more next hup hw =>
          rw [hw]
          exact h
      | verify hnone hasked hup hw =>
          rw [hw]
          exact h
      | quit hcounted hup hw =>
          rw [hw]
          exact h
  | targetSends k =>
      simp only [World.act, Option.bind_eq_bind, Option.bind_eq_some_iff] at hact
      obtain ⟨r, _, hw⟩ := hact
      rw [Option.some_inj] at hw
      rw [<- hw]
      exact h
  | targetHangsUp =>
      simp only [World.act] at hact
      split_ifs at hact
      obtain ⟨failed, _, rfl⟩ := Option.map_eq_some_iff.mp hact
      exact h
  | targetFails =>
      simp only [World.act] at hact
      obtain ⟨failed, _, rfl⟩ := Option.map_eq_some_iff.mp hact
      exact h.faulty
  | stores put =>
      simp only [World.act] at hact
      split_ifs at hact
      rw [Option.some_inj] at hact
      rw [<- hact]
      exact h.stores hplace put

theorem Reached.delivered (h : Reached s w) (hcut : w.cut = false) :
    Delivered s w.region w.moving w.faulty w.source := by
  revert hcut
  apply Transition.Reached.invariant
    (P := fun w => w.cut = false -> Delivered s w.region w.moving w.faulty w.source) _ _ h
  · intro _
    trivial
  · intro w a w' hreached hdelivered _ hact hcut
    have hbefore := cut_before hact hcut
    exact (hdelivered hbefore).act hplace (Reached.streams hreached hbefore)
      (Reached.ends hreached hbefore) hact

/-- On such a fabric, once every path was in some transfer and no operation failed, the ranks end
well unless the target corrupts its own data. -/
theorem ok_iff_not_corrupt
    (hall : forall path, path < s.info.sessions.length -> exists round, round ∈ s.rounds ∧
      path ∈ round)
    (hsome : 0 < s.total) (h : Reached s w) (hclean : w.faulty = false) {a b : Exit}
    (hsource : w.source = .exited a) (htarget : w.target = .exited b) :
    a = b ∧ (a = .ok <-> s.corrupt = false) := by
  have hcut := h.cut_eq_false hclean
  have hends := h.ends hcut
  have hdelivered := h.delivered hplace hcut
  rw [hsource] at hdelivered
  have hcount := countOf_eq_zero_iff hall hsome (hdelivered hclean)
  have ha := (h.ok_iff hclean (hends.source a (by rw [hsource]; rfl))).trans hcount
  have hb := (h.ok_iff hclean (hends.target b htarget)).trans hcount
  exact ⟨exit_unique ha hb, ha⟩

end Honest

theorem ok_iff_not_corrupt_rails : exists w, Reached rails w ∧ w.source = .exited .ok ∧
    w.target = .exited .ok ∧ Exit.ok = Exit.ok ∧ (Exit.ok = .ok <-> rails.corrupt = false) := by
  obtain ⟨w, hreached, hsource, htarget, hclean⟩ := exists_rails
  refine ⟨w, hreached, hsource, htarget, ok_iff_not_corrupt (fun _ => rfl) ?_ (by decide) hreached
    hclean hsource htarget⟩
  intro path hpath
  exact ⟨[0, 1], by decide, List.mem_range.mpr hpath⟩

end Rendezvous
end Bench
end Ostia

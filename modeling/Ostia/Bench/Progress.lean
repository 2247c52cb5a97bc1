import Ostia.Bench.Exits

/-!
# The ranks can always end

Neither rank waits for the other in vain: from whatever state the two have reached, steps without
any further failure end both.
-/

namespace Ostia
namespace Bench
namespace Rendezvous

open Foundation
open Framing (Reader frame frames)

/-!
## The work of a stream
-/

/-- What is left of a stream: the bytes to issue and the puts that have not completed. -/
def streamWork (st : PutStream) : Nat := 3 * (st.stop - st.next) + st.pending.length

variable (s : Setup)

/-- A stream that can go on. -/
structure CanIssue (st : PutStream) : Prop where
  inflight : st.inflight = s.inflight
  chunk : st.next < st.stop -> 0 < st.chunk

variable {s}

theorem canIssue_newStream (path : Nat) : CanIssue s (newStream s path) := by
  constructor
  · rfl
  · intro hlt
    show 0 < if s.chunk = 0 then s.bytes else s.chunk
    have hbytes : path * s.bytes < path * s.bytes + s.bytes := hlt
    split_ifs with hchunk
    · omega
    · exact Nat.pos_of_ne_zero hchunk

theorem CanIssue.issue (immediate : Put -> Bool) (fuel : Nat) {st : PutStream}
    (h : CanIssue s st) : CanIssue s (st.issue immediate fuel).2 := by
  induction fuel generalizing st with
  | zero => exact h
  | succ fuel ih =>
      rw [PutStream.issue]
      split_ifs with hroom
      · apply ih
        exact ⟨h.inflight, fun _ => h.chunk hroom.1⟩
      · exact h

theorem CanIssue.step (immediate inProgress : Put -> Bool) {st : PutStream} (h : CanIssue s st) :
    CanIssue s (st.step immediate inProgress).2 := by
  have hissue := h.issue immediate (st.stop - st.next)
  exact ⟨hissue.inflight, hissue.chunk⟩

/-- Puts that complete at once are paid for by the bytes that they take. -/
theorem work_issue (fuel : Nat) {st : PutStream} (h : CanIssue s st) :
    3 * ((st.issue (fun _ => true) fuel).2.stop - (st.issue (fun _ => true) fuel).2.next) +
      3 * (st.issue (fun _ => true) fuel).1.length ≤ 3 * (st.stop - st.next) := by
  induction fuel generalizing st with
  | zero => exact Nat.le_refl _
  | succ fuel ih =>
      by_cases hroom : st.next < st.stop ∧ st.pending.length < st.inflight
      · have hchunk := h.chunk hroom.1
        have hlength : 0 < st.nextPut.length :=
          Nat.lt_min.mpr ⟨hchunk, Nat.sub_pos_of_lt hroom.1⟩
        have hrest := @ih { st with next := st.next + st.nextPut.length }
          ⟨h.inflight, fun _ => hchunk⟩
        rw [PutStream.issue, if_pos hroom]
        simp only [if_true, List.length_cons] at hrest ⊢
        omega
      · rw [PutStream.issue, if_neg hroom]
        exact Nat.le_refl _

theorem issue_ne_nil {fuel : Nat} {st : PutStream} (hnext : st.next < st.stop)
    (hroom : st.pending.length < st.inflight) (hfuel : 0 < fuel) :
    0 < (st.issue (fun _ => true) fuel).1.length := by
  cases fuel with
  | zero => cases hfuel
  | succ fuel =>
      rw [PutStream.issue, if_pos ⟨hnext, hroom⟩]
      exact Nat.succ_pos _

/-- A stream that is not done goes on. -/
theorem work_step {st : PutStream} (h : CanIssue s st) (hinflight : 0 < s.inflight)
    (hdone : st.done = false) :
    streamWork (st.step (fun _ => true) (fun _ => false)).2 +
      (st.step (fun _ => true) (fun _ => false)).1.length < streamWork st := by
  have hissue := work_issue (st.stop - st.next) h
  have hnone : (st.step (fun _ => true) (fun _ => false)).2.pending.length = 0 := by
    show (List.filter (fun _ => false) _).length = 0
    rw [List.filter_false]
    rfl
  have hstep : streamWork (st.step (fun _ => true) (fun _ => false)).2 =
      3 * ((st.issue (fun _ => true) (st.stop - st.next)).2.stop -
        (st.issue (fun _ => true) (st.stop - st.next)).2.next) := by
    unfold streamWork
    rw [hnone]
    rfl
  rw [hstep]
  show _ + (st.issue (fun _ => true) (st.stop - st.next)).1.length < _
  unfold streamWork
  cases hpending : st.pending with
  | nil =>
      have hnext : st.next < st.stop := by
        unfold PutStream.done at hdone
        rw [hpending, List.isEmpty_nil, Bool.and_true, decide_eq_false_iff_not] at hdone
        exact Nat.lt_of_not_le hdone
      have hputs := issue_ne_nil hnext
        (show st.pending.length < st.inflight by rw [hpending, h.inflight]; exact hinflight)
        (Nat.sub_pos_of_lt hnext)
      omega
  | cons p rest =>
      rw [List.length_cons]
      omega

/-!
## What is left of a run
-/

/-- A step that is no failure of its own. -/
def Action.IsClean : Action -> Prop
  | .sourceFails => False
  | .sourceDies => False
  | .targetFails => False
  | _ => True

variable (s)

def roundsWork (rounds : List (List Nat)) : Nat :=
  (rounds.map fun paths => 1 + ((paths.map (newStream s)).map streamWork).sum).sum

def Source.work : Source -> Nat
  | .info _ => roundsWork s s.rounds
  | .measuring _ streams later => 1 + (streams.map streamWork).sum + roundsWork s later
  | .reply _ => 1
  | _ => 0

/-- What the target still sends: the rest of a message, and the count. -/
def Target.left (counted : List Nat) (target : Target) : Nat :=
  if target.isExited then 0
  else 1 + 3 * (target.rest.length + if counted = [] then 16 else 0)

/-- A bound on the steps that are left.  A byte is sent, and then received. -/
def World.left (w : World) : Nat :=
  w.source.work s + 3 * (w.source.ahead s).length + w.up.length + w.target.left w.counted +
    w.down.length + w.moving.length

def Source.CanIssue : Source -> Prop
  | .measuring _ streams _ => forall st, st ∈ streams -> Rendezvous.CanIssue s st
  | _ => True

variable {s} {w w' : World}

theorem work_begin (peer : Info) (later : List (List Nat)) :
    (begin s peer later).work s = roundsWork s later := by
  cases later with
  | nil => rfl
  | cons paths later =>
      unfold roundsWork
      rw [List.map_cons, List.sum_cons]
      rfl

theorem canIssue_begin (peer : Info) (later : List (List Nat)) :
    (begin s peer later).CanIssue s := by
  cases later with
  | nil => trivial
  | cons paths later =>
      intro st hst
      obtain ⟨path, _, rfl⟩ := List.mem_map.mp hst
      exact canIssue_newStream path

theorem Source.CanIssue.fail {source failed : Source} (hfail : source.fail = some failed) :
    failed.CanIssue s := by
  cases Source.fail_eq_some hfail with
  | inl hexited =>
      obtain ⟨exit, rfl⟩ := hexited
      trivial
  | inr hquits =>
      rw [hquits.2]
      trivial

theorem canIssue_act {a : Action} (hstreams : Streams s w) (h : w.source.CanIssue s)
    (hact : w.act s a = some w') : w'.source.CanIssue s := by
  cases a with
  | sourceReceives k =>
      obtain ⟨_, down, hheard⟩ := hstreams.sourceReceives hact
      cases hheard with
      | moreInfo r next hsource hw =>
          rw [hw]
          trivial
      | moreReply r next hsource hw =>
          rw [hw]
          trivial
      | info r hsource hw =>
          rw [hw]
          exact canIssue_begin s.info s.rounds
      | reply r b hsource hb hw =>
          rw [hw]
          trivial
  | sourceSends k =>
      simp only [World.act, Option.bind_eq_bind, Option.bind_eq_some_iff] at hact
      obtain ⟨⟨rest', up⟩, hpush, hw⟩ := hact
      rw [Option.some_inj] at hw
      rw [<- hw]
      have hne := (pushed hpush).1
      show (if rest' = [] then _ else _ : Source).CanIssue s
      cases hsource : w.source with
      | verify rest =>
          split_ifs
          · trivial
          · trivial
      | quit good rest =>
          split_ifs
          · trivial
          · trivial
      | _ =>
          rw [hsource] at hne
          exact absurd rfl hne
  | sourceSteps i immediate inProgress =>
      have hstep : stepStream i immediate inProgress w = some w' := hact
      unfold stepStream at hstep
      cases hsource : w.source with
      | measuring peer streams later =>
          rw [hsource] at hstep h
          simp only at hstep
          cases hstream : streams[i]? with
          | none =>
              rw [hstream] at hstep
              cases hstep
          | some stream =>
              rw [hstream] at hstep
              simp only at hstep
              split_ifs at hstep
              rw [Option.some_inj] at hstep
              rw [<- hstep]
              intro st hst
              cases List.mem_or_eq_of_mem_set hst with
              | inl hold => exact h st hold
              | inr hnew =>
                  rw [hnew]
                  exact (h stream (List.mem_of_getElem? hstream)).step immediate inProgress
      | _ =>
          rw [hsource] at hstep
          cases hstep
  | sourceFlushes =>
      have hflush : flush s w = some w' := hact
      unfold flush at hflush
      cases hsource : w.source with
      | measuring peer streams later =>
          rw [hsource] at hflush
          simp only at hflush
          split_ifs at hflush
          rw [Option.some_inj] at hflush
          rw [<- hflush]
          exact canIssue_begin peer later
      | _ =>
          rw [hsource] at hflush
          cases hflush
  | sourceHangsUp =>
      simp only [World.act] at hact
      split_ifs at hact
      obtain ⟨failed, hfail, rfl⟩ := Option.map_eq_some_iff.mp hact
      exact Source.CanIssue.fail hfail
  | sourceFails =>
      simp only [World.act] at hact
      obtain ⟨failed, hfail, rfl⟩ := Option.map_eq_some_iff.mp hact
      exact Source.CanIssue.fail hfail
  | sourceDies =>
      simp only [World.act] at hact
      split_ifs at hact
      rw [Option.some_inj] at hact
      rw [<- hact]
      trivial
  | targetReceives k =>
      simp only [World.act, Option.bind_eq_bind, Option.bind_eq_some_iff] at hact
      obtain ⟨_, _, _, _, hw⟩ := hact
      rw [Option.some_inj] at hw
      rw [<- hw]
      exact h
  | targetSends k =>
      simp only [World.act, Option.bind_eq_bind, Option.bind_eq_some_iff] at hact
      obtain ⟨_, _, hw⟩ := hact
      rw [Option.some_inj] at hw
      rw [<- hw]
      exact h
  | targetHangsUp =>
      simp only [World.act] at hact
      split_ifs at hact
      obtain ⟨failed, _, rfl⟩ := Option.map_eq_some_iff.mp hact
      exact h
  | targetFails =>
      simp only [World.act] at hact
      obtain ⟨failed, _, rfl⟩ := Option.map_eq_some_iff.mp hact
      exact h
  | stores put =>
      simp only [World.act] at hact
      split_ifs at hact
      rw [Option.some_inj] at hact
      rw [<- hact]
      exact h

theorem Reached.canIssue (h : Reached s w) (hcut : w.cut = false) : w.source.CanIssue s := by
  revert hcut
  apply Transition.Reached.invariant (P := fun w => w.cut = false -> w.source.CanIssue s)
    (fun _ => trivial) _ h
  intro w a w' hreached hcan _ hact hcut
  have hbefore := cut_before hact hcut
  exact canIssue_act (Reached.streams hreached hbefore) (hcan hbefore) hact

/-!
## Moves
-/

variable (s) in
/-- A step without a failure of its own that leaves less to do. -/
def Advances (w : World) : Prop :=
  exists a w', a.IsClean ∧ w.act s a = some w' ∧ w'.left s < w.left s

theorem advances_stores (hmoving : w.moving ≠ []) : Advances s w := by
  obtain ⟨put, rest, hput⟩ := List.exists_cons_of_ne_nil hmoving
  have hmem : put ∈ w.moving := by
    rw [hput]
    exact List.mem_cons_self
  refine ⟨.stores put, _, trivial, if_pos hmem, ?_⟩
  have hlength := List.length_erase_of_mem hmem
  have hpos := List.length_pos_of_mem hmem
  simp only [World.left]
  omega

theorem advances_targetSends (hrest : w.target.rest ≠ []) : Advances s w := by
  have hpos := List.length_pos_iff.mpr hrest
  refine ⟨.targetSends w.target.rest.length, { w with
    target := w.target.sent, down := w.down ++ w.target.rest }, trivial, ?_, ?_⟩
  · simp only [World.act, Option.bind_eq_bind]
    rw [Framing.push_all hrest]
    rfl
  · have hless : w.target.sent.left w.counted + w.target.rest.length < w.target.left w.counted := by
      cases htarget : w.target with
      | info rest =>
          rw [htarget] at hpos
          have hpos : 0 < rest.length := hpos
          show 1 + 3 * (0 + _) + rest.length < 1 + 3 * (rest.length + _)
          omega
      | reply rc rest =>
          rw [htarget] at hpos
          have hpos : 0 < rest.length := hpos
          show 1 + 3 * (0 + _) + rest.length < 1 + 3 * (rest.length + _)
          omega
      | _ =>
          rw [htarget] at hrest
          exact absurd rfl hrest
    simp only [World.left, List.length_append]
    omega

theorem advances_sourceSends (hrest : w.source.rest ≠ []) : Advances s w := by
  have hpos := List.length_pos_iff.mpr hrest
  refine ⟨.sourceSends w.source.rest.length, { w with
    source := w.source.sent, up := w.up ++ w.source.rest }, trivial, ?_, ?_⟩
  · simp only [World.act, Option.bind_eq_bind]
    rw [Framing.push_all hrest]
    rfl
  · have hless : w.source.sent.work s + 3 * (w.source.sent.ahead s).length + w.source.rest.length <
        w.source.work s + 3 * (w.source.ahead s).length := by
      cases hsource : w.source with
      | verify rest =>
          rw [hsource] at hpos
          have hpos : 0 < rest.length := hpos
          show 1 + 3 * (frame u64 quitCommand).length + rest.length <
            0 + 3 * (rest ++ frame u64 quitCommand).length
          rw [List.length_append]
          omega
      | quit good rest =>
          rw [hsource] at hpos
          have hpos : 0 < rest.length := hpos
          show 0 + 3 * 0 + rest.length < 0 + 3 * rest.length
          omega
      | _ =>
          rw [hsource] at hrest
          exact absurd rfl hrest
    simp only [World.left, List.length_append]
    omega

theorem advances_targetReceives (hstreams : Streams s w) {rc : Exit} {r : Reader UInt8}
    (htarget : w.target = .command rc r) (hup : w.up ≠ []) : Advances s w := by
  have hreader : w.target.reader? = some r := by rw [htarget]; rfl
  obtain ⟨result, hpull⟩ := Framing.exists_pull (hstreams.targetOpen r hreader) hup
  obtain ⟨w', hact, hshort⟩ : exists w', w.act s (.targetReceives 1) = some w' ∧
      w'.up.length < w.up.length := by
    simp only [World.act, Option.bind_eq_bind]
    rw [hreader, Option.bind_some, hpull, Option.bind_some]
    refine ⟨_, rfl, ?_⟩
    show w.up.tail.length < w.up.length
    rw [List.length_tail]
    exact Nat.sub_lt (List.length_pos_iff.mpr hup) Nat.one_pos
  refine ⟨.targetReceives 1, w', trivial, hact, ?_⟩
  obtain ⟨_, rc', r', up, _, hheard⟩ := hstreams.targetReceives hact
  simp only [World.left]
  rw [htarget]
  cases hheard with
  | more next hne hw =>
      rw [hw, List.append_nil] at hshort ⊢
      have hshort : up.length < w.up.length := hshort
      have hsame : (Target.command rc' next).left w.counted =
          (Target.command rc r).left w.counted := rfl
      simp only
      rw [hsame]
      omega
  | verify hnone hasked hne hw =>
      rw [hw] at hshort ⊢
      have hshort : up.length < w.up.length := hshort
      have hrest : (frame u64 (putU64 (countOf s s.total w.region))).length = 16 := by
        unfold frame
        rw [List.length_append, u64.length_put, length_putU64]
        rfl
      have hbefore : (Target.command rc r).left w.counted = 1 + 3 * (0 + 16) := by
        rw [hnone]
        rfl
      have hafter : Target.left (w.counted ++ [countOf s s.total w.region])
          (.reply (if countOf s s.total w.region ≠ 0 then .failed else rc')
            (frame u64 (putU64 (countOf s s.total w.region)))) = 1 + 3 * (16 + 0) := by
        show 1 + 3 * ((frame u64 (putU64 (countOf s s.total w.region))).length + _) = _
        rw [hrest, hnone, List.nil_append, if_neg (List.cons_ne_nil _ _)]
      simp only
      rw [hbefore, hafter]
      omega
  | quit hcounted hne hw =>
      rw [hw] at hshort ⊢
      have hshort : up.length < w.up.length := hshort
      have hover : (Target.exited rc').left (w.counted ++ []) = 0 := rfl
      simp only
      rw [hover]
      omega

theorem advances_sourceReceives (hstreams : Streams s w) {r : Reader UInt8}
    (hreader : w.source.reader? = some r) (hdown : w.down ≠ []) : Advances s w := by
  obtain ⟨result, hpull⟩ := Framing.exists_pull (hstreams.sourceOpen r hreader) hdown
  obtain ⟨w', hact, hshort⟩ : exists w', w.act s (.sourceReceives 1) = some w' ∧
      w'.down.length < w.down.length := by
    simp only [World.act, Option.bind_eq_bind]
    rw [hreader, Option.bind_some, hpull, Option.bind_some]
    refine ⟨_, rfl, ?_⟩
    show w.down.tail.length < w.down.length
    rw [List.length_tail]
    exact Nat.sub_lt (List.length_pos_iff.mpr hdown) Nat.one_pos
  refine ⟨.sourceReceives 1, w', trivial, hact, ?_⟩
  obtain ⟨_, down, hheard⟩ := hstreams.sourceReceives hact
  have hsame : forall source : Source, w' = { w with source := source, down := down } ->
      source.work s + 3 * (source.ahead s).length ≤
        w.source.work s + 3 * (w.source.ahead s).length -> w'.left s < w.left s := by
    intro source hw hle
    rw [hw] at hshort ⊢
    have hshort : down.length < w.down.length := hshort
    simp only [World.left]
    omega
  cases hheard with
  | moreInfo r next hsource hw =>
      apply hsame _ hw
      rw [hsource]
      exact Nat.le_refl _
  | moreReply r next hsource hw =>
      apply hsame _ hw
      rw [hsource]
      exact Nat.le_refl _
  | info r hsource hw =>
      apply hsame _ hw
      rw [hsource, work_begin, ahead_begin]
      exact Nat.le_refl _
  | reply r b hsource hb hw =>
      apply hsame _ hw
      rw [hsource]
      show 0 + 3 * (frame u64 quitCommand).length ≤ 1 + 3 * (frame u64 quitCommand).length
      omega

/-- The sum after one member became smaller. -/
theorem sum_set_lt {xs : List PutStream} {i : Nat} {x y : PutStream} {n : Nat}
    (hx : xs[i]? = some x) (hless : streamWork y + n < streamWork x) :
    ((xs.set i y).map streamWork).sum + n < (xs.map streamWork).sum := by
  induction xs generalizing i with
  | nil => cases hx
  | cons z zs ih =>
      cases i with
      | zero =>
          cases hx
          rw [List.set_cons_zero, List.map_cons, List.map_cons, List.sum_cons, List.sum_cons]
          omega
      | succ i =>
          have hrest := ih hx
          rw [List.set_cons_succ, List.map_cons, List.map_cons, List.sum_cons, List.sum_cons]
          omega

theorem advances_measuring (hcan : w.source.CanIssue s) (hinflight : 0 < s.inflight) {peer : Info}
    {streams : List PutStream} {later : List (List Nat)}
    (hsource : w.source = .measuring peer streams later) (hmoving : w.moving = []) :
    Advances s w := by
  rw [hsource] at hcan
  by_cases hdone : streams.all PutStream.done
  · refine ⟨.sourceFlushes, { w with source := begin s peer later }, trivial, ?_, ?_⟩
    · show flush s w = _
      unfold flush
      rw [hsource]
      exact if_pos ⟨hdone, hmoving⟩
    · have hwork : (Source.measuring peer streams later).work s =
          1 + (streams.map streamWork).sum + roundsWork s later := rfl
      have hahead : (Source.measuring peer streams later).ahead s = frames u64 (script s) := rfl
      simp only [World.left]
      rw [work_begin, ahead_begin, hsource, hwork, hahead]
      omega
  · rw [Bool.not_eq_true, List.all_eq_false] at hdone
    obtain ⟨stream, hmem, hgoes⟩ := hdone
    have hgoes : stream.done = false := Bool.eq_false_iff.mpr hgoes
    obtain ⟨i, hi⟩ := List.mem_iff_getElem?.mp hmem
    have hless := sum_set_lt hi (work_step (hcan stream hmem) hinflight hgoes)
    refine ⟨.sourceSteps i (fun _ => true) (fun _ => false), { w with
      source := .measuring peer
        (streams.set i (stream.step (fun _ => true) (fun _ => false)).2) later
      moving := w.moving ++ (stream.step (fun _ => true) (fun _ => false)).1 }, trivial, ?_, ?_⟩
    · show stepStream i _ _ w = _
      unfold stepStream
      rw [hsource]
      simp only
      rw [hi]
      simp only
      rw [hgoes]
      rfl
    · have hwork : forall streams, (Source.measuring peer streams later).work s =
          1 + (streams.map streamWork).sum + roundsWork s later := fun _ => rfl
      have hahead : forall streams,
          (Source.measuring peer streams later).ahead s = frames u64 (script s) := fun _ => rfl
      simp only [World.left, List.length_append]
      rw [hsource, hwork, hwork, hahead, hahead]
      omega

theorem advances_sourceHangsUp {r : Reader UInt8} (hreader : w.source.reader? = some r)
    (hexited : w.target.isExited = true) (hdown : w.down = []) : Advances s w := by
  have hgone : w.source.reader?.isSome ∧ w.target.isExited ∧ w.down = [] :=
    ⟨by rw [hreader]; rfl, hexited, hdown⟩
  have hless : exists failed, w.source.fail = some failed ∧
      failed.work s + 3 * (failed.ahead s).length <
        w.source.work s + 3 * (w.source.ahead s).length := by
    cases hsource : w.source with
    | info r0 =>
        refine ⟨.exited .failed, rfl, ?_⟩
        have hframes : 0 < (frames u64 (script s)).length := by
          apply List.length_pos_iff.mpr
          exact List.append_ne_nil_of_left_ne_nil (Framing.frame_ne_nil u64 _) _
        show 0 + 3 * 0 < _ + 3 * (frames u64 (script s)).length
        omega
    | reply r0 =>
        refine ⟨.quit false (frame u64 quitCommand), rfl, ?_⟩
        show 0 + 3 * (frame u64 quitCommand).length < 1 + 3 * (frame u64 quitCommand).length
        omega
    | _ =>
        rw [hsource] at hreader
        cases hreader
  obtain ⟨failed, hfail, hless⟩ := hless
  refine ⟨.sourceHangsUp, { w with source := failed }, trivial, ?_, ?_⟩
  · simp only [World.act]
    rw [if_pos hgone, hfail]
    rfl
  · simp only [World.left]
    omega

theorem advances_targetHangsUp {rc : Exit} {r : Reader UInt8} (htarget : w.target = .command rc r)
    (hexited : w.source.isExited = true) (hup : w.up = []) : Advances s w := by
  have hgone : w.target.reader?.isSome ∧ w.source.isExited ∧ w.up = [] :=
    ⟨by rw [htarget]; rfl, hexited, hup⟩
  refine ⟨.targetHangsUp, { w with target := .exited .failed }, trivial, ?_, ?_⟩
  · simp only [World.act]
    rw [if_pos hgone, htarget]
    rfl
  · have hbefore : 0 < (Target.command rc r).left w.counted := by
      show 0 < 1 + _
      omega
    have hafter : (Target.exited .failed).left w.counted = 0 := rfl
    simp only [World.left]
    rw [htarget, hafter]
    omega

/-- A source that listens to a silent channel is heard out: the target has exited or has still
to answer. -/
theorem Streams.not_waiting (h : Streams s w) {rc : Exit} {r0 r : Reader UInt8}
    (htarget : w.target = .command rc r0) (hreader : w.source.reader? = some r)
    (hup : w.up = []) (hdown : w.down = []) : False := by
  have hlive : w.target.isExited = false := by rw [htarget]; rfl
  have hheld := held_of_reader? hreader
  cases hsource : w.source with
  | info r1 =>
      obtain ⟨z, hstream, hz⟩ := h.down 0 (by rw [hsource]; rfl)
      have hnil : z = [] := by rw [hz hlive, htarget]; rfl
      rw [hnil, hdown, List.append_nil, List.append_nil, hheld] at hstream
      have hnone := Framing.eq_nil_of_held (h.sourceOpen r hreader)
        (fun m hm => length_told (List.mem_of_mem_drop hm)) hstream
      cases hnone
  | reply r1 =>
      obtain ⟨z, hstream, hz⟩ := h.down 1 (by rw [hsource]; rfl)
      have hnil : z = [] := by rw [hz hlive, htarget]; rfl
      rw [hnil, hdown, List.append_nil, List.append_nil, hheld] at hstream
      have hnone := Framing.eq_nil_of_held (h.sourceOpen r hreader)
        (fun m hm => length_told (List.mem_of_mem_drop hm)) hstream
      have hcounted : w.counted = [] := List.map_eq_nil_iff.mp hnone
      obtain ⟨z, hstream, hz⟩ := h.up hlive
      have hahead : z = frame u64 quitCommand := by
        rw [hz (.inl (by rw [hsource]; rfl)), hsource]
        rfl
      have htargetHeld : w.target.held = r0.held u64 := by
        rw [htarget]
        rfl
      rw [hahead, hcounted, hup, List.append_nil, htargetHeld] at hstream
      have hverify : r0.held u64 = frames u64 [verifyCommand s] := by
        rw [<- List.append_left_inj (frame u64 quitCommand), hstream]
        show frame u64 (verifyCommand s) ++ (frame u64 quitCommand ++ []) =
          frame u64 (verifyCommand s) ++ [] ++ frame u64 quitCommand
        rw [List.append_nil, List.append_nil]
      have hfits : forall m, m ∈ [verifyCommand s] -> m.length < u64.bound := by
        intro m hm
        apply length_script (s := s)
        rw [List.mem_singleton.mp hm]
        exact List.mem_cons_self
      have hnone := Framing.eq_nil_of_held (h.targetOpen r0 (by rw [htarget]; rfl)) hfits hverify
      cases hnone
  | _ =>
      rw [hsource] at hreader
      cases hreader

/-- While a rank has not exited, some step goes on. -/
theorem Reached.advances (hinflight : 0 < s.inflight) (h : Reached s w) (hcut : w.cut = false)
    (hlive : ¬ (w.source.isExited = true ∧ w.target.isExited = true)) : Advances s w := by
  have hstreams := h.streams hcut
  by_cases hmoving : w.moving = []
  · -- What the source does by itself, or once something comes down.
    have hsourceGoes : forall hwaits : w.source.reader? = none, w.source.isExited = false ->
        Advances s w := by
      intro hwaits hgoes
      cases hsource : w.source with
      | measuring peer streams later =>
          exact advances_measuring (h.canIssue hcut) hinflight hsource hmoving
      | verify rest =>
          have hbusy := hstreams.sourceBusy
          apply advances_sourceSends
          rw [hsource] at hbusy ⊢
          exact hbusy
      | quit good rest =>
          have hbusy := hstreams.sourceBusy
          apply advances_sourceSends
          rw [hsource] at hbusy ⊢
          exact hbusy
      | crashed => exact absurd hsource (h.not_crashed hcut).1
      | info r =>
          rw [hsource] at hwaits
          cases hwaits
      | reply r =>
          rw [hsource] at hwaits
          cases hwaits
      | exited exit =>
          rw [hsource] at hgoes
          cases hgoes
    cases htarget : w.target with
    | info rest =>
        have hbusy := hstreams.targetBusy
        apply advances_targetSends
        rw [htarget] at hbusy ⊢
        exact hbusy
    | reply rc rest =>
        have hbusy := hstreams.targetBusy
        apply advances_targetSends
        rw [htarget] at hbusy ⊢
        exact hbusy
    | command rc r0 =>
        by_cases hup : w.up = []
        · cases hexited : w.source.isExited with
          | true => exact advances_targetHangsUp htarget hexited hup
          | false =>
              cases hreader : w.source.reader? with
              | none => exact hsourceGoes hreader hexited
              | some r =>
                  by_cases hdown : w.down = []
                  · exact (hstreams.not_waiting htarget hreader hup hdown).elim
                  · exact advances_sourceReceives hstreams hreader hdown
        · exact advances_targetReceives hstreams htarget hup
    | exited exit =>
        have hgone : w.target.isExited = true := by rw [htarget]; rfl
        have hgoes : w.source.isExited = false := by
          cases hexited : w.source.isExited with
          | true => exact absurd ⟨hexited, hgone⟩ hlive
          | false => rfl
        cases hreader : w.source.reader? with
        | none => exact hsourceGoes hreader hgoes
        | some r =>
            by_cases hdown : w.down = []
            · exact advances_sourceHangsUp hreader hgone hdown
            · exact advances_sourceReceives hstreams hreader hdown
    | crashed => exact absurd htarget (h.not_crashed hcut).2
  · exact advances_stores hmoving

/-!
## A command that was cut off
-/

/-- What the target may still do, by the bytes that it holds: a command that is answered has at
least 17 of them, and its answer 16. -/
def Target.cutLeft : Target -> Nat
  | .info rest => 1 + 3 * rest.length
  | .command _ reader => 1 + 10 * (reader.held u64).length
  | .reply _ rest => 1 + 3 * rest.length
  | _ => 0

/-- A bound on the steps that are left once a command was cut off. -/
def World.cutLeft (w : World) : Nat :=
  13 * w.source.rest.length + 12 * w.up.length + w.target.cutLeft

theorem cutLeft_heardCommand (rc : Exit) (region : Memory) (blob : Blob) :
    (heardCommand s rc region blob).1.cutLeft ≤ 1 + 6 * blob.length := by
  cases blob with
  | nil => exact Nat.zero_le _
  | cons c rest =>
      have hreply : forall (rc : Exit) (bad : Nat), 8 ≤ rest.length ->
          (Target.reply rc (frame u64 (putU64 bad))).cutLeft ≤ 1 + 6 * (c :: rest).length := by
        intro rc bad hrest
        have hlength : (frame u64 (putU64 bad)).length = 16 := by
          unfold frame
          rw [List.length_append, u64.length_put, length_putU64]
          rfl
        show 1 + 3 * (frame u64 (putU64 bad)).length ≤ _
        rw [hlength, List.length_cons]
        omega
      rw [heardCommand]
      split_ifs
      · exact Nat.zero_le _
      · cases hread : readU64 rest with
        | none => exact Nat.zero_le _
        | some r =>
            have hrest : 8 ≤ rest.length := by
              unfold readU64 at hread
              by_contra hshort
              rw [if_neg hshort] at hread
              cases hread
            dsimp only
            split_ifs
            · exact Nat.zero_le _
            · exact hreply _ _ hrest
            · exact hreply _ _ hrest
      · exact Nat.le_add_right _ _

variable (s) in
/-- A step without a failure of its own that leaves less to do after a cut. -/
def CutAdvances (w : World) : Prop :=
  exists a w', a.IsClean ∧ w.act s a = some w' ∧ w'.cutLeft < w.cutLeft

theorem cutAdvances_targetSends (hrest : w.target.rest ≠ []) : CutAdvances s w := by
  have hpos := List.length_pos_iff.mpr hrest
  refine ⟨.targetSends w.target.rest.length, { w with
    target := w.target.sent, down := w.down ++ w.target.rest }, trivial, ?_, ?_⟩
  · simp only [World.act, Option.bind_eq_bind]
    rw [Framing.push_all hrest]
    rfl
  · have hless : w.target.sent.cutLeft < w.target.cutLeft := by
      cases htarget : w.target with
      | info rest =>
          rw [htarget] at hpos
          have hpos : 0 < rest.length := hpos
          show 1 + 10 * 0 < 1 + 3 * rest.length
          omega
      | reply rc rest =>
          rw [htarget] at hpos
          have hpos : 0 < rest.length := hpos
          show 1 + 10 * 0 < 1 + 3 * rest.length
          omega
      | _ =>
          rw [htarget] at hrest
          exact absurd rfl hrest
    simp only [World.cutLeft]
    omega

theorem cutAdvances_sourceSends {rest : Blob} (hsource : w.source = .quit false rest)
    (hrest : rest ≠ []) : CutAdvances s w := by
  have hpos := List.length_pos_iff.mpr hrest
  refine ⟨.sourceSends rest.length, { w with
    source := .exited .failed, up := w.up ++ rest }, trivial, ?_, ?_⟩
  · simp only [World.act, Option.bind_eq_bind]
    rw [hsource, show (Source.quit false rest).rest = rest from rfl, Framing.push_all hrest]
    rfl
  · simp only [World.cutLeft, List.length_append]
    rw [hsource]
    show 13 * 0 + _ + _ < 13 * rest.length + _ + _
    omega

theorem cutAdvances_targetReceives (h : Cut w) {rc : Exit} {r : Reader UInt8}
    (htarget : w.target = .command rc r) (hup : w.up ≠ []) : CutAdvances s w := by
  have hreader : w.target.reader? = some r := by rw [htarget]; rfl
  have hopen := h.target.1 r hreader
  obtain ⟨result, hpull⟩ := Framing.exists_pull hopen hup
  obtain ⟨_, hlength, hresult⟩ := Framing.pulled_any hopen hpull
  have hless : (w.target.heard s w.region result).1.cutLeft < w.target.cutLeft + 12 := by
    rw [htarget]
    show _ < 1 + 10 * (r.held u64).length + 12
    rcases hresult with ⟨next, rfl, _, hheld⟩ | ⟨m, rfl, hheld⟩
    · show 1 + 10 * (next.held u64).length < _
      omega
    · have hle := cutLeft_heardCommand (s := s) rc w.region m
      have hwidth : u64.width = 8 := rfl
      show (heardCommand s rc w.region m).1.cutLeft < _
      omega
  obtain ⟨w', hact, hshort⟩ : exists w', w.act s (.targetReceives 1) = some w' ∧
      w'.cutLeft < w.cutLeft := by
    simp only [World.act, Option.bind_eq_bind]
    rw [hreader, Option.bind_some, hpull, Option.bind_some]
    refine ⟨_, rfl, ?_⟩
    simp only [World.cutLeft]
    omega
  exact ⟨.targetReceives 1, w', trivial, hact, hshort⟩

theorem cutAdvances_targetHangsUp {rc : Exit} {r : Reader UInt8}
    (htarget : w.target = .command rc r) (hexited : w.source.isExited = true) (hup : w.up = []) :
    CutAdvances s w := by
  have hgone : w.target.reader?.isSome ∧ w.source.isExited ∧ w.up = [] :=
    ⟨by rw [htarget]; rfl, hexited, hup⟩
  refine ⟨.targetHangsUp, { w with target := .exited .failed }, trivial, ?_, ?_⟩
  · simp only [World.act]
    rw [if_pos hgone, htarget]
    rfl
  · simp only [World.cutLeft]
    rw [htarget]
    show _ + 0 < _ + (1 + _)
    omega

/-- After a cut, some step goes on until both ranks are at their end. -/
theorem Cut.advances (h : Cut w) (hlive : ¬ (w.source.isExited = true ∧
    (w.target.isExited = true ∨ w.target = .crashed))) : CutAdvances s w := by
  -- What the source does by itself, when it has not exited.
  have hsourceGoes : w.source.isExited = false -> CutAdvances s w := by
    intro hgoes
    rcases h.source with ⟨rest, hrest, hsource⟩ | hsource
    · exact cutAdvances_sourceSends hsource hrest
    · rw [hsource] at hgoes
      cases hgoes
  have hover : w.target.isExited = true ∨ w.target = .crashed -> CutAdvances s w := by
    intro hend
    apply hsourceGoes
    rw [Bool.eq_false_iff]
    exact fun hexited => hlive ⟨hexited, hend⟩
  cases htarget : w.target with
  | info rest =>
      apply cutAdvances_targetSends
      rcases h.target.2 with hcrashed | hbusy
      · rw [htarget] at hcrashed
        cases hcrashed
      · rw [htarget] at hbusy ⊢
        exact hbusy
  | reply rc rest =>
      apply cutAdvances_targetSends
      rcases h.target.2 with hcrashed | hbusy
      · rw [htarget] at hcrashed
        cases hcrashed
      · rw [htarget] at hbusy ⊢
        exact hbusy
  | command rc r =>
      by_cases hup : w.up = []
      · cases hexited : w.source.isExited with
        | true => exact cutAdvances_targetHangsUp htarget hexited hup
        | false => exact hsourceGoes hexited
      · exact cutAdvances_targetReceives h htarget hup
  | exited exit => exact hover (.inl (by rw [htarget]; rfl))
  | crashed => exact hover (.inr htarget)

variable (s) in
/-- A bound on the steps that are left. -/
def World.bound (w : World) : Nat := if w.cut then w.cutLeft else w.left s

theorem bound_lt {a : Action} (hclean : a.IsClean) (hact : w.act s a = some w')
    (hless : if w.cut then w'.cutLeft < w.cutLeft else w'.left s < w.left s) :
    w'.bound s < w.bound s := by
  have hcut : w'.cut = w.cut := by
    apply cut_of_act hact
    intro hfails
    rw [hfails] at hclean
    exact hclean
  unfold World.bound
  rw [hcut]
  split_ifs with h
  · rw [if_pos h] at hless
    exact hless
  · rw [if_neg h] at hless
    exact hless

/-- Wherever the two ranks are, after whatever failures, steps without another failure end both;
only a target that hears a command that was cut off may read past an end instead. -/
theorem both_can_end (hinflight : 0 < s.inflight) (h : Reached s w) :
    exists moves w', (forall a, a ∈ moves -> a.IsClean) ∧
      Transition.replay (World.act s) w moves = some w' ∧ w'.source.isExited = true ∧
      (w'.target.isExited = true ∨ w'.cut = true ∧ w'.target = .crashed) := by
  apply Transition.exists_replay_of_measure (World.bound s) (fun _ _ _ => trivial) _ h
  intro w hreached hlive
  have hreached : Reached s w := hreached
  cases hcut : w.cut with
  | true =>
      obtain ⟨a, w', hclean, hact, hless⟩ := (hreached.streams_or_cut.2 hcut).advances (s := s)
        (fun hends => hlive ⟨hends.1, hends.2.imp_right fun hcrashed => ⟨hcut, hcrashed⟩⟩)
      refine ⟨a, w', hclean, hact, bound_lt hclean hact ?_⟩
      rw [hcut]
      exact hless
  | false =>
      obtain ⟨a, w', hclean, hact, hless⟩ := Reached.advances hinflight hreached hcut
        (fun hends => hlive ⟨hends.1, .inl hends.2⟩)
      refine ⟨a, w', hclean, hact, bound_lt hclean hact ?_⟩
      rw [hcut]
      exact hless

/-- The command to verify fails behind its first pieces, and the one to quit follows them. -/
theorem both_can_end_rails : exists start, Reached rails start ∧ start.cut = true ∧
    start.up ≠ [] ∧ exists moves w', (forall a, a ∈ moves -> Action.IsClean a) ∧
      Transition.replay (World.act rails) start moves = some w' ∧ w'.source.isExited = true ∧
      (w'.target.isExited = true ∨ w'.cut = true ∧ w'.target = .crashed) := by
  have hrun : exists w, Transition.replay (World.act rails) (World.start rails)
      (railsTransfers ++ [.sourceSends 4, .sourceSends 7, .sourceFails, .sourceSends 2]) = some w ∧
      w.cut = true ∧ w.up ≠ [] := by
    refine ⟨_, rfl, rfl, ?_⟩
    exact List.cons_ne_nil _ _
  obtain ⟨w, hreplay, hcut, hup⟩ := hrun
  exact ⟨w, rails_reached hreplay, hcut, hup,
    both_can_end (by decide) (rails_reached hreplay)⟩

end Rendezvous
end Bench
end Ostia
